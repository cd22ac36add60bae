import GoPackages.Registry.Implementations
import GoPackages.Proofs.Environment.Unordered

/-!
# Interfaces that are implemented

Whether a struct of a file implements an interface of it, read off the items: for each method of
the interface there is one whose receiver ends in the struct, and both signatures end in the same
references place by place.
-/
namespace GoPackages

open Source (TypeExpr Field InterfaceElem TypeSpec FuncDecl)

namespace OrderedMap

variable {α β : Type} {R : α → β → Prop}

def Alike (R : α → β → Prop) : List (String × α) → List (String × β) → Prop :=
  List.Forall₂ fun a b => a.1 = b.1 ∧ R a.2 b.2

theorem alike_put {l : List (String × α)} {l' : List (String × β)} (h : Alike R l l')
    {a : α} {b : β} (hab : R a b) (key : String) : Alike R (put key a l).2 (put key b l').2 := by
  induction h with
  | nil => exact .cons ⟨rfl, hab⟩ .nil
  | @cons e e' rest rest' he hrest ih =>
    obtain ⟨k, v⟩ := e
    obtain ⟨k', v'⟩ := e'
    obtain ⟨rfl, hv⟩ : k = k' ∧ R v v' := he
    by_cases hk : k = key
    · simp only [put, hk, if_true]
      exact .cons ⟨rfl, hab⟩ hrest
    · simp only [put, hk, if_false]
      exact .cons ⟨rfl, hv⟩ ih

theorem alike_empty : Alike R ({} : OrderedMap α).entries ({} : OrderedMap β).entries := .nil

theorem alike_insertAll {m : OrderedMap α} {m' : OrderedMap β} (h : Alike R m.entries m'.entries)
    {l : List (String × α)} {l' : List (String × β)} (hl : Alike R l l') :
    Alike R (m.insertAll l).entries (m'.insertAll l').entries := by
  induction hl generalizing m m' with
  | nil => exact h
  | @cons e e' rest rest' he _ ih =>
    obtain ⟨k, v⟩ := e
    obtain ⟨k', v'⟩ := e'
    obtain ⟨rfl, hv⟩ : k = k' ∧ R v v' := he
    exact ih (alike_put h hv k)

end OrderedMap

def signature? : InterfaceElem → Option (String × List Field × List Field)
  | .method name params results => some (name, params, results)
  | .embedded _ | .union _ => none

def interfaceMethods (elems : List InterfaceElem) : OrderedMap (List Field × List Field) :=
  ({} : OrderedMap (List Field × List Field)).insertAll (elems.filterMap signature?)

section Statements

variable (scope : FileScope) (base : Registry) (items : List Item)

def SameParameters (params params' : List Field) : Prop :=
  List.Forall₂ (SameType scope base items) (parameterTypes params) (parameterTypes params')

def MethodOf (name : String) (decl : FuncDecl) : Prop :=
  ∃ field, decl.receiver = some field ∧ Ends .core items (field.type ()) (.name name)

/-- The items declare a method of the struct `name` with this signature. -/
def Offers (name method : String) (params results : List Field) : Prop :=
  ∃ decl, .func decl ∈ items ∧ decl.name = method ∧ MethodOf items name decl ∧
    SameParameters scope base items decl.params params ∧
    SameParameters scope base items decl.results results

/-- The items declare all methods of the interface for the struct `name`. -/
def Provides (name : String) (elems : List InterfaceElem) : Prop :=
  ∀ wanted ∈ (interfaceMethods elems).entries,
    Offers scope base items name wanted.1 wanted.2.1 wanted.2.2

end Statements

def SameMethod (items : List Item) : Item → Item → Prop
  | .func decl, .func decl' => decl.name = decl'.name ∧ ∃ field field' t,
      decl.receiver = some field ∧ decl'.receiver = some field' ∧
      Ends .core items (field.type ()) t ∧ Ends .core items (field'.type ()) t
  | _, _ => False

def DistinctMethods (items : List Item) : Prop :=
  items.Pairwise fun a b => ¬SameMethod items a b

section

variable {scope : FileScope} {base reg : Registry} {items : List Item} {log : List Analyzed}
  {name : String} {owner : RefId} {method : String} {ty ty' : TypeId}

theorem SameMethod.symm {a b : Item} (h : SameMethod items a b) : SameMethod items b a := by
  cases a with
  | func decl =>
    cases b with
    | func decl' =>
      obtain ⟨hname, field, field', t, hf, hf', ht, ht'⟩ := h
      exact ⟨hname.symm, field', field, t, hf', hf, ht', ht⟩
    | importSpec | typeSpec | valueSpec => exact h.elim
  | importSpec | typeSpec | valueSpec => exact h.elim

theorem listed?_eq_some {a : Analyzed} {listed : TypeExpr → Bool}
    (h : a.listed? listed name = some ty) : ∃ doc spec owner, a.item = .typeSpec doc spec ∧
      a.outcome = .defined owner ty ∧ spec.name = name ∧ listed spec.type = true := by
  unfold Analyzed.listed? at h
  split at h
  next doc spec owner ty' hitem hout =>
    split at h
    next hlisted =>
      obtain rfl := Option.some.inj h
      exact ⟨doc, spec, owner, hitem, hout, hlisted⟩
    next => cases h
  next => cases h

theorem eq_of_declares (h : (declared items).Nodup) {a b : Item} (ha : a ∈ items)
    (hb : b ∈ items) {n : String} (hna : n ∈ a.typeNames) (hnb : n ∈ b.typeNames) : a = b := by
  have hpairs := (List.nodup_flatMap.mp h).2
  by_contra hne
  have hdisjoint : ∀ a ∈ items, ∀ b ∈ items, a = b ∨ List.Disjoint a.typeNames b.typeNames := by
    refine List.Pairwise.forall_of_forall_of_flip (fun _ _ => .inl rfl) ?_ ?_
    · exact hpairs.imp fun hab => .inr hab
    · exact hpairs.imp fun hab => .inr hab.symm
  exact (hdisjoint a ha b hb).resolve_left hne hna hnb

theorem forall₂_mem_iff {α β : Type} {R : α → β → Prop} {as : List α} {bs : List β}
    (h : List.Forall₂ R as bs) {P : α → Prop} {Q : β → Prop} (hpq : ∀ a b, R a b → (P a ↔ Q b)) :
    (∀ a ∈ as, P a) ↔ ∀ b ∈ bs, Q b := by
  induction h with
  | nil => simp
  | cons hab _ ih => rw [List.forall_mem_cons, List.forall_mem_cons, hpq _ _ hab, ih]

theorem alike_signatures {start stop : Nat} {elems : List InterfaceElem}
    {methods : List (String × TypeId)}
    (h : List.Forall₂ (ElementPlaced scope items reg start stop) elems methods) :
    OrderedMap.Alike (fun (s : List Field × List Field) m =>
      SignaturePlaced scope items reg start stop s.1 s.2 m)
      (elems.filterMap signature?) methods := by
  induction h with
  | nil => exact .nil
  | cons he _ ih =>
    obtain ⟨params, results, rfl, hsig⟩ := he
    exact .cons ⟨rfl, hsig⟩ ih

namespace Covers

variable (hacyclic : ∀ n, ¬Relation.TransGen (Renaming (log.map Analyzed.item)) n n)
include hacyclic

theorem sameTypes_iff (h : Covers scope base log reg) {a b : Analyzed} (ha : a ∈ log)
    (hb : b ∈ log) (hne : a ≠ b) (halias : a.item.alias? = none) (halias' : b.item.alias? = none)
    {types types' : List TypeExpr} {as bs : List Argument}
    (has : List.Forall₂ (fun type x =>
      Place scope (log.map Analyzed.item) reg a.start a.stop type x.type) types as)
    (hbs : List.Forall₂ (fun type x =>
      Place scope (log.map Analyzed.item) reg b.start b.stop type x.type) types' bs) :
    reg.graph.sameTypes as bs = true ↔
      List.Forall₂ (SameType scope base (log.map Analyzed.item)) types types' := by
  induction has generalizing types' bs with
  | nil =>
    cases hbs with
    | nil => exact ⟨fun _ => .nil, fun _ => rfl⟩
    | cons => exact ⟨fun hs => (by cases hs), fun hs => (by cases hs)⟩
  | @cons type x types as hx _ ih =>
    cases hbs with
    | nil => exact ⟨fun hs => (by cases hs), fun hs => (by cases hs)⟩
    | @cons type' y types' bs hy hbs =>
      have hfirst : reg.graph.sameRef x.type y.type = true ↔
          SameType scope base (log.map Analyzed.item) type type' := by
        rw [TypeGraph.sameRef, beq_iff_eq]
        exact h.of_eq_iff (v := .whole) hacyclic ha hb hne halias halias' hx hy
      rw [TypeGraph.sameTypes, Bool.and_eq_true, hfirst, ih hbs, List.forall₂_cons]

theorem compatible_iff (h : Covers scope base log reg) {a b : Analyzed} (ha : a ∈ log)
    (hb : b ∈ log) (hne : a ≠ b) (halias : a.item.alias? = none) (halias' : b.item.alias? = none)
    {params results params' results' : List Field}
    (hs : SignaturePlaced scope (log.map Analyzed.item) reg a.start a.stop params results ty)
    (hs' : SignaturePlaced scope (log.map Analyzed.item) reg b.start b.stop params' results' ty') :
    reg.graph.compatible ty ty' = true ↔
      SameParameters scope base (log.map Analyzed.item) params params' ∧
      SameParameters scope base (log.map Analyzed.item) results results' := by
  obtain ⟨t, hk, hparams, hresults⟩ := hs
  obtain ⟨t', hk', hparams', hresults'⟩ := hs'
  have hmethod : reg.graph.methodType? ty = some t := by rw [TypeGraph.methodType?, hk]
  have hmethod' : reg.graph.methodType? ty' = some t' := by rw [TypeGraph.methodType?, hk']
  rw [TypeGraph.compatible, hmethod, hmethod']
  dsimp only
  rw [TypeGraph.sameSignature, Bool.and_eq_true,
    h.sameTypes_iff hacyclic ha hb hne halias halias' hparams hparams',
    h.sameTypes_iff hacyclic ha hb hne halias halias' hresults hresults']
  exact Iff.rfl

theorem receiver_iff (h : Covers scope base log reg)
    (hn : Unaliased (log.map Analyzed.item) name) (hb : scope.found? base name = none)
    (hf : scope.found? reg name = some owner) {type : TypeExpr} {r : RefId} {start stop : Nat}
    (hplace : Place scope (log.map Analyzed.item) reg start stop type r) :
    reg.graph.namedRoot r = owner ↔ Ends .core (log.map Analyzed.item) type (.name name) := by
  have hself : (Terminal.name name).shown? .core scope reg = some owner := by
    rw [Terminal.shown?, hf, Option.map_some, h.lookups.of_found hn hf .core]
  constructor
  · intro hroot
    have hsite : View.core.head type ≠ .site := fun hhead =>
      (hplace.site .core hhead).unnamed name hn (hf.trans (congrArg some hroot.symm))
    obtain ⟨t, he⟩ := h.exists_end hacyclic (hplace.written .core) hsite
    have hname : Ends .core (log.map Analyzed.item) (.named name []) (.name name) := .name rfl hn
    have hshown := (h.shown hplace he).trans (congrArg some hroot)
    rcases h.same_of_shown he hname hshown hself with rfl | ⟨x, -, hknown⟩
    · exact he
    · cases hb.symm.trans hknown
  · intro he
    exact Option.some.inj ((h.shown hplace he).symm.trans hself)

omit hacyclic in
theorem attached_placed (h : Covers scope base log reg) {a : Analyzed} (ha : a ∈ log)
    {decl : FuncDecl} {receiver : RefId} (hitem : a.item = .func decl)
    (hout : a.outcome = .attached receiver ty) {field : Field} (hf : decl.receiver = some field) :
    ∃ data, reg.graph.typeAt? ty = some data ∧ data.name = decl.name ∧
      Place scope (log.map Analyzed.item) reg a.start a.stop (field.type ()) receiver ∧
      SignaturePlaced scope (log.map Analyzed.item) reg a.start a.stop decl.params decl.results
        ty := by
  have hc := h.covered a ha
  rw [hitem, hout] at hc
  cases hc with
  | attached hfield hd hname hplace hsig =>
    obtain rfl := Option.some.inj (hf.symm.trans hfield)
    exact ⟨_, hd, hname, hplace, hsig⟩

omit hacyclic in
theorem eq_of_sameMethod
    (hmethods : DistinctMethods (log.map Analyzed.item)) {a b : Analyzed} (ha : a ∈ log)
    (hb : b ∈ log) (hs : SameMethod (log.map Analyzed.item) a.item b.item) : a = b := by
  have hpairs := List.pairwise_map.mp hmethods
  have hall : ∀ a ∈ log, ∀ b ∈ log,
      SameMethod (log.map Analyzed.item) a.item b.item → a = b := by
    refine List.Pairwise.forall_of_forall_of_flip (fun _ _ _ => rfl) ?_ ?_
    · exact hpairs.imp fun hn hs => absurd hs hn
    · exact hpairs.imp fun hn hs => absurd hs.symm hn
  exact hall a ha b hb hs

omit hacyclic in
theorem mem_attached {y : RefId} (hm : (y, ty) ∈ log.filterMap Analyzed.attachment?) :
    ∃ a ∈ log, a.outcome = .attached y ty := by
  obtain ⟨a, ha, hatt⟩ := List.mem_filterMap.mp hm
  unfold Analyzed.attachment? at hatt
  split at hatt
  next hout =>
    obtain ⟨rfl, rfl⟩ := Prod.mk.inj (Option.some.inj hatt)
    exact ⟨a, ha, hout⟩
  all_goals cases hatt

theorem mem_refMethods (h : Covers scope base log reg)
    (hn : Unaliased (log.map Analyzed.item) name) (hb : scope.found? base name = none)
    (hf : scope.found? reg name = some owner)
    (hm : (method, ty) ∈ (reg.graph.refMethods owner).entries) :
    ∃ a ∈ log, ∃ decl receiver, a.item = .func decl ∧ a.outcome = .attached receiver ty ∧
      decl.name = method ∧ MethodOf (log.map Analyzed.item) name decl := by
  obtain ⟨y, hy, hroot⟩ := h.attached.origin owner method ty (h.lookups.hasRef hf) hm
  obtain ⟨⟨item, outcome, start, stop⟩, ha, rfl⟩ := mem_attached hy
  have hc := h.covered _ ha
  cases hc with
  | @attached decl field _ _ data hfield hd hname hplace hsig =>
    have hself : reg.graph.namedRoot owner = owner := h.lookups.of_found hn hf .core
    have hends := (h.receiver_iff hacyclic hn hb hf hplace).mp (hroot.trans hself)
    refine ⟨_, ha, decl, y, rfl, rfl, ?_, field, hfield, hends⟩
    obtain ⟨e, he⟩ := h.lookups.grounded.root_named (h.lookups.hasRef hf)
    have hentry : (method, ty) ∈ e.methods.entries := by
      rwa [TypeGraph.refMethods, TypeGraph.named?, he] at hm
    obtain ⟨data', hd', hname'⟩ :=
      TypeGraph.reachable_methodsNamed h.lookups.sound.graph _ e he method ty hentry
    obtain rfl := Option.some.inj (hd.symm.trans hd')
    exact hname.symm.trans hname'

theorem get?_refMethods (h : Covers scope base log reg)
    (hmethods : DistinctMethods (log.map Analyzed.item))
    (hn : Unaliased (log.map Analyzed.item) name) (hb : scope.found? base name = none)
    (hf : scope.found? reg name = some owner) :
    (reg.graph.refMethods owner).get? method = some ty ↔
      ∃ a ∈ log, ∃ decl receiver, a.item = .func decl ∧ a.outcome = .attached receiver ty ∧
        decl.name = method ∧ MethodOf (log.map Analyzed.item) name decl := by
  constructor
  · intro hget
    exact h.mem_refMethods hacyclic hn hb hf (OrderedMap.mem_of_find hget)
  · rintro ⟨a, ha, decl, receiver, hitem, hout, rfl, hmethod⟩
    have hatt : (receiver, ty) ∈ log.filterMap Analyzed.attachment? :=
      List.mem_filterMap.mpr ⟨a, ha, by rw [Analyzed.attachment?, hout]⟩
    obtain ⟨field, hfield, hends⟩ := hmethod
    obtain ⟨data, hd, hname, hplace, -⟩ := h.attached_placed ha hitem hout hfield
    have hroot := (h.receiver_iff hacyclic hn hb hf hplace).mpr hends
    have hself : reg.graph.namedRoot owner = owner := h.lookups.of_found hn hf .core
    obtain ⟨-, data', hd', hcontains⟩ := h.attached.found receiver ty hatt
    obtain rfl := Option.some.inj (hd.symm.trans hd')
    rw [TypeGraph.refMethods_congr (hroot.trans hself.symm), hname] at hcontains
    obtain ⟨ty', hget⟩ := Option.isSome_iff_exists.mp hcontains
    obtain ⟨a', ha', decl', receiver', hitem', hout', hname', field', hfield', hends'⟩ :=
      h.mem_refMethods hacyclic hn hb hf (OrderedMap.mem_of_find hget)
    have hsame : SameMethod (log.map Analyzed.item) a.item a'.item := by
      rw [hitem, hitem']
      exact ⟨hname'.symm, field, field', _, hfield, hfield', hends, hends'⟩
    obtain rfl := eq_of_sameMethod hmethods ha ha' hsame
    cases hout.symm.trans hout'
    exact hget

omit hacyclic in
theorem methodsOf?_struct (h : Covers scope base log reg) {a : Analyzed} (ha : a ∈ log)
    (hs : a.listed? isStruct name = some ty) : ∃ owner, scope.found? reg name = some owner ∧
      reg.graph.methodsOf? ty = some (reg.graph.refMethods owner) := by
  obtain ⟨doc, spec, owner, hitem, hout, rfl, hlisted⟩ := listed?_eq_some hs
  have hc := h.covered a ha
  rw [hitem, hout] at hc
  cases hc with
  | @defined _ _ _ _ data halias hf hd howner hkind =>
    cases htype : spec.type with
    | struct fields =>
      rw [htype] at hkind
      obtain ⟨t, ht⟩ := hkind
      refine ⟨owner, hf, ?_⟩
      rw [TypeGraph.methodsOf?, hd, Option.bind_some]
      rw [howner (by rw [ht]; rfl), ht]
      rfl
    | named | selector | pointer | array | slice | ellipsis | map | chan | func | interface
    | paren | bad => rw [htype] at hlisted; cases hlisted

omit hacyclic in
theorem methods_interface (h : Covers scope base log reg) {b : Analyzed} (hb : b ∈ log)
    (hi : b.listed? isInterface name = some ty) :
    ∃ doc spec elems t, b.item = .typeSpec doc spec ∧ spec.isAlias = false ∧ spec.name = name ∧
      spec.type = .interface elems ∧ reg.graph.interfaceType? ty = some t ∧
      OrderedMap.Alike (fun (s : List Field × List Field) m =>
        SignaturePlaced scope (log.map Analyzed.item) reg b.start b.stop s.1 s.2 m)
        (interfaceMethods elems).entries t.methods.entries := by
  obtain ⟨doc, spec, owner, hitem, hout, rfl, hlisted⟩ := listed?_eq_some hi
  have hc := h.covered b hb
  rw [hitem, hout] at hc
  cases hc with
  | @defined _ _ _ _ data halias hf hd howner hkind =>
    cases htype : spec.type with
    | interface elems =>
      rw [htype] at hkind
      obtain ⟨t, methods, ht, hmethods, hplaced⟩ := hkind
      have hiface : reg.graph.interfaceType? ty = some t := by
        rw [TypeGraph.interfaceType?, Registry.kind?_of_typeAt? hd, ht]
      refine ⟨doc, spec, elems, t, hitem, halias, rfl, htype, hiface, ?_⟩
      rw [hmethods]
      exact OrderedMap.alike_insertAll OrderedMap.alike_empty (alike_signatures hplaced)
    | named | selector | pointer | array | slice | ellipsis | map | chan | func | struct
    | paren | bad => rw [htype] at hlisted; cases hlisted

theorem offers_iff (h : Covers scope base log reg)
    (hmethods : DistinctMethods (log.map Analyzed.item))
    (hn : Unaliased (log.map Analyzed.item) name) (hb : scope.found? base name = none)
    (hf : scope.found? reg name = some owner) {b : Analyzed} (hbm : b ∈ log) {doc : Option Doc}
    {spec : TypeSpec} (hitem : b.item = .typeSpec doc spec) (halias : spec.isAlias = false)
    {params results : List Field} (hsig : SignaturePlaced scope (log.map Analyzed.item) reg
      b.start b.stop params results ty) :
    ((reg.graph.refMethods owner).get? method).any (reg.graph.compatible · ty) = true ↔
      Offers scope base (log.map Analyzed.item) name method params results := by
  have hb? : b.item.alias? = none := by
    rw [hitem, Item.alias?, halias]
    rfl
  have hcompatible : ∀ c ∈ log, ∀ decl receiver found, c.item = .func decl →
      c.outcome = .attached receiver found → ∀ field, decl.receiver = some field →
      (reg.graph.compatible found ty = true ↔
        SameParameters scope base (log.map Analyzed.item) decl.params params ∧
        SameParameters scope base (log.map Analyzed.item) decl.results results) := by
    intro c hc decl receiver found hfunc hout field hfield
    obtain ⟨-, -, -, -, hplaced⟩ := h.attached_placed hc hfunc hout hfield
    have hne : c ≠ b := by
      rintro rfl
      cases hfunc.symm.trans hitem
    have hc? : c.item.alias? = none := by rw [hfunc, Item.alias?]
    exact h.compatible_iff hacyclic hc hbm hne hc? hb? hplaced hsig
  rw [Option.any_eq_true]
  constructor
  · rintro ⟨found, hget, hsame⟩
    obtain ⟨c, hc, decl, receiver, hfunc, hout, hname, hof⟩ :=
      (h.get?_refMethods hacyclic hmethods hn hb hf).mp hget
    obtain ⟨field, hfield, hends⟩ := hof
    have hsignature := (hcompatible c hc decl receiver found hfunc hout field hfield).mp hsame
    exact ⟨decl, hfunc ▸ List.mem_map_of_mem hc, hname, ⟨field, hfield, hends⟩, hsignature⟩
  · rintro ⟨decl, hm, hname, hof, hsignature⟩
    obtain ⟨c, hc, hfunc⟩ := List.mem_map.mp hm
    obtain ⟨field, hfield, hends⟩ := hof
    have hcovered := h.covered c hc
    rw [hfunc] at hcovered
    generalize hout : c.outcome = outcome at hcovered
    cases hcovered with
    | @attached _ _ receiver found =>
      refine ⟨found, (h.get?_refMethods hacyclic hmethods hn hb hf).mpr ?_, ?_⟩
      · exact ⟨c, hc, decl, receiver, hfunc, hout, hname, field, hfield, hends⟩
      · exact (hcompatible c hc decl receiver found hfunc hout field hfield).mpr hsignature
    | function hnone => cases hfield.symm.trans hnone

/-- What the answer for a struct and an interface depends on. -/
theorem implements_iff (h : Covers scope base log reg)
    (hmethods : DistinctMethods (log.map Analyzed.item))
    (hn : Unaliased (log.map Analyzed.item) name) (hb : scope.found? base name = none)
    {a b : Analyzed} (ha : a ∈ log) (hbm : b ∈ log)
    (hs : a.listed? isStruct name = some ty) {iface : String}
    (hi : b.listed? isInterface iface = some ty') :
    ∃ doc spec elems, b.item = .typeSpec doc spec ∧ spec.name = iface ∧
      spec.type = .interface elems ∧ (reg.graph.implements ty ty' = true ↔
        Provides scope base (log.map Analyzed.item) name elems) := by
  obtain ⟨owner, hf, hown⟩ := h.methodsOf?_struct ha hs
  obtain ⟨doc, spec, elems, t, hitem, halias, hname, htype, hiface, hwanted⟩ :=
    h.methods_interface hbm hi
  refine ⟨doc, spec, elems, hitem, hname, htype, ?_⟩
  rw [TypeGraph.implements, hiface, hown]
  dsimp only
  rw [TypeGraph.provides, List.all_eq_true]
  refine (forall₂_mem_iff hwanted ?_).symm
  rintro ⟨method, params, results⟩ ⟨_, m⟩ ⟨rfl, hsig⟩
  exact (h.offers_iff hacyclic hmethods hn hb hf hbm hitem halias hsig).symm

end Covers

end

end GoPackages
