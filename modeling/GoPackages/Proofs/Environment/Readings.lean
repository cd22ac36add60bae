import GoPackages.Proofs.Environment.Places

/-!
# Places that reading makes

What a declaration reads is placed among the entries that it makes. The elements of an interface
are read one after the other, with a change of the interface in between.
-/
namespace GoPackages

open Source (TypeExpr Field InterfaceElem FuncDecl)
open Registry (Extends)

section Signatures

variable (scope : FileScope) (items : List Item) (reg : Registry) (start stop : Nat)

def ArgumentsPlaced (fields : List Field) (arguments : List Argument) : Prop :=
  List.Forall₂ (fun type a => Place scope items reg start stop type a.type)
    (parameterTypes fields) arguments

def SignaturePlaced (params results : List Field) (ty : TypeId) : Prop :=
  ∃ t, reg.graph.kind? ty = some (.method t) ∧
    ArgumentsPlaced scope items reg start stop params t.arguments ∧
    ArgumentsPlaced scope items reg start stop results t.results

def ElementPlaced (elem : InterfaceElem) (method : String × TypeId) : Prop :=
  ∃ params results, elem = .method method.1 params results ∧
    SignaturePlaced scope items reg start stop params results method.2

/-- The kind of a defined type whose methods were read, if it has any. -/
def KindPlaced : TypeExpr → TypeKind → Prop
  | .struct _, kind => ∃ t, kind = .struct t
  | .interface elems, kind => ∃ t methods, kind = .interface t ∧
    t.methods = ({} : MethodSet).insertAll methods ∧
    List.Forall₂ (ElementPlaced scope items reg start stop) elems methods
  | _, kind => kind = .base

end Signatures

theorem forall₂_and {α β : Type} {R S : α → β → Prop} {as : List α} {bs : List β}
    (h : List.Forall₂ R as bs) (h' : List.Forall₂ S as bs) :
    List.Forall₂ (fun a b => R a b ∧ S a b) as bs := by
  induction h with
  | nil => exact .nil
  | cons hr _ ih =>
    cases h' with
    | cons hs hrest => exact .cons ⟨hr, hs⟩ (ih hrest)

section

variable {scope : FileScope} {base reg mid reg' : Registry} {items items' : List Item}
  {free : TypeId → Prop} {start stop start' stop' : Nat} {type : TypeExpr} {r : RefId}
  {params results : List Field} {ty : TypeId}

theorem SignaturePlaced.sustained
    (h : SignaturePlaced scope items reg start stop params results ty)
    (hs : Sustains scope items items' free reg reg') (hf : ¬free ty) :
    SignaturePlaced scope items' reg' start stop params results ty := by
  obtain ⟨t, hk, ha, hr⟩ := h
  obtain ⟨data, hd, hkind⟩ := Registry.typeAt?_of_kind? hk
  refine ⟨t, ?_, ha.imp fun _ _ h => h.sustained hs, hr.imp fun _ _ h => h.sustained hs⟩
  rw [Registry.kind?_of_typeAt? (hs.types ty data hf hd), hkind]

theorem SignaturePlaced.widen
    (h : SignaturePlaced scope items reg start stop params results ty) (hl : start' ≤ start)
    (hu : stop ≤ stop') : SignaturePlaced scope items reg start' stop' params results ty := by
  obtain ⟨t, hk, ha, hr⟩ := h
  exact ⟨t, hk, ha.imp fun _ _ h => h.widen hl hu, hr.imp fun _ _ h => h.widen hl hu⟩

theorem SignaturePlaced.hasType
    (h : SignaturePlaced scope items reg start stop params results ty) :
    reg.graph.HasType ty := by
  obtain ⟨t, hk, -⟩ := h
  obtain ⟨data, hd, -⟩ := Registry.typeAt?_of_kind? hk
  exact TypeGraph.hasType_of_typeAt? hd

theorem KindPlaced.widen {kind : TypeKind}
    (h : KindPlaced scope items reg start stop type kind) (hl : start' ≤ start)
    (hu : stop ≤ stop') : KindPlaced scope items reg start' stop' type kind := by
  cases type with
  | struct fields => exact h
  | interface elems =>
    obtain ⟨t, methods, rfl, hmethods, he⟩ := h
    refine ⟨t, methods, rfl, hmethods, he.imp fun elem method => ?_⟩
    rintro ⟨params, results, rfl, hsig⟩
    exact ⟨params, results, rfl, hsig.widen hl hu⟩
  | named | selector | pointer | array | slice | ellipsis | map | chan | func | paren | bad =>
    exact h

theorem KindPlaced.sustained {kind : TypeKind}
    (h : KindPlaced scope items reg start stop type kind)
    (hs : Sustains scope items items' reg.Unmade reg reg') :
    KindPlaced scope items' reg' start stop type kind := by
  cases type with
  | struct fields => exact h
  | interface elems =>
    obtain ⟨t, methods, rfl, hmethods, he⟩ := h
    refine ⟨t, methods, rfl, hmethods, he.imp fun elem method => ?_⟩
    rintro ⟨params, results, rfl, hsig⟩
    exact ⟨params, results, rfl, hsig.sustained hs fun hn => hn hsig.hasType⟩
  | named | selector | pointer | array | slice | ellipsis | map | chan | func | paren | bad =>
    exact h

namespace Lookups

theorem place (h : Lookups scope base items reg) (hp : scope.Plain)
    (hg : Expands scope free reg reg') {lo : Nat} (href : reg'.graph.HasRef r)
    (hd : Denotes reg'.graph lo (scope.meaning reg') type r)
    (hsites : NewSites reg.graph reg'.graph type r) :
    Place scope items reg' reg.graph.refCount reg'.graph.refCount type r := by
  have h' := h.expanded hg
  refine ⟨href, fun v => ?_, fun v n hn => ?_, fun v hv => ?_, fun v hv => ?_⟩
  · refine v.head_ne_elsewhere type r ?_ hd
    rintro b n s ⟨qualifier, q, -, hq, -⟩
    cases (hp.unqualified qualifier).symm.trans hq
  · obtain ⟨s, hs, heq⟩ := v.of_denotes_name h'.grounded type r hd hn
    exact ⟨s, h'.meaning hp.typeParams hs, heq⟩
  · obtain ⟨e, he⟩ := h'.old _ h.bottom
    exact (v.of_denotes_empty h'.grounded type r hd hv).trans (v.of_named he)
  · obtain ⟨hnew, e, he, hsite⟩ := hsites v hv
    refine ⟨Nat.le_of_not_lt hnew, TypeGraph.hasRef_of_entryAt? he, fun n _ hf => ?_⟩
    rcases hg.found?_cases hf with hold | ⟨-, hplaceholder⟩
    · exact hnew (h.hasRef hold)
    · cases he.symm.trans hplaceholder
      cases hsite

theorem resolveType_placed (h : Lookups scope base items reg) (hp : scope.Plain) {p : Package}
    (hpack : reg.package? scope.package = some p)
    (hok : resolveType scope type reg = .ok r mid) :
    Expands scope reg.Unmade reg mid ∧
      Place scope items mid reg.graph.refCount mid.graph.refCount type r := by
  have hs := hp.sound hpack
  obtain ⟨hx, href, hd⟩ := (resolveType_reads h.sound hs type).of_ok hok
  obtain ⟨-, -, hsites⟩ := (resolveType_sites h.sound hs type).of_ok hok
  have hg : Expands scope reg.Unmade reg mid :=
    .of_extends hx ((resolveType_looks hp.unqualified type reg).of_ok hok) hpack
  exact ⟨hg, h.place hp hg href hd hsites⟩

theorem argumentsPlaced (h : Lookups scope base items reg) (hp : scope.Plain)
    (hg : Expands scope free reg reg') {lo : Nat} {fields : List Field} {arguments : List Argument}
    (hd : ArgumentsDenote reg'.graph lo (scope.meaning reg') fields arguments)
    (hsites : ArgumentSites reg.graph reg'.graph fields arguments) :
    ArgumentsPlaced scope items reg' reg.graph.refCount reg'.graph.refCount fields arguments :=
  (forall₂_and hd.forall₂ hsites).imp fun _ _ ⟨hd, href, hs⟩ => h.place hp hg href hd hs

theorem resolveMethod_placed (h : Lookups scope base items reg) (hp : scope.Plain)
    {p : Package} (hpack : reg.package? scope.package = some p) {name : String} {doc : Doc}
    {receiver : Option Argument}
    (hok : resolveMethod scope name doc receiver params results reg = .ok ty mid) :
    Expands scope reg.Unmade reg mid ∧ reg.Unmade ty ∧
      (∃ data, mid.graph.typeAt? ty = some data ∧ data.name = name) ∧
      SignaturePlaced scope items mid reg.graph.refCount mid.graph.refCount params results ty := by
  have hs := hp.sound hpack
  obtain ⟨hx, data, t, hty, hname, hsig⟩ :=
    (resolveMethod_reads h.sound hs name doc receiver params results).of_ok hok
  obtain ⟨-, t', hkind, hparams, hresults⟩ :=
    (resolveMethod_sites h.sound hs name doc receiver params results).of_ok hok
  have heq := hsig.kind.symm.trans hkind
  cases heq
  have hg : Expands scope reg.Unmade reg mid := .of_extends hx
    ((resolveMethod_looks hp.unqualified name doc receiver params results reg).of_ok hok) hpack
  exact ⟨hg, Nat.not_lt.mpr hsig.made, ⟨data, hty, hname⟩, t, hkind,
    h.argumentsPlaced hp hg hsig.arguments hparams,
    h.argumentsPlaced hp hg hsig.results hresults⟩

theorem expands_addInterfaceMethod {p : Package} (hpack : reg.package? scope.package = some p)
    (ty : TypeId) (name : String) (method : TypeId) :
    Expands scope (· = ty) reg
      (reg.withGraph fun g => (g.addInterfaceMethod ty name method).2) := by
  have hx : Extends scope.package (Eq ty) reg _ :=
    Registry.extends_addInterfaceMethod reg rfl name method
  refine .of_read (hx.weaken fun _ h => h.symm) ?_ ?_ hpack
  · exact .of_graph fun _ _ he => .inl he
  · refine TypeGraph.keepsNames_modifyType reg.graph ty fun data => ?_
    split <;> rfl

theorem declareElems_placed (h : Lookups scope base items reg) (hp : scope.Plain) {p : Package}
    (hpack : reg.package? scope.package = some p) (ht : reg.graph.HasType ty)
    {elems : List InterfaceElem} (hok : declareElems scope ty elems reg = .ok () reg') :
    Expands scope (fun t => t = ty ∨ reg.Unmade t) reg reg' ∧
      ∃ methods, reg.MethodsAdded reg' ty methods ∧
        List.Forall₂ (ElementPlaced scope items reg' reg.graph.refCount reg'.graph.refCount)
          elems methods := by
  induction elems generalizing reg p with
  | nil =>
    cases hok
    refine ⟨.refl scope _ _, [], fun data t hd hk => ?_, .nil⟩
    rw [hd]
    exact congrArg some (by rw [OrderedMap.insertAll, List.foldl_nil, ← hk])
  | cons elem rest ih =>
    cases elem with
    | embedded | union => cases hok
    | method name params results =>
      obtain ⟨method, mid, hmethod, hok⟩ := bind_ok hok
      obtain ⟨⟨⟩, mid', hadd, hok⟩ := bind_ok hok
      obtain ⟨hg, hnew, -, hsig⟩ := h.resolveMethod_placed hp hpack hmethod
      obtain ⟨p₁, hpack₁⟩ := hg.package hpack
      obtain rfl : mid.withGraph (fun g => (g.addInterfaceMethod ty name method).2) = mid' := by
        cases hadd
        rfl
      have hfill := expands_addInterfaceMethod hpack₁ ty name method
      obtain ⟨p₂, hpack₂⟩ := hfill.package hpack₁
      have hmid := h.expanded hg
      have hmid' := hmid.expanded hfill
      obtain ⟨hrest, methods, hadded, hplaced⟩ :=
        ih hmid' hpack₂ (hfill.hasType (hg.hasType ht)) hok
      -- no type that was there before the rest is filled, but for the interface itself
      have hafter : Expands scope (fun t => t = ty ∨ mid.Unmade t) mid reg' := by
        refine (hfill.weaken fun _ => .inl).trans (hrest.weaken fun t hf => hf.imp_right ?_)
        exact fun hn hm => hn (hfill.hasType hm)
      refine ⟨?_, (name, method) :: methods, ?_, .cons ⟨params, results, rfl, ?_⟩ ?_⟩
      · refine (hg.weaken fun _ => .inr).trans (hafter.weaken fun t hf => hf.imp_right ?_)
        exact fun hn hm => hn (hg.hasType hm)
      · intro data t hd hk
        have hboth := (methodsAdded_addInterfaceMethod mid ty name method).trans hadded
        exact hboth data t (hg.types ty data (fun hn => hn ht) hd) hk
      · have hs := Sustains.of_expands hmid hafter fun _ h => h
        refine (hsig.sustained hs ?_).widen le_rfl hafter.refCount_le
        rintro (rfl | hn)
        · exact hnew ht
        · exact hn hsig.hasType
      · refine hplaced.imp fun elem m => ?_
        rintro ⟨ps, rs, rfl, hs⟩
        exact ⟨ps, rs, rfl, hs.widen (Nat.le_trans hg.refCount_le hfill.refCount_le) le_rfl⟩

theorem declareFunc_placed (h : Lookups scope base items reg) (hp : scope.Plain) {p : Package}
    (hpack : reg.package? scope.package = some p) {decl : FuncDecl}
    (hparams : typeParamNames decl = []) (hok : declareFunc scope decl reg = .ok () reg') :
    decl.receiver = none ∧ Expands scope reg.Unmade reg reg' ∨
      ∃ field r ty mid data, decl.receiver = some field ∧ Expands scope reg.Unmade reg mid ∧
        mid.graph.typeAt? ty = some data ∧ data.name = decl.name ∧
        Place scope items mid reg.graph.refCount mid.graph.refCount (field.type ()) r ∧
        SignaturePlaced scope items mid reg.graph.refCount mid.graph.refCount decl.params
          decl.results ty ∧
        reg' = mid.withGraph fun g => (g.addMethod r ty).2 := by
  unfold declareFunc at hok
  rw [hparams, hp.withTypeParams_nil, pure_bind] at hok
  obtain ⟨receiver, mid₁, hreceiver, hrest⟩ := bind_ok hok
  obtain ⟨ty, mid, hmethod, hlast⟩ := bind_ok hrest
  cases hfield : decl.receiver with
  | none =>
    rw [hfield] at hreceiver
    cases hreceiver
    obtain ⟨hg, -⟩ := h.resolveMethod_placed hp hpack hmethod
    cases hlast
    exact .inl ⟨rfl, hg.trans (.of_listing (fun _ => rfl) (fun _ => rfl) fun _ => rfl)⟩
  | some field =>
    rw [hfield] at hreceiver
    obtain ⟨a, mid₀, hread, hsome⟩ := bind_ok (m := resolveReceiver scope field) hreceiver
    cases hsome
    obtain ⟨r, _, htype, hname⟩ := bind_ok hread
    cases hname
    obtain ⟨hg, hplace⟩ := h.resolveType_placed hp hpack htype
    obtain ⟨p', hpack'⟩ := hg.package hpack
    obtain ⟨hg', -, ⟨data, hd, hn⟩, hsig⟩ :=
      (h.expanded hg).resolveMethod_placed hp hpack' hmethod
    have hs := Sustains.of_expands (h.expanded hg) hg' fun _ hm => hm
    cases hlast
    refine .inr ⟨field, r, ty, mid, data, rfl, hg.then_new hg', hd, hn, ?_, ?_, rfl⟩
    · exact (hplace.sustained hs).widen le_rfl hg'.refCount_le
    · exact hsig.widen hg.refCount_le le_rfl

theorem fill_placed (h : Lookups scope base items reg) (hp : scope.Plain) {p : Package}
    (hpack : reg.package? scope.package = some p) {data : TypeData}
    (hd : reg.graph.typeAt? ty = some data) {doc : Doc} (hk : data.kind = kindOf doc type)
    (hok : fill scope ty type reg = .ok () reg') :
    Expands scope (fun t => t = ty ∨ reg.Unmade t) reg reg' ∧
      ∃ kind, reg'.graph.typeAt? ty = some { data with kind } ∧
        KindPlaced scope items reg' reg.graph.refCount reg'.graph.refCount type kind := by
  have ht := TypeGraph.hasType_of_typeAt? hd
  obtain ⟨name, package, kind, owner⟩ := data
  obtain rfl : kind = kindOf doc type := hk
  cases type with
  | interface elems =>
    obtain ⟨hg, methods, hadded, hplaced⟩ := h.declareElems_placed hp hpack ht hok
    exact ⟨hg, _, hadded _ _ hd rfl, _, methods, rfl, rfl, hplaced⟩
  | struct fields =>
    obtain ⟨hx, stored, hadded, -⟩ :=
      (resolveFields_reads h.sound (hp.sound hpack) ht fields).of_ok hok
    have hd' := hadded _ _ hd rfl
    refine ⟨.of_read hx ((resolveFields_looks hp.unqualified ty fields reg).of_ok hok) ?_ hpack,
      _, hd', _, rfl⟩
    intro t data ht'
    by_cases hty : t = ty
    · subst hty
      obtain rfl := Option.some.inj (ht'.symm.trans hd)
      exact ⟨_, hd', rfl⟩
    · refine ⟨data, hx.types t data ?_ ht', rfl⟩
      exact not_or.mpr ⟨hty, fun hn => hn (TypeGraph.hasType_of_typeAt? ht')⟩
  | named | selector | pointer | array | slice | ellipsis | map | chan | func | paren | bad =>
    cases hok
    exact ⟨.refl scope _ _, .base, hd, rfl⟩

end Lookups

end

end GoPackages
