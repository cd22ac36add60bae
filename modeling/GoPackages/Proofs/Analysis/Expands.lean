import GoPackages.Proofs.Analysis.Consults
import GoPackages.Proofs.Analysis.Sites
import GoPackages.Proofs.TypeGraph.Attached

/-!
# What only adds

In a file without imports and type parameters most of the analysis only adds: entries stay as
they are, tables get placeholders for names that nobody has, and no method finds its name. What
is left are the few steps that change an entry.
-/
namespace GoPackages

open Source (TypeExpr Field InterfaceElem ValueSpec GroupKind Expr)
open Registry (Extends)

def Registry.lists? (reg : Registry) (q : PackageId) : Option (DeclList × DeclList) :=
  (reg.package? q).map fun p => (p.structs, p.interfaces)

structure Expands (scope : FileScope) (free : TypeId → Prop) (reg reg' : Registry) : Prop where
  entries : ∀ r e, reg.graph.entryAt? r = some e → reg'.graph.entryAt? r = some e
  types : ∀ ty data, ¬free ty → reg.graph.typeAt? ty = some data →
    reg'.graph.typeAt? ty = some data
  names : TypeGraph.KeepsNames reg.graph reg'.graph
  placed : ∀ q n r, reg'.ref? q n = some r → reg.ref? q n = some r ∨
    ¬reg.graph.HasRef r ∧ reg'.graph.entryAt? r = some (.named { name := n, package := some q })
  consults : Consults scope reg reg'
  lists : reg'.lists? scope.package = reg.lists? scope.package
  sound : reg.Sound → reg'.Sound

/-- A scope of a file without imports, outside of any declaration with type parameters. -/
structure FileScope.Plain (scope : FileScope) : Prop where
  unqualified : scope.Unqualified
  typeParams : scope.typeParams = []

section

variable {scope : FileScope} {free free' : TypeId → Prop} {reg mid reg' : Registry}

theorem FileScope.Plain.sound (hp : scope.Plain) {p : Package}
    (h : reg.package? scope.package = some p) : scope.Sound reg where
  package := ⟨p, h⟩
  aliases qualifier q hq := by
    rw [hp.unqualified qualifier] at hq
    cases hq
  typeParams n r hr := by
    rw [hp.typeParams] at hr
    cases hr

theorem FileScope.Plain.withTypeParams_nil (hp : scope.Plain) :
    scope.withTypeParams [] = pure scope := by
  obtain ⟨package, decodeTag, typeParams, dotImports, aliases⟩ := scope
  obtain rfl : typeParams = [] := hp.typeParams
  rfl

namespace Expands

theorem hasRef (h : Expands scope free reg reg') {r : RefId} (hr : reg.graph.HasRef r) :
    reg'.graph.HasRef r := by
  obtain ⟨e, he⟩ := hr.entry
  exact TypeGraph.hasRef_of_entryAt? (h.entries r e he)

theorem refCount_le (h : Expands scope free reg reg') :
    reg.graph.refCount ≤ reg'.graph.refCount := by
  by_contra hn
  have hlast : reg.graph.HasRef ⟨reg'.graph.refCount⟩ := Nat.lt_of_not_le hn
  exact Nat.lt_irrefl _ (h.hasRef hlast)

theorem hasType (h : Expands scope free reg reg') {ty : TypeId} (ht : reg.graph.HasType ty) :
    reg'.graph.HasType ty := by
  obtain ⟨data, hd⟩ := ht.data
  obtain ⟨data', hd', -⟩ := h.names ty data hd
  exact TypeGraph.hasType_of_typeAt? hd'

theorem package (h : Expands scope free reg reg') {p : Package}
    (hp : reg.package? scope.package = some p) : ∃ p', reg'.package? scope.package = some p' := by
  have hl := h.lists
  rw [Registry.lists?, Registry.lists?, hp] at hl
  obtain ⟨p', hp', -⟩ := Option.map_eq_some_iff.mp hl
  exact ⟨p', hp'⟩

theorem refl (scope : FileScope) (free : TypeId → Prop) (reg : Registry) :
    Expands scope free reg reg where
  entries _ _ h := h
  types _ _ _ h := h
  names _ data h := ⟨data, h, rfl⟩
  placed _ _ _ h := .inl h
  consults := .refl scope reg
  lists := rfl
  sound h := h

theorem weaken (h : Expands scope free reg reg') (hf : ∀ ty, free ty → free' ty) :
    Expands scope free' reg reg' :=
  { h with types := fun ty data hn => h.types ty data fun ht => hn (hf ty ht) }

theorem trans (h : Expands scope free reg mid) (h' : Expands scope free mid reg') :
    Expands scope free reg reg' where
  entries r e he := h'.entries r e (h.entries r e he)
  types ty data hf hd := h'.types ty data hf (h.types ty data hf hd)
  names ty data hd := by
    obtain ⟨data₁, hd₁, hn₁⟩ := h.names ty data hd
    obtain ⟨data₂, hd₂, hn₂⟩ := h'.names ty data₁ hd₁
    exact ⟨data₂, hd₂, hn₂.trans hn₁⟩
  placed q n r hr := by
    rcases h'.placed q n r hr with hm | ⟨hn, he⟩
    · exact (h.placed q n r hm).imp_right fun ⟨hn, he⟩ => ⟨hn, h'.entries r _ he⟩
    · exact .inr ⟨fun ho => hn (h.hasRef ho), he⟩
  consults := h.consults.trans h'.consults
  lists := h'.lists.trans h.lists
  sound hs := h'.sound (h.sound hs)

theorem then_new (h : Expands scope reg.Unmade reg mid) (h' : Expands scope mid.Unmade mid reg') :
    Expands scope reg.Unmade reg reg' :=
  h.trans (h'.weaken fun _ hn ht => hn (h.hasType ht))

theorem of_read (hx : Extends scope.package free reg reg') (hc : Consults scope reg reg')
    (hn : TypeGraph.KeepsNames reg.graph reg'.graph) {p : Package}
    (hp : reg.package? scope.package = some p) : Expands scope free reg reg' where
  entries := hx.entries
  types := hx.types
  names := hn
  placed := hx.placed
  consults := hc
  lists := by
    obtain ⟨refs, hp'⟩ := hx.packages _ p hp
    rw [Registry.lists?, Registry.lists?, hp, hp']
    rfl
  sound := hx.sound

theorem of_extends (hx : Extends scope.package reg.Unmade reg reg')
    (hc : Consults scope reg reg') {p : Package} (hp : reg.package? scope.package = some p) :
    Expands scope reg.Unmade reg reg' :=
  of_read hx hc (fun ty data hd => ⟨data, hx.types ty data (fun hn =>
    hn (TypeGraph.hasType_of_typeAt? hd)) hd, rfl⟩) hp

theorem of_listing {f : Package → Package} (hrefs : ∀ p, (f p).refs = p.refs)
    (hstructs : ∀ p, (f p).structs = p.structs)
    (hinterfaces : ∀ p, (f p).interfaces = p.interfaces) :
    Expands scope free reg (reg.modifyPackage scope.package f) where
  entries _ _ h := h
  types _ _ _ h := h
  names ty data h := ⟨data, h, rfl⟩
  placed q n r h := .inl ((Registry.ref?_modifyPackage hrefs q n).symm.trans h)
  consults := .modifyPackage hrefs
  lists := by
    cases hp : reg.package? scope.package with
    | none =>
      have hi : reg.packages[scope.package.index]? = none := hp
      simp [Registry.lists?, Registry.package?, Registry.modifyPackage, Array.getElem?_modify, hi]
    | some p =>
      rw [Registry.lists?, Registry.lists?, Registry.package?_modifyPackage_self hp, hp]
      simp [hstructs, hinterfaces]
  sound h := h.modifyPackage hrefs

theorem gathers (h : Expands scope free reg reg') (hr : reg.Sound) :
    TypeGraph.Gathers reg.graph reg'.graph [] := by
  have hg := TypeGraph.reachable_grounded hr.graph
  have hg' := TypeGraph.reachable_grounded (h.sound hr).graph
  refine .of_same h.names (fun _ => h.hasRef) (fun x hx => ?_) fun x hx _ => ?_
  · obtain ⟨root, k, ds, hp⟩ := hg x hx
    obtain ⟨e, he⟩ := hp.root_named
    have hk : TypeGraph.KeepsEdges reg.graph reg'.graph :=
      ⟨fun r e he => ⟨e, h.entries r _ he⟩, fun r _ _ => h.entries r _, fun r _ => h.entries r _⟩
    have hp' := hp.kept hk
    exact ⟨hp'.namedRoot_eq.trans hp.namedRoot_eq.symm,
      (hp'.refMethods_eq (h.entries root _ he)).trans (hp.refMethods_eq he).symm⟩
  · obtain ⟨root, k, ds, hp⟩ := hg' x hx
    obtain ⟨e, he⟩ := hp.root_named
    rw [hp.refMethods_eq he]
    rcases h.consults.methods root e he with hold | hempty
    · refine .inr ⟨root, TypeGraph.hasRef_of_entryAt? hold, ?_⟩
      exact (TypeGraph.namedRoot_of_named he).trans hp.namedRoot_eq.symm
    · rw [hempty]
      exact .inl rfl

end Expands

def Expanding {α : Type} (scope : FileScope) (m : Analysis α) : Prop :=
  ∀ reg, reg.Sound → scope.Sound reg →
    After m reg (fun _ reg' => Expands scope reg.Unmade reg reg') fun _ => True

theorem Expanding.of_reads {α : Type} {m : Analysis α} {good : Registry → α → Registry → Prop}
    (hl : Looks scope m)
    (h : ∀ reg, reg.Sound → scope.Sound reg → Reads scope reg.Unmade reg m (good reg)) :
    Expanding scope m := by
  intro reg hr hs
  obtain ⟨p, hp⟩ := hs.package
  refine (After.and (h reg hr hs) (hl reg)).mono (fun _ _ hread => ?_) fun _ _ => trivial
  exact .of_extends hread.1.1 hread.2 hp

theorem expanding_pure {α : Type} (a : α) : Expanding scope (pure a) :=
  fun reg _ _ => .refl scope _ reg

theorem Expanding.bind {α β : Type} {m : Analysis α} {k : α → Analysis β} (hp : scope.Plain)
    (h : Expanding scope m) (hk : ∀ a, Expanding scope (k a)) : Expanding scope (m >>= k) := by
  intro reg hr hs
  obtain ⟨p, hpack⟩ := hs.package
  refine After.bind (h reg hr hs) (fun a mid hm => ?_) fun _ h => h
  obtain ⟨p', hpack'⟩ := hm.package hpack
  exact (hk a mid (hm.sound hr) (hp.sound hpack')).mono (fun _ _ h => hm.then_new h) fun _ h => h

theorem expanding_inferType (hp : scope.Plain) (e : Expr) : Expanding scope (inferType scope e) :=
  .of_reads (inferType_looks hp.unqualified e) fun _ hr hs => inferType_reads hr hs e

theorem expanding_resolveType (hp : scope.Plain) (type : TypeExpr) :
    Expanding scope (resolveType scope type) :=
  .of_reads (resolveType_looks hp.unqualified type) fun _ hr hs => resolveType_reads hr hs type

theorem expanding_declareVariable (kind : GroupKind) (v : Variable) :
    Expanding scope (declareVariable scope kind v) := by
  intro reg _ _
  refine Expands.of_listing (listValue_refs kind v) (fun p => ?_) fun p => ?_
  · split <;> rfl
  · split <;> rfl

theorem expanding_declareNames (hp : scope.Plain) (kind : GroupKind) (doc : Doc)
    (declared : Option RefId) (source : ValueSpec) (index : Nat) (names : List String) :
    Expanding scope (declareNames scope kind doc declared source index names) := by
  induction names generalizing index with
  | nil => exact expanding_pure ()
  | cons name rest ih =>
    rw [declareNames]
    by_cases hb : name = "_"
    · simp only [hb, ne_eq, not_true, if_false]
      exact ih (index + 1)
    · simp only [hb, ne_eq, not_false_iff, if_true]
      have hvalue : Expanding scope (valueType scope declared source index) := by
        unfold valueType
        split
        · exact expanding_pure _
        · split
          · exact expanding_inferType hp _
          · exact expanding_pure _
      exact hvalue.bind hp fun type =>
        (expanding_declareVariable kind { name, type, doc }).bind hp fun _ => ih (index + 1)

theorem expanding_declareValueSpec (hp : scope.Plain) (kind : GroupKind) (groupDoc : Option Doc)
    (spec source : ValueSpec) :
    Expanding scope (declareValueSpec scope kind groupDoc spec source) := by
  unfold declareValueSpec
  refine Expanding.bind hp ?_ fun declared => expanding_declareNames hp kind _ declared source 0 _
  cases source.type with
  | none => exact expanding_pure _
  | some type => exact (expanding_resolveType hp type).bind hp fun _ => expanding_pure _

end

end GoPackages
