import GoPackages.Proofs.Analysis.Views
import GoPackages.Proofs.TypeGraph.Attached
import GoPackages.Proofs.TypeGraph.RecordedInterfaces
import GoPackages.Proofs.TypeGraph.Satisfaction

/-!
# What later graphs uphold

A graph that comes later may give a name other methods and make two references the same. It takes no
type back, separates no references, and leaves no name without a method that it had one of. So the
only way in which a type comes to implement an interface no more is that one of its methods gives
way to one of another signature.
-/
namespace GoPackages

theorem TypeData.listing_of_ne_struct {data : TypeData} (h : ∀ type, data.kind ≠ .struct type)
    (added : List TypeId) : data.listing added = data := by
  unfold listing
  split
  next type hk => exact absurd hk (h type)
  all_goals rfl

namespace TypeGraph

/-- The types of the first graph are those of the second, but for interfaces that structs came to
list, and what was true of references and of the names of methods is true again. -/
structure Upholds (g g' : TypeGraph) : Prop where
  hasRef : ∀ x, g.HasRef x → g'.HasRef x
  types : ∀ ty data, g.typeAt? ty = some data →
    ∃ added, g'.typeAt? ty = some (data.listing added)
  sameRef : ∀ a b, g.sameRef a b = true → g'.sameRef a b = true
  methods : ∀ x n, g.HasRef x → (g.refMethods x).contains n = true →
    (g'.refMethods x).contains n = true

namespace Upholds

variable {g mid g' : TypeGraph}

theorem refl (g : TypeGraph) : Upholds g g where
  hasRef _ h := h
  types ty data hd := ⟨[], by rw [data.listing_nil]; exact hd⟩
  sameRef _ _ h := h
  methods _ _ _ h := h

theorem trans (h : Upholds g mid) (h' : Upholds mid g') : Upholds g g' where
  hasRef x hx := h'.hasRef x (h.hasRef x hx)
  types ty data hd := by
    obtain ⟨added, hmid⟩ := h.types ty data hd
    obtain ⟨more, hlast⟩ := h'.types ty _ hmid
    exact ⟨added ++ more, by rw [← data.listing_listing]; exact hlast⟩
  sameRef a b hs := h'.sameRef a b (h.sameRef a b hs)
  methods x n hx hn := h'.methods x n (h.hasRef x hx) (h.methods x n hx hn)

/-- Changes that keep all entries with their edges, and leave names no method less. -/
theorem of_edges (hg : g.Grounded) (hg' : g'.Grounded) (hk : KeepsEdges g g')
    (types : ∀ ty data, g.typeAt? ty = some data →
      ∃ added, g'.typeAt? ty = some (data.listing added))
    (methods : ∀ r e e', g.entryAt? r = some (.named e) → g'.entryAt? r = some (.named e') →
      ∀ n, e.methods.contains n = true → e'.methods.contains n = true) : Upholds g g' where
  hasRef x hx := by
    obtain ⟨root, k, ds, hp⟩ := hg x hx
    exact (hp.kept hk).hasRef
  types := types
  sameRef a b h := by
    rcases sameRef_cases hg h with rfl | ⟨ha, hb⟩
    · exact sameRef_refl g' a
    · have hcanonical : ∀ x, g.HasRef x → g'.canonical x = g.canonical x := fun x hx =>
        View.whole.of_kept hg hg' hk hx
      rw [sameRef_iff, hcanonical a ha, hcanonical b hb, sameRef_iff.mp h]
  methods x n hx hn := by
    obtain ⟨root, k, ds, hp⟩ := hg x hx
    obtain ⟨e, he⟩ := hp.root_named
    obtain ⟨e', he'⟩ := hk.names root e he
    rw [hp.refMethods_eq he] at hn
    rw [(hp.kept hk).refMethods_eq he']
    exact methods root e e' he he' n hn

theorem types_of_eq (h : g'.types = g.types) (ty : TypeId) (data : TypeData)
    (hd : g.typeAt? ty = some data) : ∃ added, g'.typeAt? ty = some (data.listing added) := by
  refine ⟨[], ?_⟩
  rw [data.listing_nil, typeAt?, h]
  exact hd

theorem of_lists {added : TypeId → List TypeId} (h : g.Lists added g') : Upholds g g' where
  hasRef x hx := by
    unfold HasRef refCount at hx ⊢
    rwa [h.refs]
  types ty data hd := ⟨added ty, by rw [h.types, hd, Option.map_some]⟩
  sameRef a b hs := by
    rwa [sameRef_iff, canonical_of_refs_eq h.refs, canonical_of_refs_eq h.refs, ← sameRef_iff]
  methods x n _ hn := by rwa [refMethods_of_refs_eq h.refs]

theorem of_addMethod (h : Reachable g) {r : RefId} {method : TypeId} (hr : g.HasRef r)
    (hm : g.HasType method) : Upholds g (g.addMethod r method).2 where
  hasRef := (gathers_addMethod (reachable_grounded h) hr hm).hasRef
  types := types_of_eq (types_addMethod g r method)
  sameRef _ _ hs := by
    have he : g.Enabled (.addMethod r method) := ⟨hr, hm⟩
    exact sameRef_next h he hs
  methods := (gathers_addMethod (reachable_grounded h) hr hm).kept

theorem of_aliasTo (h : Reachable g) {r target : RefId} (hr : g.HasRef r) (ht : g.HasRef target)
    (halias : g.aliasTo? r target = some g') : Upholds g g' := by
  have hgathers := gathers_aliasTo (reachable_grounded h) (reachable_methodsNamed h) hr ht halias
  have hnext : g.next (.aliasTo r target) = g' := by rw [next, halias, Option.getD_some]
  constructor
  case hasRef => exact hgathers.hasRef
  case types =>
    refine types_of_eq ?_
    rw [aliasTo?_eq] at halias
    split at halias
    · cases halias
    · rw [← Option.some.inj halias]
      exact types_addMethods _ _ _
  case sameRef =>
    intro a b hs
    rw [← hnext]
    exact sameRef_next h ⟨hr, ht⟩ hs
  case methods => exact hgathers.kept

variable {ty m n : TypeId}

theorem interfaceType? (h : Upholds g g') {type : InterfaceType}
    (hi : g.interfaceType? ty = some type) : g'.interfaceType? ty = some type := by
  obtain ⟨data, hd, hk⟩ := interfaceType?_eq_some_iff.mp hi
  obtain ⟨added, hd'⟩ := h.types ty data hd
  rw [TypeData.listing_of_ne_struct (fun _ hs => by rw [hk] at hs; cases hs)] at hd'
  exact interfaceType?_eq_some_iff.mpr ⟨data, hd', hk⟩

theorem methodType? (h : Upholds g g') {type : MethodType} (hm : g.methodType? m = some type) :
    g'.methodType? m = some type := by
  obtain ⟨data, hd, hk⟩ := methodType?_eq_some_iff.mp hm
  obtain ⟨added, hd'⟩ := h.types m data hd
  rw [TypeData.listing_of_ne_struct (fun _ hs => by rw [hk] at hs; cases hs)] at hd'
  exact methodType?_eq_some_iff.mpr ⟨data, hd', hk⟩

theorem compatible (h : Upholds g g') (hc : g.compatible m n = true) :
    g'.compatible m n = true := by
  rw [compatible_iff_sameSignature] at hc ⊢
  obtain ⟨x, y, hx, hy, hargs, hresults⟩ := hc
  exact ⟨x, y, h.methodType? hx, h.methodType? hy, hargs.imp fun _ _ => h.sameRef _ _,
    hresults.imp fun _ _ => h.sameRef _ _⟩

end Upholds

end TypeGraph

end GoPackages
