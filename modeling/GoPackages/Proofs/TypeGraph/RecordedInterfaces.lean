import GoPackages.Proofs.TypeGraph.MethodNames
import GoPackages.Registry.Implementations
import Mathlib.Algebra.BigOperators.Group.Finset.Basic

/-!
# Interfaces that are recorded

Structs come to list more interfaces, and no more than that changes. What a type implements does not
depend on what is listed anywhere, so that the structs of a package can be treated one after the
other, each as if it were the first.
-/
namespace GoPackages

def TypeData.listing (added : List TypeId) (data : TypeData) : TypeData :=
  match data.kind with
  | .struct type =>
    { data with kind := .struct { type with interfaces := type.interfaces ++ added } }
  | .base | .interface _ | .method _ | .map _ => data

theorem TypeData.listing_struct {data : TypeData} {type : StructType} (h : data.kind = .struct type)
    (added : List TypeId) : data.listing added =
      { data with kind := .struct { type with interfaces := type.interfaces ++ added } } := by
  rw [listing, h]

@[simp] theorem TypeData.listing_nil (data : TypeData) : data.listing [] = data := by
  obtain ⟨name, package, kind, declaredBy⟩ := data
  cases kind <;> simp [listing]

@[simp] theorem TypeData.listing_listing (data : TypeData) (added more : List TypeId) :
    (data.listing added).listing more = data.listing (added ++ more) := by
  obtain ⟨name, package, kind, declaredBy⟩ := data
  cases kind <;> simp [listing]

namespace TypeGraph

variable {g mid g' : TypeGraph} {added more : TypeId → List TypeId} {ty : TypeId}

/-- The interfaces among the given ones that a struct implements and does not list, each at its
first place. -/
def unlisted (g : TypeGraph) (interfaces : List TypeId) (ty : TypeId) : List TypeId :=
  match g.structType? ty with
  | none => []
  | some type =>
    ((interfaces.filter (g.implements ty)).filter (· ∉ type.interfaces)).eraseDups

structure Lists (g : TypeGraph) (added : TypeId → List TypeId) (g' : TypeGraph) : Prop where
  refs : g'.refs = g.refs
  types : ∀ ty, g'.typeAt? ty = (g.typeAt? ty).map (·.listing (added ty))

theorem entryAt?_of_refs_eq (h : g'.refs = g.refs) (r : RefId) : g'.entryAt? r = g.entryAt? r := by
  rw [entryAt?, entryAt?, h]

theorem eq_of_refs_eq (h : g'.refs = g.refs) : g' = { g with types := g'.types } := by
  obtain ⟨refs, types⟩ := g'
  obtain rfl : refs = g.refs := h
  rfl

theorem namedRoot_of_refs_eq (h : g'.refs = g.refs) (r : RefId) :
    g'.namedRoot r = g.namedRoot r := by
  rw [namedRoot, namedRoot, h]
  exact follow_congr (fun s => by rw [entryAt?_of_refs_eq h]) _ r

theorem canonical_of_refs_eq (h : g'.refs = g.refs) (r : RefId) :
    g'.canonical r = g.canonical r := by
  rw [canonical, canonical, h]
  exact follow_congr (fun s => by rw [entryAt?_of_refs_eq h]) _ r

theorem refMethods_of_refs_eq (h : g'.refs = g.refs) : g'.refMethods = g.refMethods := by
  funext r
  rw [refMethods, refMethods, named?, named?, namedRoot_of_refs_eq h, entryAt?_of_refs_eq h]

theorem sameTypes_of_refs_eq (h : g'.refs = g.refs) (as bs : List Argument) :
    g'.sameTypes as bs = g.sameTypes as bs := by
  rw [Bool.eq_iff_iff, sameTypes_iff, sameTypes_iff]
  simp only [canonical_of_refs_eq h]

namespace Lists

theorem interfaceType? (h : g.Lists added g') (ty : TypeId) :
    g'.interfaceType? ty = g.interfaceType? ty := by
  rw [TypeGraph.interfaceType?, TypeGraph.interfaceType?, kind?, kind?, h.types]
  cases g.typeAt? ty with
  | none => rfl
  | some data =>
    obtain ⟨name, package, kind, declaredBy⟩ := data
    cases kind <;> rfl

theorem methodType? (h : g.Lists added g') (ty : TypeId) :
    g'.methodType? ty = g.methodType? ty := by
  rw [TypeGraph.methodType?, TypeGraph.methodType?, kind?, kind?, h.types]
  cases g.typeAt? ty with
  | none => rfl
  | some data =>
    obtain ⟨name, package, kind, declaredBy⟩ := data
    cases kind <;> rfl

theorem methodsOf? (h : g.Lists added g') (ty : TypeId) : g'.methodsOf? ty = g.methodsOf? ty := by
  rw [TypeGraph.methodsOf?, TypeGraph.methodsOf?, h.types, refMethods_of_refs_eq h.refs]
  cases g.typeAt? ty with
  | none => rfl
  | some data =>
    obtain ⟨name, package, kind, declaredBy⟩ := data
    cases kind <;> rfl

theorem structType? (h : g.Lists added g') (ty : TypeId) :
    g'.structType? ty = (g.structType? ty).map fun type =>
      { type with interfaces := type.interfaces ++ added ty } := by
  rw [TypeGraph.structType?, TypeGraph.structType?, kind?, kind?, h.types]
  cases g.typeAt? ty with
  | none => rfl
  | some data =>
    obtain ⟨name, package, kind, declaredBy⟩ := data
    cases kind <;> rfl

theorem compatible (h : g.Lists added g') (m n : TypeId) :
    g'.compatible m n = g.compatible m n := by
  rw [TypeGraph.compatible, TypeGraph.compatible, h.methodType?, h.methodType?]
  cases g.methodType? m with
  | none => rfl
  | some x =>
    cases g.methodType? n with
    | none => rfl
    | some y =>
      simp only [sameSignature, sameTypes_of_refs_eq h.refs]

theorem implements (h : g.Lists added g') : g'.implements = g.implements := by
  funext ty iface
  have hprovides : g'.provides = g.provides := by
    funext own wanted
    simp only [provides, h.compatible]
  rw [TypeGraph.implements, TypeGraph.implements, h.interfaceType?, h.methodsOf?, hprovides]

theorem refl (g : TypeGraph) : g.Lists (fun _ => []) g :=
  ⟨rfl, fun ty => by simp⟩

theorem trans (h : g.Lists added mid) (h' : mid.Lists more g') :
    g.Lists (fun ty => added ty ++ more ty) g' := by
  refine ⟨h'.refs.trans h.refs, fun ty => ?_⟩
  rw [h'.types, h.types, Option.map_map]
  congr 1
  funext data
  exact data.listing_listing _ _

theorem unlisted_of_nil (h : g.Lists added g') {interfaces : List TypeId} (hnone : added ty = []) :
    g'.unlisted interfaces ty = g.unlisted interfaces ty := by
  rw [unlisted, unlisted, h.structType?, hnone, h.implements]
  cases g.structType? ty with
  | none => rfl
  | some type => simp

theorem unlisted_of_all (h : g.Lists added g') {interfaces : List TypeId}
    (hall : added ty = g.unlisted interfaces ty) : g'.unlisted interfaces ty = [] := by
  rw [unlisted] at hall ⊢
  rw [h.structType?, hall, h.implements]
  cases g.structType? ty with
  | none => rfl
  | some type =>
    have hnone : (interfaces.filter (g.implements ty)).filter (· ∉ type.interfaces ++
        ((interfaces.filter (g.implements ty)).filter (· ∉ type.interfaces)).eraseDups) = [] := by
      rw [List.filter_eq_nil_iff]
      intro iface hmem
      by_cases hlisted : iface ∈ type.interfaces
      · simp [hlisted]
      · simp [List.mem_eraseDups, hlisted, List.mem_filter.mp hmem]
    simp only [Option.map_some]
    rw [hnone, List.eraseDups_nil]

end Lists

theorem modifyType_congr {f f' : TypeData → TypeData}
    (h : ∀ data, g.typeAt? ty = some data → f data = f' data) :
    g.modifyType ty f = g.modifyType ty f' := by
  have htypes : g.types.modify ty.index f = g.types.modify ty.index f' := by
    refine Array.ext_getElem? fun i => ?_
    rw [Array.getElem?_modify, Array.getElem?_modify]
    split
    next hi =>
      subst hi
      cases hd : g.types[ty.index]? with
      | none => rfl
      | some data => exact congrArg some (h data hd)
    next => rfl
  rw [modifyType, htypes, modifyType]

theorem modifyType_listing_nil (g : TypeGraph) (ty : TypeId) :
    g.modifyType ty (·.listing []) = g := by
  have hid : (fun data : TypeData => data.listing []) = id := funext fun data => data.listing_nil
  have htypes : g.types.modify ty.index id = g.types := by
    refine Array.ext_getElem? fun i => ?_
    rw [Array.getElem?_modify, Option.map_id]
    split <;> rfl
  rw [hid, modifyType, htypes]

theorem structType?_eq_some_iff {type : StructType} :
    g.structType? ty = some type ↔
      ∃ data, g.typeAt? ty = some data ∧ data.kind = .struct type := by
  unfold structType? kind?
  cases g.typeAt? ty with
  | none => simp
  | some data => cases hk : data.kind <;> simp [hk]

theorem recordStruct_eq (g : TypeGraph) (interfaces : List TypeId) (ty : TypeId) :
    g.recordStruct interfaces ty =
      ((g.unlisted interfaces ty).length,
        g.modifyType ty (·.listing (g.unlisted interfaces ty))) := by
  rw [recordStruct]
  cases htype : g.structType? ty with
  | none =>
    have hnone : g.unlisted interfaces ty = [] := by rw [unlisted, htype]
    rw [hnone, modifyType_listing_nil]
    rfl
  | some type =>
    have hall : addMissing type.interfaces (interfaces.filter (g.implements ty)) =
        type.interfaces ++ g.unlisted interfaces ty := by
      rw [addMissing_eq, unlisted, htype]
    have hmodify : g.modifyStruct ty
          (fun type' => { type' with interfaces := type.interfaces ++ g.unlisted interfaces ty }) =
        g.modifyType ty (·.listing (g.unlisted interfaces ty)) := by
      refine modifyType_congr fun data hd => ?_
      obtain ⟨data', hd', hkind⟩ := structType?_eq_some_iff.mp htype
      obtain rfl := Option.some.inj (hd.symm.trans hd')
      rw [TypeData.listing_struct hkind, hkind]
    simp only [hall, hmodify, List.length_append, Nat.add_sub_cancel_left]

theorem lists_recordStruct (g : TypeGraph) (interfaces : List TypeId) (ty : TypeId) :
    g.Lists (fun t => if t = ty then g.unlisted interfaces t else [])
      (g.recordStruct interfaces ty).2 := by
  refine ⟨by rw [recordStruct_eq]; rfl, fun t => ?_⟩
  rw [recordStruct_eq, typeAt?_modifyType]
  congr 1
  funext data
  by_cases ht : t = ty
  · subst ht
    rw [if_pos rfl, if_pos rfl]
  · rw [if_neg ht, if_neg (Ne.symm ht), TypeData.listing_nil]

/-- Each struct lists what it would list if it were the only one, and the number of all that was
added is returned. -/
theorem recordStructs_lists (g : TypeGraph) (interfaces tys : List TypeId) :
    g.Lists (fun t => if t ∈ tys then g.unlisted interfaces t else [])
        (g.recordStructs interfaces tys).2 ∧
      (g.recordStructs interfaces tys).1 =
        ∑ ty ∈ tys.toFinset, (g.unlisted interfaces ty).length := by
  induction tys generalizing g with
  | nil => exact ⟨.refl g, rfl⟩
  | cons ty rest ih =>
    have hfirst := lists_recordStruct g interfaces ty
    obtain ⟨hrest, hcount⟩ := ih (g.recordStruct interfaces ty).2
    have hdone : (g.recordStruct interfaces ty).2.unlisted interfaces ty = [] :=
      hfirst.unlisted_of_all (if_pos rfl)
    have hother : ∀ t, t ≠ ty → (g.recordStruct interfaces ty).2.unlisted interfaces t =
        g.unlisted interfaces t := fun t ht => hfirst.unlisted_of_nil (if_neg ht)
    constructor
    · have hall := hfirst.trans hrest
      have hadded : (fun t => (if t = ty then g.unlisted interfaces t else []) ++
            if t ∈ rest then (g.recordStruct interfaces ty).2.unlisted interfaces t else []) =
          fun t => if t ∈ ty :: rest then g.unlisted interfaces t else [] := by
        funext t
        by_cases ht : t = ty
        · subst ht
          simp [hdone]
        · simp [ht, hother t ht]
      rw [hadded] at hall
      exact hall
    · have hsum : ∑ t ∈ rest.toFinset,
            ((g.recordStruct interfaces ty).2.unlisted interfaces t).length =
          ∑ t ∈ rest.toFinset.erase ty, (g.unlisted interfaces t).length := by
        rw [← Finset.sum_erase rest.toFinset (congrArg List.length hdone)]
        refine Finset.sum_congr rfl fun t ht => ?_
        rw [hother t (Finset.ne_of_mem_erase ht)]
      calc
        (g.recordStructs interfaces (ty :: rest)).1
          = (g.recordStruct interfaces ty).1 +
              ((g.recordStruct interfaces ty).2.recordStructs interfaces rest).1 := rfl
        _ = (g.unlisted interfaces ty).length +
              ∑ t ∈ rest.toFinset.erase ty, (g.unlisted interfaces t).length := by
            rw [hcount, hsum, recordStruct_eq]
        _ = ∑ t ∈ (ty :: rest).toFinset, (g.unlisted interfaces t).length := by
            rw [List.toFinset_cons, ← Finset.add_sum_erase _ _ (Finset.mem_insert_self ty _),
              Finset.erase_insert_eq_erase]

theorem recordStructs_of_listed {interfaces tys : List TypeId}
    (h : ∀ ty ∈ tys, g.unlisted interfaces ty = []) :
    g.recordStructs interfaces tys = (0, g) := by
  induction tys with
  | nil => rfl
  | cons ty rest ih =>
    have hfirst : g.recordStruct interfaces ty = (0, g) := by
      rw [recordStruct_eq, h ty List.mem_cons_self, modifyType_listing_nil]
      rfl
    have hrest := ih fun t ht => h t (List.mem_cons_of_mem ty ht)
    simp only [recordStructs, hfirst, hrest, Nat.add_zero]

/-- What has been recorded is not recorded again. -/
theorem recordStructs_again (g : TypeGraph) (interfaces tys : List TypeId) :
    (g.recordStructs interfaces tys).2.recordStructs interfaces tys =
      (0, (g.recordStructs interfaces tys).2) := by
  have hlists := (recordStructs_lists g interfaces tys).1
  exact recordStructs_of_listed fun ty hty => hlists.unlisted_of_all (if_pos hty)

end TypeGraph

theorem Registry.recordImplementations_eq {reg : Registry} {pkg : PackageId} {p : Package}
    (hp : reg.package? pkg = some p) : reg.recordImplementations pkg =
      ((reg.graph.recordStructs p.interfaces.ids p.structs.ids).1,
        { reg with graph := (reg.graph.recordStructs p.interfaces.ids p.structs.ids).2 }) := by
  rw [recordImplementations, hp]
  rfl

end GoPackages
