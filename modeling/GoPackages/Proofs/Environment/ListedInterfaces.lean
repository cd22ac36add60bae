import GoPackages.Proofs.Environment.Requests
import GoPackages.Proofs.TypeGraph.RecordedInterfaces

/-!
# Who writes the lists of interfaces

A type is made before anything is known of what it implements, and its declaration never touches the
list of its interfaces. So whatever a session does, the lists are those that recordings have left,
and every interface in them was seen to be implemented by one of the recordings.
-/
namespace GoPackages

namespace TypeGraph

def listed (g : TypeGraph) (ty : TypeId) : List TypeId :=
  (g.kind? ty).elim [] TypeKind.interfaces

variable {g g' : TypeGraph} {ty iface : TypeId}

theorem listed_of_typeAt? {data : TypeData} (hd : g.typeAt? ty = some data) :
    g.listed ty = data.kind.interfaces := by
  simp [listed, kind?, hd]

theorem listed_of_types_eq (h : g'.types = g.types) : g'.listed = g.listed := by
  funext ty
  rw [listed, listed, kind?, kind?, typeAt?, typeAt?, h]

theorem listed_addType {data : TypeData} (hl : data.kind.interfaces = []) :
    (g.addType data).2.listed = g.listed := by
  funext ty
  by_cases ht : g.HasType ty
  · rw [listed, listed, kind?, kind?, typeAt?_addType_of_lt ht]
  · have hold : g.typeAt? ty = none := by
      cases hd : g.typeAt? ty with
      | none => rfl
      | some data => exact absurd (hasType_of_typeAt? hd) ht
    have hnone : g.listed ty = [] := by rw [listed, kind?, hold, Option.map_none, Option.elim_none]
    cases hd : (g.addType data).2.typeAt? ty with
    | none => rw [hnone, listed, kind?, hd, Option.map_none, Option.elim_none]
    | some data' =>
      obtain rfl : data' = data := by
        rcases typeAt?_addType_cases hd with hsome | heq
        · exact absurd (hasType_of_typeAt? hsome) ht
        · exact heq
      rw [listed_of_typeAt? hd, hl, hnone]

theorem listed_modifyType {f : TypeData → TypeData}
    (hf : ∀ data, (f data).kind.interfaces = data.kind.interfaces) (g : TypeGraph) (t : TypeId) :
    (g.modifyType t f).listed = g.listed := by
  funext ty
  rw [listed, listed, kind?, kind?, typeAt?_modifyType]
  cases g.typeAt? ty with
  | none => rfl
  | some data =>
    simp only [Option.map_some, Option.elim_some]
    split
    · exact hf data
    · rfl

theorem listed_bind (g : TypeGraph) (r : RefId) (t : TypeId) :
    (g.bind r t).2.listed = g.listed := by
  refine (listed_modifyType (fun data => ?_) _ t).trans (listed_of_types_eq rfl)
  split <;> rfl

theorem Lists.mem_listed {added : TypeId → List TypeId} (h : g.Lists added g')
    (hm : iface ∈ g'.listed ty) : iface ∈ g.listed ty ∨ iface ∈ added ty := by
  cases hd : g.typeAt? ty with
  | none =>
    rw [listed, kind?, h.types, hd] at hm
    cases hm
  | some data =>
    rw [listed, kind?, h.types, hd] at hm
    rw [listed_of_typeAt? hd]
    cases hk : data.kind with
    | struct type =>
      simp only [Option.map_some, Option.elim_some, TypeData.listing_struct hk,
        TypeKind.interfaces] at hm
      exact List.mem_append.mp hm
    | base | interface | method | map => simp [TypeData.listing, hk, TypeKind.interfaces] at hm

theorem implements_of_mem_unlisted {interfaces : List TypeId}
    (h : iface ∈ g.unlisted interfaces ty) :
    iface ∈ interfaces ∧ g.implements ty iface = true := by
  unfold unlisted at h
  split at h
  · cases h
  · exact List.mem_filter.mp (List.mem_filter.mp (List.mem_eraseDups.mp h)).1

end TypeGraph

namespace Registry

variable {reg reg' : Registry} {q : PackageId} {ty iface : TypeId}

/-- A recording in the package sees that its struct implements its interface. -/
def Proves (reg : Registry) (q : PackageId) (ty iface : TypeId) : Prop :=
  ∃ p, reg.package? q = some p ∧ ty ∈ p.structs.ids ∧ iface ∈ p.interfaces.ids ∧
    reg.graph.implements ty iface = true

theorem Edit.listed (h : Edit reg reg') : reg'.graph.listed = reg.graph.listed := by
  have hstruct : ∀ (g : TypeGraph) (t : TypeId) (f : StructType → StructType),
      (∀ type, (f type).interfaces = type.interfaces) → (g.modifyStruct t f).listed = g.listed := by
    intro g t f hf
    refine TypeGraph.listed_modifyType (fun data => ?_) g t
    split
    next type hk => rw [hk]; exact hf type
    next => rfl
  cases h with
  | @ensureRef p _ name =>
    cases href : reg.ref? p name with
    | some r => rw [ensureRef_of_some href]
    | none =>
      refine TypeGraph.listed_of_types_eq ?_
      rw [Registry.ensureRef, href]
      rfl
  | addType _ hl => exact TypeGraph.listed_addType hl
  | fresh | decorate => exact TypeGraph.listed_of_types_eq rfl
  | addFields _ t => exact hstruct _ t _ fun _ => rfl
  | addInterfaceMethod _ _ t =>
    refine TypeGraph.listed_modifyType (fun data => ?_) _ t
    split
    next type hk => rw [hk]; rfl
    next => rfl
  | bind => exact TypeGraph.listed_bind _ _ _
  | addMethod _ r => exact TypeGraph.listed_of_types_eq (TypeGraph.types_addMethod _ r _)
  | @aliasTo r target graph _ halias =>
    refine TypeGraph.listed_of_types_eq ?_
    rw [TypeGraph.aliasTo?_eq] at halias
    split at halias
    · cases halias
    · obtain rfl := Option.some.inj halias
      exact TypeGraph.types_addMethods _ _ _
  | register | listType | listFunction | listValue => rfl

theorem Edits.listed (h : Edits reg reg') : reg'.graph.listed = reg.graph.listed := by
  induction h with
  | refl => rfl
  | tail _ hlast ih => exact hlast.listed.trans ih

/-- A recording lists no interface without the proof that it is implemented. -/
theorem mem_listed_recordImplementations
    (h : iface ∈ (reg.recordImplementations q).2.graph.listed ty) :
    iface ∈ reg.graph.listed ty ∨ reg.Proves q ty iface := by
  cases hp : reg.package? q with
  | none =>
    rw [recordImplementations, hp] at h
    exact .inl h
  | some p =>
    have hlists := (TypeGraph.recordStructs_lists reg.graph p.interfaces.ids p.structs.ids).1
    rw [recordImplementations_eq hp] at h
    refine (hlists.mem_listed h).imp_right fun hadded => ?_
    split at hadded
    next hty =>
      obtain ⟨hiface, himplements⟩ := TypeGraph.implements_of_mem_unlisted hadded
      exact ⟨p, hp, hty, hiface, himplements⟩
    next => cases hadded

end Registry

namespace Environment

variable {env env' : Environment} {events : List Event}

theorem Step.listed (h : Step env events env') :
    env'.registry.graph.listed = env.registry.graph.listed := by
  cases h with
  | edits h => exact h.listed
  | append h => rw [(Registry.append_ok h).2.2.1]
  | locate | locateDir | tell | unread | read | markExplored => rfl

theorem Steps.listed (h : Steps env events env') :
    env'.registry.graph.listed = env.registry.graph.listed := by
  induction h with
  | refl => rfl
  | tail _ hstep ih => exact hstep.listed.trans ih

theorem perform_listed (hr : env.registry.WellFormed) (hb : env.builtin ≠ none) {request : Request}
    (hn : env.Names request) (hnot : ∀ q, request ≠ .recordImplementations q) :
    (env.perform request).registry.graph.listed = env.registry.graph.listed := by
  rcases perform_cases hr hb hn with ⟨_, hsteps⟩ | ⟨_, pkg, file, _, -, hsteps⟩ |
    ⟨-, -, -, hgraph, -⟩
  · exact hsteps.listed
  · exact hsteps.listed
  · rw [hgraph hnot]

end Environment

end GoPackages
