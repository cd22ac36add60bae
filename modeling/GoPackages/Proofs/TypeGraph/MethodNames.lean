import GoPackages.Proofs.OrderedMap
import GoPackages.Proofs.TypeGraph.Run

/-!
# Methods under their names

A method set on a name holds each method under the name of its type, in every graph that
operations reach. Moving the methods of one set therefore inserts its entries in another.
-/
namespace GoPackages

namespace TypeGraph

def NamedMethods (g : TypeGraph) (methods : MethodSet) : Prop :=
  ∀ n m, (n, m) ∈ methods.entries → ∃ data, g.typeAt? m = some data ∧ data.name = n

def KeepsNames (g g' : TypeGraph) : Prop :=
  ∀ ty data, g.typeAt? ty = some data → ∃ data', g'.typeAt? ty = some data' ∧
    data'.name = data.name

theorem KeepsNames.of_types_eq {g g' : TypeGraph} (h : g'.types = g.types) :
    KeepsNames g g' :=
  fun ty data hd => ⟨data, by simpa [typeAt?, h] using hd, rfl⟩

theorem keepsNames_addType (g : TypeGraph) (data : TypeData) :
    KeepsNames g (g.addType data).2 :=
  fun _ d hd => ⟨d, (typeAt?_addType_of_lt (hasType_of_typeAt? hd) data).trans hd, rfl⟩

theorem typeAt?_modifyType (g : TypeGraph) (ty t : TypeId) (f : TypeData → TypeData) :
    (g.modifyType ty f).typeAt? t =
      (g.typeAt? t).map fun data => if ty = t then f data else data := by
  by_cases h : ty = t
  · subst h
    simp [modifyType, typeAt?, Array.getElem?_modify]
  · rw [typeAt?_modifyType_of_ne h]
    simp [h]

theorem typeAt?_addType_cases {g : TypeGraph} {data data' : TypeData} {ty : TypeId}
    (h : (g.addType data).2.typeAt? ty = some data') :
    g.typeAt? ty = some data' ∨ data' = data := by
  have ht : ty.index < g.typeCount + 1 := by
    rw [← typeCount_addType g data]
    exact hasType_of_typeAt? h
  rcases Nat.lt_succ_iff_lt_or_eq.mp ht with hlt | heq
  · exact .inl ((typeAt?_addType_of_lt hlt data).symm.trans h)
  · obtain rfl : ty = (g.addType data).1 := by cases ty; exact congrArg TypeId.mk heq
    rw [typeAt?_addType_self] at h
    exact .inr (Option.some.inj h).symm

theorem keepsNames_modifyType (g : TypeGraph) (ty : TypeId) {f : TypeData → TypeData}
    (hf : ∀ data, (f data).name = data.name) : KeepsNames g (g.modifyType ty f) := by
  intro t data hd
  rw [typeAt?_modifyType, hd]
  refine ⟨_, rfl, ?_⟩
  split
  · exact hf data
  · rfl

theorem NamedMethods.kept {g g' : TypeGraph} {methods : MethodSet}
    (h : NamedMethods g methods) (hk : KeepsNames g g') : NamedMethods g' methods := by
  intro n m hm
  obtain ⟨data, hd, hn⟩ := h n m hm
  obtain ⟨data', hd', hn'⟩ := hk m data hd
  exact ⟨data', hd', hn'.trans hn⟩

theorem NamedMethods.insert {g : TypeGraph} {methods : MethodSet} (h : NamedMethods g methods)
    {m : TypeId} {data} (hd : g.typeAt? m = some data) :
    NamedMethods g (methods.insert data.name m) := by
  intro n' m' hm
  rcases OrderedMap.mem_entries_insert hm with hm | ⟨rfl, rfl⟩
  · exact h n' m' hm
  · exact ⟨data, hd, rfl⟩

/-- The keys of all method sets on names are the names of the methods. -/
def MethodsNamed (g : TypeGraph) : Prop :=
  ∀ r e, g.entryAt? r = some (.named e) → NamedMethods g e.methods

theorem MethodsNamed.of_refs_eq {g g' : TypeGraph} (hg : g.MethodsNamed)
    (hr : g'.refs = g.refs) (hk : KeepsNames g g') : g'.MethodsNamed :=
  fun r e he => (hg r e (by simpa [entryAt?, hr] using he)).kept hk

theorem entryAt?_addRef_cases {g : TypeGraph} {e e' : RefEntry} {r}
    (h : (g.addRef e).2.entryAt? r = some e') : g.entryAt? r = some e' ∨ e' = e := by
  rcases (hasRef_of_entryAt? h).addRef_cases with hr | rfl
  · exact .inl ((entryAt?_addRef_of_lt hr e).symm.trans h)
  · rw [entryAt?_addRef_self] at h
    exact .inr (Option.some.inj h).symm

theorem MethodsNamed.addRef {g : TypeGraph} (hg : g.MethodsNamed) {e : RefEntry}
    (he : ∀ entry, e = .named entry → entry.methods = {}) : (g.addRef e).2.MethodsNamed := by
  intro r e' h
  rcases entryAt?_addRef_cases h with h | h
  · exact (hg r e' h).kept (.of_types_eq rfl)
  · intro n m hm
    simp [he e' h.symm] at hm

theorem entryAt?_modifyNamed_cases {g : TypeGraph} {r s : RefId} {f : NamedRef → NamedRef} {e'}
    (h : (g.modifyNamed r f).entryAt? s = some (.named e')) :
    ∃ e, g.entryAt? s = some (.named e) ∧ (e' = e ∨ s = r ∧ e' = f e) := by
  by_cases hs : r = s
  · subst hs
    cases he : g.entryAt? r with
    | none =>
      have : (g.modifyNamed r f).HasRef r := hasRef_of_entryAt? h
      have hr : g.HasRef r := by unfold HasRef at this ⊢; simpa using this
      obtain ⟨e, he'⟩ := hr.entry
      simp [he] at he'
    | some e =>
      cases e with
      | named e =>
        rw [entryAt?_modifyNamed_of_named he] at h
        exact ⟨e, rfl, .inr ⟨rfl, by simpa using h.symm⟩⟩
      | decorated d inner => simp [(keepsEdges_modifyNamed g r f).decorators r d inner he] at h
      | aliasOf target => simp [(keepsEdges_modifyNamed g r f).aliases r target he] at h
  · rw [entryAt?_modifyNamed_of_ne hs] at h
    exact ⟨e', h, .inl rfl⟩

theorem MethodsNamed.modifyNamed {g : TypeGraph} (hg : g.MethodsNamed) {r : RefId}
    {f : NamedRef → NamedRef}
    (hf : ∀ e, NamedMethods g e.methods → NamedMethods g (f e).methods) :
    (g.modifyNamed r f).MethodsNamed := by
  intro s e' h
  obtain ⟨e, he, heq⟩ := entryAt?_modifyNamed_cases h
  have hold := hg s e he
  rcases heq with rfl | ⟨_, rfl⟩
  · exact hold.kept (.of_types_eq rfl)
  · exact (hf e hold).kept (.of_types_eq rfl)

theorem MethodsNamed.addMethod {g : TypeGraph} (hg : g.MethodsNamed) (r : RefId)
    (m : TypeId) : (g.addMethod r m).2.MethodsNamed := by
  unfold TypeGraph.addMethod
  split
  · exact hg
  next data hd => exact hg.modifyNamed fun e he => he.insert hd

theorem MethodsNamed.addMethods {g : TypeGraph} (hg : g.MethodsNamed) (r : RefId)
    (methods : List TypeId) : (g.addMethods r methods).MethodsNamed := by
  induction methods generalizing g with
  | nil => exact hg
  | cons m rest ih => exact ih (hg.addMethod r m)

theorem MethodsNamed.redirect {g : TypeGraph} (hg : g.MethodsNamed) (root target : RefId) :
    (g.redirect root target).MethodsNamed :=
  fun r e h => (hg r e (entryAt?_redirect_named h)).kept (.of_types_eq rfl)

theorem step_preserves_methodsNamed {g : TypeGraph} (hg : g.MethodsNamed) (op : Operation) :
    (g.next op).MethodsNamed := by
  cases op with
  | placeholder package name => exact hg.addRef fun e he => by cases he; rfl
  | fresh package name ty => exact hg.addRef fun e he => by cases he; rfl
  | decorate d inner => exact hg.addRef fun e he => by cases he
  | mapOf package key value =>
    have ht : ∀ data, (g.addType data).2.MethodsNamed := fun data =>
      hg.of_refs_eq rfl (keepsNames_addType g data)
    exact (ht _).addRef fun e he => by cases he; rfl
  | addType data => exact hg.of_refs_eq rfl (keepsNames_addType g data)
  | bind r ty =>
    refine (hg.modifyNamed (f := fun e => { e with type := some ty }) fun e he => he).of_refs_eq rfl
      (keepsNames_modifyType _ ty ?_)
    intro data
    split <;> rfl
  | addMethod r m => exact hg.addMethod r m
  | aliasTo r target =>
    simp only [TypeGraph.next, aliasTo?_eq]
    split
    · exact hg
    · exact (hg.redirect _ target).addMethods target _
  | editStruct ty f =>
    refine hg.of_refs_eq rfl (keepsNames_modifyType g ty ?_)
    intro data
    split <;> rfl
  | editInterface ty f =>
    refine hg.of_refs_eq rfl (keepsNames_modifyType g ty ?_)
    intro data
    split <;> rfl

theorem reachable_methodsNamed {g : TypeGraph} (h : Reachable g) : g.MethodsNamed := by
  induction h with
  | new =>
    intro r e he
    obtain rfl : r = ⟨0⟩ := by
      cases r
      exact congrArg RefId.mk (Nat.lt_one_iff.mp (hasRef_of_entryAt? he))
    obtain rfl := RefEntry.named.inj (Option.some.inj he)
    intro n m hm
    simp at hm
  | next op _ _ ih => exact step_preserves_methodsNamed ih op

end TypeGraph

end GoPackages
