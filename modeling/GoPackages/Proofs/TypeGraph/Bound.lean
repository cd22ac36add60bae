import GoPackages.Proofs.TypeGraph.MethodNames

/-!
# The types that names hold

A name is only ever bound to a type that exists, and types are never removed.
-/
namespace GoPackages.TypeGraph

def BoundExist (g : TypeGraph) : Prop :=
  ∀ x e ty, g.entryAt? x = some (.named e) → e.type = some ty → g.HasType ty

theorem BoundExist.kept {g g' : TypeGraph} (hg : g.BoundExist)
    (he : ∀ x e, g'.entryAt? x = some (.named e) → ∃ y e', g.entryAt? y = some (.named e') ∧
      e'.type = e.type) (ht : g.typeCount ≤ g'.typeCount) : g'.BoundExist := by
  intro x e ty hx hty
  obtain ⟨y, e', hy, hsame⟩ := he x e hx
  exact Nat.lt_of_lt_of_le (hg y e' ty hy (hsame.trans hty)) ht

theorem BoundExist.addRef {g : TypeGraph} (hg : g.BoundExist) {e : RefEntry}
    (he : ∀ entry ty, e = .named entry → entry.type = some ty → g.HasType ty) :
    (g.addRef e).2.BoundExist := by
  intro x entry ty hx hty
  rcases entryAt?_addRef_cases hx with hx | hx
  · exact hg x entry ty hx hty
  · exact he entry ty hx.symm hty

theorem BoundExist.modifyNamed {g : TypeGraph} (hg : g.BoundExist) {r : RefId}
    {f : NamedRef → NamedRef}
    (hf : ∀ e ty, (f e).type = some ty → e.type = some ty ∨ g.HasType ty) :
    (g.modifyNamed r f).BoundExist := by
  intro x e' ty hx hty
  obtain ⟨e, he, rfl | ⟨-, rfl⟩⟩ := entryAt?_modifyNamed_cases hx
  · exact hg x e' ty he hty
  · rcases hf e ty hty with h | h
    · exact hg x e ty he h
    · exact h

theorem BoundExist.addMethod {g : TypeGraph} (hg : g.BoundExist) (r : RefId) (m : TypeId) :
    (g.addMethod r m).2.BoundExist := by
  unfold TypeGraph.addMethod
  split
  · exact hg
  · exact hg.modifyNamed fun e ty h => .inl h

theorem BoundExist.addMethods {g : TypeGraph} (hg : g.BoundExist) (r : RefId)
    (methods : List TypeId) : (g.addMethods r methods).BoundExist := by
  induction methods generalizing g with
  | nil => exact hg
  | cons m rest ih => exact ih (hg.addMethod r m)

theorem BoundExist.redirect {g : TypeGraph} (hg : g.BoundExist) (root target : RefId) :
    (g.redirect root target).BoundExist :=
  hg.kept (fun x e hx => ⟨x, e, entryAt?_redirect_named hx, rfl⟩) (Nat.le_refl _)

theorem step_preserves_boundExist {g : TypeGraph} (hg : g.BoundExist) {op : Operation}
    (he : g.Enabled op) : (g.next op).BoundExist := by
  cases op with
  | placeholder package name =>
    exact hg.addRef fun entry ty h ht => by cases h; cases ht
  | fresh package name t =>
    refine hg.addRef fun entry ty h ht => ?_
    cases h
    cases ht
    exact he
  | decorate d inner => exact hg.addRef fun _ _ h => (by cases h)
  | mapOf package key value =>
    have hadd : ∀ data, (g.addType data).2.BoundExist := fun data =>
      hg.kept (fun x e hx => ⟨x, e, hx, rfl⟩) (by simp)
    refine (hadd _).addRef fun entry ty h ht => ?_
    cases h
    cases ht
    exact hasType_of_typeAt? (typeAt?_addType_self g _)
  | addType data => exact hg.kept (fun x e hx => ⟨x, e, hx, rfl⟩) (by simp [next])
  | bind r ty =>
    have hm : (g.modifyNamed (g.namedRoot r) fun e => { e with type := some ty }).BoundExist :=
      hg.modifyNamed fun e t h => .inr (Option.some.inj h ▸ he.2)
    exact hm.kept (fun x e hx => ⟨x, e, hx, rfl⟩)
      (by simp [next, bind, typeCount, modifyType, modifyNamed])
  | addMethod r m => exact hg.addMethod r m
  | aliasTo r target =>
    simp only [next, aliasTo?_eq]
    split
    · exact hg
    · exact (hg.redirect _ target).addMethods target _
  | editStruct ty f =>
    exact hg.kept (fun x e hx => ⟨x, e, hx, rfl⟩)
      (by simp [next, modifyStruct, modifyType, typeCount])
  | editInterface ty f =>
    exact hg.kept (fun x e hx => ⟨x, e, hx, rfl⟩)
      (by simp [next, modifyInterface, modifyType, typeCount])

theorem reachable_boundExist {g : TypeGraph} (h : Reachable g) : g.BoundExist := by
  induction h with
  | new =>
    intro x e ty hx hty
    have hr : x.index < 1 := hasRef_of_entryAt? hx
    obtain ⟨i⟩ := x
    obtain rfl : i = 0 := Nat.lt_one_iff.mp hr
    cases hx
    cases hty
    exact Nat.zero_lt_one
  | next op _ he ih => exact step_preserves_boundExist ih he

end GoPackages.TypeGraph
