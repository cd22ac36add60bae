import GoPackages.Environment.Basic

/-!
# What holds after a step

A step of analysis keeps the state that it reached also when it fails, so what holds after
it has two parts: one for its answer and one for the state that a failure leaves behind.
-/
namespace GoPackages

def After {ε σ α : Type} (m : EStateM ε σ α) (s : σ) (post : α → σ → Prop)
    (failed : σ → Prop) : Prop :=
  match m s with
  | .ok a s' => post a s'
  | .error _ s' => failed s'

section Rules

variable {ε σ α β : Type} {s : σ} {post : α → σ → Prop} {failed : σ → Prop}

@[simp] theorem after_pure (a : α) :
    After (pure a : EStateM ε σ α) s post failed ↔ post a s := Iff.rfl

@[simp] theorem after_throw (e : ε) :
    After (throw e : EStateM ε σ α) s post failed ↔ failed s := Iff.rfl

@[simp] theorem after_get {post : σ → σ → Prop} :
    After (get : EStateM ε σ σ) s post failed ↔ post s s := Iff.rfl

@[simp] theorem after_set {post : PUnit → σ → Prop} (s' : σ) :
    After (set s' : EStateM ε σ PUnit) s post failed ↔ post ⟨⟩ s' := Iff.rfl

@[simp] theorem after_modify {post : PUnit → σ → Prop} (f : σ → σ) :
    After (modify f : EStateM ε σ PUnit) s post failed ↔ post ⟨⟩ (f s) := Iff.rfl

@[simp] theorem after_modifyGet (f : σ → α × σ) :
    After (modifyGet f : EStateM ε σ α) s post failed ↔ post (f s).1 (f s).2 := Iff.rfl

@[simp] theorem after_bind (m : EStateM ε σ β) (f : β → EStateM ε σ α) :
    After (m >>= f) s post failed ↔
      After m s (fun b s' => After (f b) s' post failed) failed := by
  simp only [After, bind, EStateM.bind]
  cases m s <;> rfl

@[simp] theorem after_map (m : EStateM ε σ β) (f : β → α) :
    After (f <$> m) s post failed ↔ After m s (fun b s' => post (f b) s') failed := by
  simp only [After, Functor.map, EStateM.map]
  cases m s <;> rfl

theorem After.mono {m : EStateM ε σ α} (h : After m s post failed)
    {post' : α → σ → Prop} {failed' : σ → Prop} (hpost : ∀ a s', post a s' → post' a s')
    (hfailed : ∀ s', failed s' → failed' s') : After m s post' failed' := by
  unfold After at h ⊢
  cases hm : m s with
  | ok a s' => rw [hm] at h; exact hpost a s' h
  | error e s' => rw [hm] at h; exact hfailed s' h

theorem After.and {m : EStateM ε σ α} (h : After m s post failed) {post' : α → σ → Prop}
    {failed' : σ → Prop} (h' : After m s post' failed') :
    After m s (fun a s' => post a s' ∧ post' a s') (fun s' => failed s' ∧ failed' s') := by
  unfold After at h h' ⊢
  cases hm : m s with
  | ok a s' => rw [hm] at h h'; exact ⟨h, h'⟩
  | error e s' => rw [hm] at h h'; exact ⟨h, h'⟩

/-- The rule of sequence: what fails first has failed for good. -/
theorem After.bind {m : EStateM ε σ β} {f : β → EStateM ε σ α} {mid : β → σ → Prop}
    {failed' : σ → Prop} (h : After m s mid failed')
    (hf : ∀ b s', mid b s' → After (f b) s' post failed)
    (hfailed : ∀ s', failed' s' → failed s') : After (m >>= f) s post failed :=
  (after_bind m f).mpr (h.mono hf hfailed)

def stateAfter (m : EStateM ε σ α) (s : σ) : σ :=
  match m s with
  | .ok _ s' => s'
  | .error _ s' => s'

theorem After.stateAfter {m : EStateM ε σ α} (h : After m s post failed) {P : σ → Prop}
    (hpost : ∀ a s', post a s' → P s') (hfailed : ∀ s', failed s' → P s') :
    P (stateAfter m s) := by
  unfold After at h
  unfold GoPackages.stateAfter
  cases hm : m s with
  | ok a s' => rw [hm] at h; exact hpost a s' h
  | error e s' => rw [hm] at h; exact hfailed s' h

theorem After.anyhow {m : EStateM ε σ α} {P : σ → Prop} (h : After m s (fun _ => P) P) :
    P (GoPackages.stateAfter m s) :=
  h.stateAfter (fun _ _ hdone => hdone) fun _ hfailed => hfailed

theorem stateAfter_of_ok {m : EStateM ε σ α} {a s'} (h : m s = .ok a s') :
    stateAfter m s = s' := by
  rw [stateAfter, h]

theorem stateAfter_of_error {m : EStateM ε σ α} {e s'} (h : m s = .error e s') :
    stateAfter m s = s' := by
  rw [stateAfter, h]

instance (m : EStateM ε σ α) [∀ a s', Decidable (post a s')] [∀ s', Decidable (failed s')] :
    Decidable (After m s post failed) :=
  match h : m s with
  | .ok a s' => decidable_of_iff (post a s') (by rw [After, h])
  | .error _ s' => decidable_of_iff (failed s') (by rw [After, h])

theorem eq_ok_stateAfter {m : EStateM ε σ α} {a : α}
    (h : After m s (fun b _ => b = a) fun _ => False) : m s = .ok a (stateAfter m s) := by
  unfold After at h
  unfold GoPackages.stateAfter
  cases hm : m s with
  | ok b s' => rw [hm] at h; exact congrArg (EStateM.Result.ok · s') h
  | error e s' => rw [hm] at h; exact h.elim

theorem eq_error_stateAfter {m : EStateM ε σ α} {e : ε}
    (h : (match m s with | .ok _ _ => none | .error e' _ => some e') = some e) :
    m s = .error e (stateAfter m s) := by
  unfold GoPackages.stateAfter
  cases hm : m s with
  | ok a s' => rw [hm] at h; cases h
  | error e' s' => rw [hm] at h; cases h; rfl

theorem After.of_ok {m : EStateM ε σ α} (h : After m s post failed) {a s'}
    (hm : m s = .ok a s') : post a s' := by
  rw [After, hm] at h
  exact h

theorem bind_ok {m : EStateM ε σ β} {f : β → EStateM ε σ α} {a s'}
    (h : (m >>= f) s = .ok a s') : ∃ b mid, m s = .ok b mid ∧ f b mid = .ok a s' := by
  simp only [bind, EStateM.bind] at h
  cases hm : m s with
  | ok b mid => rw [hm] at h; exact ⟨b, mid, rfl, h⟩
  | error e mid => rw [hm] at h; cases h

theorem bind_eq_of_ok {m : EStateM ε σ β} {f : β → EStateM ε σ α} {b s'} (h : m s = .ok b s') :
    (m >>= f) s = f b s' := by
  simp only [bind, EStateM.bind, h]

theorem bind_eq_of_error {m : EStateM ε σ β} {f : β → EStateM ε σ α} {e s'}
    (h : m s = .error e s') : (m >>= f) s = .error e s' := by
  simp only [bind, EStateM.bind, h]

theorem discard_ok {m : EStateM ε σ α} {s'} (h : discard m s = .ok () s') :
    ∃ a, m s = .ok a s' := by
  simp only [discard, Functor.discard, Functor.mapConst, EStateM.map, Function.comp_apply] at h
  cases hm : m s with
  | ok a mid => rw [hm] at h; cases h; exact ⟨a, rfl⟩
  | error e mid => rw [hm] at h; cases h

theorem After.exists_ok {m : EStateM ε σ α} (h : After m s (fun _ _ => True) fun _ => False) :
    ∃ a s', m s = .ok a s' := by
  unfold After at h
  cases hm : m s with
  | ok a s' => exact ⟨a, s', rfl⟩
  | error e s' => rw [hm] at h; exact h.elim

theorem After.of_error {m : EStateM ε σ α} (h : After m s post failed) {e s'}
    (hm : m s = .error e s') : failed s' := by
  rw [After, hm] at h
  exact h

end Rules

end GoPackages
