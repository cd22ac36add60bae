import GoPackages.TypeGraph.Binding
import Mathlib.Data.Fintype.Card
import Mathlib.Logic.Relation

/-!
# Paths from references to names

A path follows decorators and aliases down to a named entry. It is a relation without
a bound on its length; the functions that read a reference walk at most as far as there
are entries. Where a path exists both agree, since no path visits an entry twice.
-/
namespace GoPackages.TypeGraph

def HasRef (g : TypeGraph) (r : RefId) : Prop := r.index < g.refCount
def HasType (g : TypeGraph) (ty : TypeId) : Prop := ty.index < g.typeCount

instance (g : TypeGraph) (r : RefId) : Decidable (g.HasRef r) :=
  inferInstanceAs (Decidable (_ < _))
instance (g : TypeGraph) (ty : TypeId) : Decidable (g.HasType ty) :=
  inferInstanceAs (Decidable (_ < _))

theorem hasRef_of_entryAt? {g : TypeGraph} {r e} (h : g.entryAt? r = some e) : g.HasRef r := by
  obtain ⟨hr, _⟩ := Array.getElem?_eq_some_iff.mp h
  exact hr

theorem HasRef.entry {g : TypeGraph} {r} (h : g.HasRef r) : ∃ e, g.entryAt? r = some e :=
  ⟨_, Array.getElem?_eq_getElem h⟩

theorem hasType_of_typeAt? {g : TypeGraph} {ty data} (h : g.typeAt? ty = some data) :
    g.HasType ty := by
  obtain ⟨ht, _⟩ := Array.getElem?_eq_some_iff.mp h
  exact ht

theorem HasType.data {g : TypeGraph} {ty} (h : g.HasType ty) :
    ∃ data, g.typeAt? ty = some data :=
  ⟨_, Array.getElem?_eq_getElem h⟩

/-- A decorator leads to what it wraps, an alias to its target. -/
def Leads (g : TypeGraph) (r s : RefId) : Prop :=
  (g.entryAt? r).bind RefEntry.inner? = some s

/-- The walk without a bound: it goes on as long as `next?` gives a step. -/
inductive Walk (g : TypeGraph) (next? : RefEntry → Option RefId) : RefId → RefId → Prop where
  | stop {r e} : g.entryAt? r = some e → next? e = none → Walk g next? r r
  | step {r s t e} : g.entryAt? r = some e → next? e = some s → Walk g next? s t →
      Walk g next? r t

/-- The decorators met one after the other, aliases followed before each of them. -/
inductive Unwraps (g : TypeGraph) : RefId → List Decorator → Prop where
  | stop {r} : g.decorator? r = none → Unwraps g r []
  | step {r d inner ds} : g.decorator? r = some (d, inner) → Unwraps g inner ds →
      Unwraps g r (d :: ds)

/-- A path of `k` edges from `r` to the named entry `root` across the decorators `ds`. -/
inductive Path (g : TypeGraph) (root : RefId) : Nat → RefId → List Decorator → Prop where
  | named {e} : g.entryAt? root = some (.named e) → Path g root 0 root []
  | decorated {k r d inner ds} : g.entryAt? r = some (.decorated d inner) →
      Path g root k inner ds → Path g root (k + 1) r (d :: ds)
  | aliased {k r target ds} : g.entryAt? r = some (.aliasOf target) →
      Path g root k target ds → Path g root (k + 1) r ds

namespace Path

variable {g : TypeGraph} {root r : RefId} {k : Nat} {ds : List Decorator}

theorem root_named (h : Path g root k r ds) : ∃ e, g.entryAt? root = some (.named e) := by
  induction h with
  | named h => exact ⟨_, h⟩
  | decorated _ _ ih => exact ih
  | aliased _ _ ih => exact ih

theorem hasRef (h : Path g root k r ds) : g.HasRef r := by
  cases h with
  | named h => exact hasRef_of_entryAt? h
  | decorated h _ => exact hasRef_of_entryAt? h
  | aliased h _ => exact hasRef_of_entryAt? h

/-- The entry of a reference determines its path. -/
theorem unique (h : Path g root k r ds) {root' k' ds'} (h' : Path g root' k' r ds') :
    root = root' ∧ k = k' ∧ ds = ds' := by
  induction h generalizing root' k' ds' with
  | named he =>
    cases h' with
    | named _ => exact ⟨rfl, rfl, rfl⟩
    | decorated he' _ => simp [he] at he'
    | aliased he' _ => simp [he] at he'
  | decorated he _ ih =>
    cases h' with
    | named he' => simp [he] at he'
    | decorated he' hp =>
      obtain ⟨rfl, rfl⟩ : _ = _ ∧ _ = _ := by simpa [he] using he'
      obtain ⟨h₁, h₂, h₃⟩ := ih hp
      exact ⟨h₁, by omega, by rw [h₃]⟩
    | aliased he' _ => simp [he] at he'
  | aliased he _ ih =>
    cases h' with
    | named he' => simp [he] at he'
    | decorated he' _ => simp [he] at he'
    | aliased he' hp =>
      obtain rfl : _ = _ := by simpa [he] using he'
      obtain ⟨h₁, h₂, h₃⟩ := ih hp
      exact ⟨h₁, by omega, h₃⟩

theorem edge_induction {motive : ∀ k r ds, Path g root k r ds → Prop}
    (named : ∀ e (he : g.entryAt? root = some (.named e)), motive 0 root [] (.named he))
    (edge : ∀ {k r s ds ds' e} (_ : g.entryAt? r = some e) (_ : e.inner? = some s)
      (hp : Path g root k s ds) (hp' : Path g root (k + 1) r ds'),
      motive k s ds hp → motive (k + 1) r ds' hp')
    {k r ds} (h : Path g root k r ds) : motive k r ds h := by
  induction h with
  | named he => exact named _ he
  | decorated he hp ih => exact edge he rfl hp _ ih
  | aliased he hp ih => exact edge he rfl hp _ ih

theorem exists_of_le (h : Path g root k r ds) : ∀ j ≤ k, ∃ s ds', Path g root j s ds' := by
  induction h using edge_induction with
  | named e he =>
    intro j hj
    obtain rfl : j = 0 := by omega
    exact ⟨root, [], .named he⟩
  | @edge k r s _ _ e he hi _ hp ih =>
    intro j hj
    by_cases hk : j ≤ k
    · exact ih j hk
    · obtain rfl : j = k + 1 := by omega
      exact ⟨r, _, hp⟩

/-- The entries on a path are distinct, as their distances from the name differ. -/
theorem length_lt (h : Path g root k r ds) : k < g.refCount := by
  choose s ds' hs using h.exists_of_le
  let f : Fin (k + 1) → Fin g.refCount := fun j =>
    ⟨(s j (by omega)).index, (hs j (by omega)).hasRef⟩
  have hf : Function.Injective f := by
    intro i j hij
    have hi := hs i (by omega)
    have hj := hs j (by omega)
    have he : s i (by omega) = s j (by omega) := by
      have := congrArg Fin.val hij
      cases hsi : s i (by omega)
      cases hsj : s j (by omega)
      simp_all [f]
    rw [he] at hi
    exact Fin.ext (hi.unique hj).2.1
  have hcard := Fintype.card_le_of_injective f hf
  simp only [Fintype.card_fin] at hcard
  omega

/-- Steps beyond the end of a path are not taken. This holds of every walk along some
of the edges, such as those of aliases alone. -/
theorem follow_eq {next? : RefEntry → Option RefId}
    (hn : ∀ e s, next? e = some s → e.inner? = some s) (h : Path g root k r ds) :
    ∀ n, k ≤ n → g.follow next? n r = g.follow next? k r := by
  induction h using edge_induction with
  | named e he =>
    intro n _
    have hnone : (g.entryAt? root).bind next? = none := by
      cases hs : next? (.named e) with
      | none => simp [he, hs]
      | some s => exact absurd (hn _ _ hs) (by simp [RefEntry.inner?])
    rw [follow_of_none hnone, follow_of_none hnone]
  | @edge k r s _ _ e he hi _ hp ih =>
    intro n hk
    obtain ⟨n, rfl⟩ : ∃ j, n = j + 1 := ⟨n - 1, by omega⟩
    cases hs : next? e with
    | none =>
      have hnone : (g.entryAt? r).bind next? = none := by simp [he, hs]
      rw [follow_of_none hnone, follow_of_none hnone]
    | some t =>
      obtain rfl : s = t := Option.some.inj (hi.symm.trans (hn e t hs))
      have hsome : (g.entryAt? r).bind next? = some s := by simp [he, hs]
      rw [follow_succ_of_some hsome, follow_succ_of_some hsome]
      exact ih n (by omega)

theorem walk_follow {next? : RefEntry → Option RefId}
    (hn : ∀ e s, next? e = some s → e.inner? = some s) (h : Path g root k r ds) :
    Walk g next? r (g.follow next? k r) := by
  induction h using edge_induction with
  | named e he =>
    refine .stop he ?_
    cases hs : next? (.named e) with
    | none => rfl
    | some s => exact absurd (hn _ _ hs) (by simp [RefEntry.inner?])
  | @edge k r s _ _ e he hi _ hp ih =>
    cases hs : next? e with
    | none =>
      rw [follow_of_none (by simp [he, hs])]
      exact .stop he hs
    | some t =>
      obtain rfl : s = t := Option.some.inj (hi.symm.trans (hn e t hs))
      have hsome : (g.entryAt? r).bind next? = some s := by simp [he, hs]
      rw [follow_succ_of_some hsome]
      exact .step he hs ih

theorem follow_refCount {next? : RefEntry → Option RefId}
    (hn : ∀ e s, next? e = some s → e.inner? = some s) (h : Path g root k r ds) :
    g.follow next? g.refs.size r = g.follow next? k r :=
  h.follow_eq hn _ (Nat.le_of_lt h.length_lt)

theorem namedRoot_eq (h : Path g root k r ds) : g.namedRoot r = root := by
  rw [namedRoot, h.follow_refCount fun _ _ hs => hs]
  induction h using edge_induction with
  | named e he => rfl
  | @edge k r s _ _ e he hi _ _ ih =>
    have hsome : (g.entryAt? r).bind RefEntry.inner? = some s := by simp [he, hi]
    rw [follow_succ_of_some hsome, ih]

theorem alias_inner (e : RefEntry) (s : RefId) (h : e.aliasTarget? = some s) :
    e.inner? = some s := by
  cases e <;> simp_all [RefEntry.aliasTarget?, RefEntry.inner?]

theorem canonical_aliased {target} (h : Path g root k target ds)
    (he : g.entryAt? r = some (.aliasOf target)) : g.canonical r = g.canonical target := by
  rw [canonical, canonical, (Path.aliased he h).follow_refCount alias_inner,
    h.follow_refCount alias_inner]
  exact follow_succ_of_some (by simp [he, RefEntry.aliasTarget?]) k

theorem decoratorsWithin_eq (h : Path g root k r ds) :
    ∀ n, k ≤ n → g.decoratorsWithin n r = ds := by
  induction h with
  | named he =>
    intro n _
    cases n <;> simp [decoratorsWithin, he]
  | decorated he _ ih =>
    intro n hk
    obtain ⟨n, rfl⟩ : ∃ j, n = j + 1 := ⟨n - 1, by omega⟩
    simp only [decoratorsWithin, he, ih n (by omega)]
  | aliased he _ ih =>
    intro n hk
    obtain ⟨n, rfl⟩ : ∃ j, n = j + 1 := ⟨n - 1, by omega⟩
    simp only [decoratorsWithin, he, ih n (by omega)]

theorem decorators_eq (h : Path g root k r ds) : g.decorators r = ds :=
  h.decoratorsWithin_eq _ (Nat.le_of_lt h.length_lt)

end Path

theorem canonical_of_named {g : TypeGraph} {r e} (h : g.entryAt? r = some (.named e)) :
    g.canonical r = r :=
  follow_of_none (by simp [h, RefEntry.aliasTarget?]) _

theorem canonical_of_decorated {g : TypeGraph} {r d inner}
    (h : g.entryAt? r = some (.decorated d inner)) : g.canonical r = r :=
  follow_of_none (by simp [h, RefEntry.aliasTarget?]) _

theorem Path.unwraps {g : TypeGraph} {root k r ds} (h : Path g root k r ds) :
    Unwraps g r ds := by
  induction h with
  | named he => exact .stop (by simp [decorator?, canonical_of_named he, he])
  | decorated he _ ih => exact .step (by simp [decorator?, canonical_of_decorated he, he]) ih
  | @aliased k r target ds he hp ih =>
    have hd : g.decorator? r = g.decorator? target := by
      rw [decorator?, decorator?, hp.canonical_aliased he]
    cases ih with
    | stop hs => exact .stop (hd.trans hs)
    | step hs hu => exact .step (hd.trans hs) hu

/-- Every reference leads to a name. -/
def Grounded (g : TypeGraph) : Prop := ∀ r, g.HasRef r → ∃ root k ds, Path g root k r ds

theorem Path.of_leads {g : TypeGraph} {root k r ds s} (h : Path g root k r ds)
    (hs : g.Leads r s) : ∃ j ds', j < k ∧ Path g root j s ds' := by
  cases h with
  | named he => simp [Leads, he, RefEntry.inner?] at hs
  | decorated he hp =>
    obtain rfl : _ = s := by simpa [Leads, he, RefEntry.inner?] using hs
    exact ⟨_, _, Nat.lt_succ_self _, hp⟩
  | aliased he hp =>
    obtain rfl : _ = s := by simpa [Leads, he, RefEntry.inner?] using hs
    exact ⟨_, _, Nat.lt_succ_self _, hp⟩

theorem Path.of_transGen {g : TypeGraph} {root k r ds s} (h : Path g root k r ds)
    (hs : Relation.TransGen g.Leads r s) : ∃ j ds', j < k ∧ Path g root j s ds' := by
  induction hs with
  | single hs => exact h.of_leads hs
  | tail _ hs ih =>
    obtain ⟨j, ds', hj, hp⟩ := ih
    obtain ⟨i, ds'', hi, hp⟩ := hp.of_leads hs
    exact ⟨i, ds'', by omega, hp⟩

theorem hasRef_of_leads {g : TypeGraph} {r s} (h : g.Leads r s) : g.HasRef r := by
  cases he : g.entryAt? r with
  | none => simp [Leads, he] at h
  | some e => exact hasRef_of_entryAt? he

theorem Grounded.acyclic {g : TypeGraph} (hg : g.Grounded) (r : RefId) :
    ¬Relation.TransGen g.Leads r r := by
  intro hc
  have hr : g.HasRef r := by
    cases Relation.TransGen.head'_iff.mp hc with
    | intro s hs => exact hasRef_of_leads hs.1
  obtain ⟨root, k, ds, hp⟩ := hg r hr
  obtain ⟨j, ds', hj, hp'⟩ := hp.of_transGen hc
  have := (hp.unique hp').2.1
  omega

end GoPackages.TypeGraph
