import GoPackages.Proofs.Environment.Covers

/-!
# Ends in a registry

Where a type ends, as far as its items were analyzed, is what the views show of its place. So
two places show the same reference if and only if their types end in the same reference, or
they are of one item.
-/
namespace GoPackages

open Source (TypeExpr Field)

def Terminal.shown? (v : View) (scope : FileScope) (reg : Registry) : Terminal → Option RefId
  | .name n | .site n => (scope.found? reg n).map (v.of reg.graph)
  | .empty => some TypeGraph.emptyInterface

section

variable {scope : FileScope} {base reg : Registry} {items : List Item} {log : List Analyzed}
  {start stop start' stop' : Nat} {type type' : TypeExpr} {r r' x : RefId} {v : View}
  {t t' : Terminal} {n : String}

theorem Lookups.of_found (h : Lookups scope base items reg) (ha : Unaliased items n)
    (hf : scope.found? reg n = some r) (v : View) : v.of reg.graph r = r := by
  cases hb : scope.found? base n with
  | some s =>
    obtain rfl := Option.some.inj (hf.symm.trans (h.kept n s hb))
    obtain ⟨e, he⟩ := h.old r (h.hasRef_known hb)
    exact v.of_named he
  | none =>
    obtain ⟨-, e, he, -⟩ := h.own n r hb ha hf
    exact v.of_named he

theorem Ends.shown_name (he : Ends v items type (.name n)) : Unaliased items n := by
  generalize ht : Terminal.name n = t at he
  induction he with
  | name _ hn =>
    cases ht
    exact hn
  | empty | site => cases ht
  | through _ _ _ ih => exact ih ht

theorem Ends.shown_site (he : Ends v items type (.site n)) :
    ∃ target, (n, target) ∈ aliasesOf items ∧ v.head target = .site := by
  generalize ht : Terminal.site n = t at he
  induction he with
  | site _ hm hsite =>
    cases ht
    exact ⟨_, hm, hsite⟩
  | empty | name => cases ht
  | through _ _ _ ih => exact ih ht

namespace Covers

theorem shown (h : Covers scope base log reg)
    (hplace : Place scope (log.map Analyzed.item) reg start stop type r)
    (he : Ends v (log.map Analyzed.item) type t) :
    t.shown? v scope reg = some (v.of reg.graph r) := by
  induction he generalizing r start stop with
  | name hhead | site hhead =>
    obtain ⟨s, hf, hv⟩ := hplace.name v _ hhead
    rw [Terminal.shown?, hf, hv]
    rfl
  | empty hhead => exact congrArg some (hplace.empty v hhead).symm
  | through hhead hm _ ih =>
    obtain ⟨s, hf, hv⟩ := hplace.name v _ hhead
    obtain ⟨a, -, s', -, hf', hplace'⟩ := h.alias_placed hm
    obtain rfl := Option.some.inj (hf.symm.trans hf')
    rw [hv]
    exact ih hplace'

theorem shown_site (h : Covers scope base log reg)
    (he : Ends v (log.map Analyzed.item) type (.site n))
    (hx : (Terminal.site n).shown? v scope reg = some x) :
    ∃ a ∈ log, ∃ target, a.item.alias? = some (n, target) ∧
      Private scope (log.map Analyzed.item) reg a.start a.stop x := by
  obtain ⟨target, hm, hsite⟩ := he.shown_site
  obtain ⟨a, ha, s, halias, hf, hplace⟩ := h.alias_placed hm
  rw [Terminal.shown?, hf] at hx
  obtain rfl := Option.some.inj hx
  exact ⟨a, ha, target, halias, hplace.site v hsite⟩

theorem shown_name (h : Covers scope base log reg)
    (he : Ends v (log.map Analyzed.item) type (.name n))
    (hx : (Terminal.name n).shown? v scope reg = some x) : scope.found? reg n = some x := by
  obtain ⟨s, hf, rfl⟩ := Option.map_eq_some_iff.mp hx
  rwa [h.lookups.of_found he.shown_name hf v]

theorem not_private (h : Covers scope base log reg)
    (he : Ends v (log.map Analyzed.item) type t) (hx : t.shown? v scope reg = some x)
    {a : Analyzed} (ha : a ∈ log)
    (hp : Private scope (log.map Analyzed.item) reg a.start a.stop x) :
    ∃ n target, t = .site n ∧ a.item.alias? = some (n, target) := by
  cases t with
  | name n => exact absurd (h.shown_name he hx) (hp.unnamed n he.shown_name)
  | empty =>
    obtain rfl := Option.some.inj hx
    have hlow := Nat.le_trans (h.within a ha).1 hp.lower
    exact absurd h.lookups.bottom (Nat.not_lt.mpr hlow)
  | site n =>
    obtain ⟨b, hb, target, halias, hp'⟩ := h.shown_site he hx
    obtain rfl := h.eq_of_private ha hb hp hp'
    exact ⟨n, target, rfl, halias⟩

theorem known_or_own (h : Covers scope base log reg)
    (he : Ends v (log.map Analyzed.item) type t) (hx : t.shown? v scope reg = some x)
    (hsite : ∀ n, t ≠ .site n) : t.known? scope base = some x ∨
      ¬base.graph.HasRef x ∧ ∃ e, reg.graph.entryAt? x = some (.named e) ∧ t = .name e.name := by
  cases t with
  | empty => exact .inl hx
  | site n => exact absurd rfl (hsite n)
  | name n =>
    have hf := h.shown_name he hx
    cases hb : scope.found? base n with
    | some s =>
      obtain rfl := Option.some.inj (hf.symm.trans (h.lookups.kept n s hb))
      exact .inl hb
    | none =>
      obtain ⟨hnew, e, he, hname, -⟩ := h.lookups.own n x hb he.shown_name hf
      exact .inr ⟨hnew, e, he, by rw [hname]⟩

theorem hasRef_known (h : Covers scope base log reg) (hk : t.known? scope base = some x) :
    base.graph.HasRef x := by
  cases t with
  | name n => exact h.lookups.hasRef_known hk
  | empty => exact Option.some.inj hk ▸ h.lookups.bottom
  | site n => cases hk

theorem same_of_shown (h : Covers scope base log reg)
    (he : Ends v (log.map Analyzed.item) type t) (he' : Ends v (log.map Analyzed.item) type' t')
    (hx : t.shown? v scope reg = some x) (hx' : t'.shown? v scope reg = some x) :
    t.Same scope base t' := by
  by_cases hsite : ∃ n, t = .site n
  · obtain ⟨n, rfl⟩ := hsite
    obtain ⟨a, ha, target, halias, hp⟩ := h.shown_site he hx
    obtain ⟨m, target', rfl, halias'⟩ := h.not_private he' hx' ha hp
    obtain ⟨rfl, -⟩ := Prod.mk.inj (Option.some.inj (halias.symm.trans halias'))
    exact .inl rfl
  by_cases hsite' : ∃ n, t' = .site n
  · obtain ⟨n, rfl⟩ := hsite'
    obtain ⟨a, ha, target, -, hp⟩ := h.shown_site he' hx'
    obtain ⟨m, -, rfl, -⟩ := h.not_private he hx ha hp
    exact absurd ⟨m, rfl⟩ hsite
  have hknown := h.known_or_own he hx fun n ht => hsite ⟨n, ht⟩
  have hknown' := h.known_or_own he' hx' fun n ht => hsite' ⟨n, ht⟩
  rcases hknown with hk | ⟨hnew, e, hentry, rfl⟩
  · rcases hknown' with hk' | ⟨hnew', -⟩
    · exact .inr ⟨x, hk, hk'⟩
    · exact absurd (h.hasRef_known hk) hnew'
  · rcases hknown' with hk' | ⟨-, e', hentry', rfl⟩
    · exact absurd (h.hasRef_known hk') hnew
    · obtain rfl : e = e' := by simpa [hentry] using hentry'
      exact .inl rfl

theorem shown_known (h : Covers scope base log reg) (hk : t.known? scope base = some x) :
    t.shown? v scope reg = some x := by
  cases t with
  | name n =>
    obtain ⟨e, he⟩ := h.lookups.old x (h.hasRef_known hk)
    rw [Terminal.shown?, h.lookups.kept n x hk, Option.map_some, v.of_named he]
  | empty => exact hk
  | site n => cases hk

theorem shown_of_same (h : Covers scope base log reg) (hs : t.Same scope base t') :
    t.shown? v scope reg = t'.shown? v scope reg := by
  rcases hs with rfl | ⟨x, hk, hk'⟩
  · rfl
  · exact (h.shown_known hk).trans (h.shown_known hk').symm

/-- Where aliases form no cycle, a type that is not an entry of its own has an end. -/
theorem exists_end (h : Covers scope base log reg)
    (hacyclic : ∀ n, ¬Relation.TransGen (Renaming (log.map Analyzed.item)) n n)
    (hwritten : v.head type ≠ .elsewhere) (hsite : v.head type ≠ .site) :
    ∃ t, Ends v (log.map Analyzed.item) type t := by
  refine exists_ends hacyclic (fun n target hm => ?_) hsite hwritten
  obtain ⟨a, -, s, -, -, hplace⟩ := h.alias_placed hm
  exact hplace.written v

/-- The places of two items that are no aliases show one reference exactly where their types
end in one. -/
theorem of_eq_iff (h : Covers scope base log reg)
    (hacyclic : ∀ n, ¬Relation.TransGen (Renaming (log.map Analyzed.item)) n n)
    {a b : Analyzed} (ha : a ∈ log) (hb : b ∈ log) (hne : a ≠ b)
    (halias : a.item.alias? = none) (halias' : b.item.alias? = none)
    (hplace : Place scope (log.map Analyzed.item) reg a.start a.stop type r)
    (hplace' : Place scope (log.map Analyzed.item) reg b.start b.stop type' r') :
    v.of reg.graph r = v.of reg.graph r' ↔ ∃ t t', Ends v (log.map Analyzed.item) type t ∧
      Ends v (log.map Analyzed.item) type' t' ∧ t.Same scope base t' := by
  constructor
  · intro heq
    have hfree : v.head type ≠ .site := by
      intro hhead
      have hp := hplace.site v hhead
      by_cases hhead' : v.head type' = .site
      · exact hne (h.eq_of_private ha hb hp (heq ▸ hplace'.site v hhead'))
      · obtain ⟨t', he'⟩ := h.exists_end hacyclic (hplace'.written v) hhead'
        obtain ⟨n, target, -, hsome⟩ :=
          h.not_private he' ((h.shown hplace' he').trans (congrArg some heq.symm)) ha hp
        cases halias.symm.trans hsome
    obtain ⟨t, he⟩ := h.exists_end hacyclic (hplace.written v) hfree
    have hfree' : v.head type' ≠ .site := by
      intro hhead'
      obtain ⟨n, target, -, hsome⟩ := h.not_private he
        ((h.shown hplace he).trans (congrArg some heq)) hb (hplace'.site v hhead')
      cases halias'.symm.trans hsome
    obtain ⟨t', he'⟩ := h.exists_end hacyclic (hplace'.written v) hfree'
    refine ⟨t, t', he, he', h.same_of_shown he he' (h.shown hplace he) ?_⟩
    exact (h.shown hplace' he').trans (congrArg some heq.symm)
  · rintro ⟨t, t', he, he', hs⟩
    have hshown := (h.shown hplace he).symm.trans ((h.shown_of_same hs).trans (h.shown hplace' he'))
    exact Option.some.inj hshown

end Covers

end

end GoPackages
