import Mathlib.Data.Finset.Card
import Mathlib.Data.Finset.Filter
import Mathlib.Logic.Relation

/-!
# Ranks of relations without cycles
-/
namespace GoPackages

/-- Along a relation without cycles that starts in a finite set, a rank goes down. -/
theorem exists_rank {α : Type} (R : α → α → Prop) (sources : Finset α)
    (hsource : ∀ a b, R a b → a ∈ sources) (hacyclic : ∀ a, ¬Relation.TransGen R a a) :
    ∃ rank : α → Nat, (∀ a b, R a b → rank b < rank a) ∧ (∀ a, rank a ≤ sources.card) ∧
      ∀ a ∈ sources, 0 < rank a := by
  classical
  refine ⟨fun a => {b ∈ sources | Relation.ReflTransGen R a b}.card, ?_, ?_, ?_⟩
  · intro a b hab
    refine Finset.card_lt_card (Finset.ssubset_iff_of_subset ?_ |>.mpr ⟨a, ?_, ?_⟩)
    · intro c hc
      obtain ⟨hc, hbc⟩ := Finset.mem_filter.mp hc
      exact Finset.mem_filter.mpr ⟨hc, .head hab hbc⟩
    · exact Finset.mem_filter.mpr ⟨hsource a b hab, .refl⟩
    · intro ha
      exact hacyclic a (.head' hab (Finset.mem_filter.mp ha).2)
  · exact fun a => Finset.card_filter_le _ _
  · exact fun a ha => Finset.card_pos.mpr ⟨a, Finset.mem_filter.mpr ⟨ha, .refl⟩⟩

end GoPackages
