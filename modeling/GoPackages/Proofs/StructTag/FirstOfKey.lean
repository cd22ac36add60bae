import GoPackages.Analysis.TypeRef

/-!
# The first parameter of each key

The tag of a field keeps its text without the delimiters and, of the parameters that the decoder
gave for it, the first one of every key, in their order. Without text the decoder is not asked.
-/
namespace GoPackages

namespace Tag

theorem foldl_push (raw : String) (kept params : List TagParam) :
    params.foldl push ⟨raw, kept⟩ =
      ⟨raw, List.eraseDupsBy.loop (·.name == ·.name) params kept.reverse⟩ := by
  induction params generalizing kept with
  | nil => simp [List.eraseDupsBy.loop]
  | cons p rest ih =>
    have hany : kept.reverse.any (p.name == ·.name) = (Tag.param? ⟨raw, kept⟩ p.name).isSome := by
      have hsymm : ∀ q : TagParam, (p.name == q.name) = (q.name == p.name) := fun q => Bool.beq_comm
      simp only [List.any_reverse, param?, hsymm, List.isSome_find?]
    rw [List.foldl_cons, List.eraseDupsBy.loop, hany, push, push?]
    cases hfound : Tag.param? ⟨raw, kept⟩ p.name with
    | some q => exact ih kept
    | none =>
      have hkept := ih (kept ++ [p])
      rw [List.reverse_append] at hkept
      exact hkept

theorem read_of_ne {decoder : TagDecoder} {raw : String} (h : raw ≠ "") :
    Tag.read decoder raw = (decoder raw).map fun params =>
      ⟨raw, params.eraseDupsBy (·.name == ·.name)⟩ := by
  have hraw : raw.isEmpty = false := by simpa using h
  simp only [Tag.read, hraw, foldl_push]
  rfl

end Tag

inductive TagRead (scope : FileScope) : Option String → Tag → Prop where
  | absent : TagRead scope none { raw := "" }
  | blank {literal : String} : Source.literalValue literal = "" →
      TagRead scope (some literal) { raw := "" }
  | decoded {literal raw : String} {params : List TagParam} :
      Source.literalValue literal = raw → raw ≠ "" → scope.decodeTag raw = .ok params →
      TagRead scope (some literal) { raw, params := params.eraseDupsBy (·.name == ·.name) }

inductive TagFails (scope : FileScope) : Option String → Error → Prop where
  | refused {literal raw : String} {cause : TagError} :
      Source.literalValue literal = raw → raw ≠ "" → scope.decodeTag raw = .error cause →
      TagFails scope (some literal) (.tag raw cause)

theorem readTag_reads_or_refuses (scope : FileScope) (tag : Option String) (reg : Registry) :
    (∃ t, TagRead scope tag t ∧ scope.readTag tag reg = .ok t reg) ∨
    ∃ e, TagFails scope tag e ∧ scope.readTag tag reg = .error e reg := by
  cases tag with
  | none => exact .inl ⟨_, .absent, rfl⟩
  | some literal =>
    unfold FileScope.readTag
    dsimp only
    by_cases hblank : Source.literalValue literal = ""
    · rw [hblank]
      exact .inl ⟨_, .blank hblank, rfl⟩
    · rw [Tag.read_of_ne hblank]
      cases hdecode : scope.decodeTag (Source.literalValue literal) with
      | ok params => exact .inl ⟨_, .decoded rfl hblank hdecode, rfl⟩
      | error cause => exact .inr ⟨_, .refused rfl hblank hdecode, rfl⟩

end GoPackages
