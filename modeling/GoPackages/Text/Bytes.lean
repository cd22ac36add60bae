/-!
Positions in text, counted in bytes of its UTF-8 form. A byte range of a text is a text only when
both ends are character boundaries inside it.
-/
namespace GoPackages.Text

def byteLength : List Char → Nat
  | [] => 0
  | c :: rest => c.utf8Size + byteLength rest

@[simp] theorem byteLength_append (a b : List Char) :
    byteLength (a ++ b) = byteLength a + byteLength b := by
  induction a with
  | nil => simp [byteLength]
  | cons c rest ih => simp [byteLength, ih, Nat.add_assoc]

/-- The text from byte `start` up to byte `stop`. -/
def slice? (text : String) (start stop : Nat) : Option String := do
  let first ← text.pos? ⟨start⟩
  let last ← text.pos? ⟨stop⟩
  (text.slice? first last).map (·.copy)

theorem exists_pos?_of_eq_append {text a b : String} (h : text = a ++ b) :
    ∃ p, text.pos? ⟨a.utf8ByteSize⟩ = some p ∧ p.Splits a b := by
  subst h
  have hv : String.Pos.Raw.IsValid (a ++ b) ⟨a.utf8ByteSize⟩ :=
    String.Pos.Raw.isValid_iff_exists_append.2 ⟨a, b, rfl, rfl⟩
  have hs := String.Pos.Raw.isValidForSlice_eq_true_iff.2
    (String.Pos.Raw.isValidForSlice_toSlice_iff.2 hv)
  refine ⟨(a ++ b).pos _ hv, ?_, ⟨rfl, rfl⟩⟩
  simp only [String.pos?, String.Slice.pos?, hs, dite_true, Option.map_some]
  rfl

/-- A part of a text is recovered by the byte positions of its ends. -/
theorem slice?_append (a b c : String) :
    slice? (a ++ b ++ c) a.utf8ByteSize (a.utf8ByteSize + b.utf8ByteSize) = some b := by
  obtain ⟨p, hp, hps⟩ := exists_pos?_of_eq_append (String.append_assoc : a ++ b ++ c = _)
  obtain ⟨q, hq, hqs⟩ := exists_pos?_of_eq_append (rfl : a ++ b ++ c = (a ++ b) ++ c)
  obtain ⟨hle, hc⟩ := String.copy_slice_eq_iff_splits.2 ⟨a, c, hps, hqs⟩
  rw [String.utf8ByteSize_append] at hq
  simp only [slice?, hp, hq, String.slice?, hle, dite_true, hc, Option.bind_eq_bind,
    Option.bind_some, Option.map_some]

example : slice? "aéb" 1 3 = some "é" := by decide

end GoPackages.Text
