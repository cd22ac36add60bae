import GoPackages.Text.Bytes

/-!
# Parts of a text by their positions

A byte range has a text if and only if the text is split at both of its ends. So both ends are
character boundaries, and what is appended later does not change the part.
-/
namespace GoPackages.Text

variable {text s : String} {start stop : Nat}

theorem exists_offset_of_pos? {i : Nat} {p : text.Pos} (h : text.pos? ⟨i⟩ = some p) :
    p.offset.byteIdx = i := by
  simp only [String.pos?, String.Slice.pos?] at h
  split at h
  · obtain rfl := Option.some.inj h
    rfl
  · cases h

theorem slice?_eq_some_iff : slice? text start stop = some s ↔
    ∃ before after, text = before ++ s ++ after ∧ start = before.utf8ByteSize ∧
      stop = before.utf8ByteSize + s.utf8ByteSize := by
  constructor
  · intro h
    obtain ⟨first, hfirst, h⟩ := Option.bind_eq_some_iff.mp h
    obtain ⟨last, hlast, h⟩ := Option.bind_eq_some_iff.mp h
    obtain ⟨part, hpart, rfl⟩ := Option.map_eq_some_iff.mp h
    unfold String.slice? at hpart
    split at hpart
    next hle =>
      obtain rfl := Option.some.inj hpart
      obtain ⟨before, after, hb, ha⟩ := String.copy_slice_eq_iff_splits.mp ⟨hle, rfl⟩
      refine ⟨before, after, ha.eq_append, ?_, ?_⟩
      · rw [← exists_offset_of_pos? hfirst, hb.offset_eq_rawEndPos]
        rfl
      · rw [← exists_offset_of_pos? hlast, ha.offset_eq_rawEndPos, ← String.utf8ByteSize_append]
        rfl
    next => cases hpart
  · rintro ⟨before, after, rfl, rfl, rfl⟩
    exact slice?_append before s after

theorem slice?_append_right (h : slice? text start stop = some s) (more : String) :
    slice? (text ++ more) start stop = some s := by
  obtain ⟨before, after, rfl, rfl, rfl⟩ := slice?_eq_some_iff.mp h
  exact slice?_eq_some_iff.mpr ⟨before, after ++ more, String.append_assoc, rfl, rfl⟩

/-- The range lies inside the text and begins and ends between two characters. -/
structure OnBoundaries (text : String) (start stop : Nat) : Prop where
  ordered : start ≤ stop
  inside : stop ≤ text.utf8ByteSize
  start : String.Pos.Raw.IsValid text ⟨start⟩
  stop : String.Pos.Raw.IsValid text ⟨stop⟩

theorem onBoundaries_of_slice? (h : slice? text start stop = some s) :
    OnBoundaries text start stop := by
  obtain ⟨before, after, rfl, rfl, rfl⟩ := slice?_eq_some_iff.mp h
  refine ⟨Nat.le_add_right _ _, ?_, ?_, ?_⟩
  · rw [String.utf8ByteSize_append, String.utf8ByteSize_append]
    exact Nat.le_add_right _ _
  · exact String.Pos.Raw.isValid_iff_exists_append.mpr
      ⟨before, s ++ after, String.append_assoc, rfl⟩
  · refine String.Pos.Raw.isValid_iff_exists_append.mpr ⟨before ++ s, after, rfl, ?_⟩
    rw [← String.utf8ByteSize_append]
    rfl

end GoPackages.Text
