import GoPackages.Proofs.StructTag.Acceptance

/-!
# Writing tags

A list of parameters is written as a tag: each pair with its key as it is and its value and
options behind one another in quotes. The written tag is one of the texts of the grammar, so
decoding gives the list back.
-/
namespace GoPackages

namespace Text

def escape (cs : List Char) : List Char :=
  cs.flatMap fun c => if c = '\\' ∨ c = '"' then ['\\', c] else [c]

def quote (cs : List Char) : List Char := '"' :: (escape cs ++ ['"'])

theorem escape_cons (c : Char) (cs : List Char) :
    escape (c :: cs) = (if c = '\\' ∨ c = '"' then ['\\', c] else [c]) ++ escape cs := rfl

theorem escape_append (cs ds : List Char) : escape (cs ++ ds) = escape cs ++ escape ds :=
  List.flatMap_append

theorem sublist_escape (cs : List Char) : cs.Sublist (escape cs) := by
  induction cs with
  | nil => exact .slnil
  | cons c cs ih =>
    rw [escape_cons]
    split
    · exact .cons _ (ih.cons_cons c)
    · exact ih.cons_cons c

theorem escape_eq_self_iff {cs : List Char} : escape cs = cs ↔ '"' ∉ cs ∧ '\\' ∉ cs := by
  induction cs with
  | nil => simp [escape]
  | cons c cs ih =>
    rw [escape_cons]
    by_cases hc : c = '\\' ∨ c = '"'
    · rw [if_pos hc]
      constructor
      · intro h
        have hlength := congrArg List.length h
        have hle := (sublist_escape cs).length_le
        simp only [List.cons_append, List.nil_append, List.length_cons] at hlength
        omega
      · rintro ⟨hquote, hbackslash⟩
        rcases hc with rfl | rfl
        · exact absurd List.mem_cons_self hbackslash
        · exact absurd List.mem_cons_self hquote
    · rw [if_neg hc]
      obtain ⟨hb, hq⟩ := not_or.mp hc
      simp [ih, Ne.symm hb, Ne.symm hq]

theorem escape_spaces (n : Nat) : escape (StructTag.spaces n) = StructTag.spaces n := by
  rw [escape_eq_self_iff]
  simp [StructTag.spaces]

end Text

namespace StructTag

/-- What can be said in a tag: the name is a key, and no comma divides the value or an option. -/
structure Writable (param : TagParam) : Prop where
  name_ne : param.name ≠ ""
  name_chars : ∀ c ∈ param.name.toList, IsKeyChar c
  no_comma : ∀ piece ∈ param.value :: param.options, ',' ∉ piece.toList

def writeParam (param : TagParam) : List Char :=
  param.name.toList ++
    ':' :: Text.quote ([','].intercalate ((param.value :: param.options).map String.toList))

def writeTag (params : List (Nat × TagParam)) (trailing : Nat) : String :=
  String.ofList (params.flatMap (fun p => spaces p.1 ++ writeParam p.2) ++ spaces trailing)

def Item.ofChar (c : Char) : Item :=
  if hb : c = '\\' then .letter '\\' '\\' backslash_mem_letterEscapes
  else if hq : c = '"' then .letter '"' '"' quote_mem_letterEscapes
  else .plain c ⟨hb, hq⟩

theorem Item.char_ofChar (c : Char) : (ofChar c).char = c := by
  unfold ofChar
  split
  next h => exact h.symm
  · split
    next h => exact h.symm
    · rfl

theorem Item.written_ofChar (c : Char) :
    (ofChar c).written = if c = '\\' ∨ c = '"' then ['\\', c] else [c] := by
  unfold ofChar
  by_cases hb : c = '\\'
  · simp [hb, written]
  by_cases hq : c = '"'
  · simp [hq, written]
  · simp [hb, hq, written]

theorem items_written (cs : List Char) :
    (cs.map Item.ofChar).flatMap Item.written = Text.escape cs := by
  rw [List.flatMap_map, Text.escape]
  exact congrArg (cs.flatMap ·) (funext Item.written_ofChar)

theorem items_char (cs : List Char) : (cs.map Item.ofChar).map Item.char = cs := by
  rw [List.map_map]
  exact (List.map_congr_left fun c _ => Item.char_ofChar c).trans (List.map_id cs)

theorem Writable.exists_pair {param : TagParam} (h : Writable param) :
    ∃ p : Pair, p.written = writeParam param ∧ p.Gives param := by
  let text := [','].intercalate ((param.value :: param.options).map String.toList)
  let p : Pair := {
    key := param.name.toList
    key_ne_nil := fun hnil => h.name_ne (String.toList_eq_nil_iff.mp hnil)
    key_chars := h.name_chars
    body := text.map Item.ofChar }
  refine ⟨p, ?_, rfl, h.no_comma, ?_⟩
  · rw [Pair.written, items_written]
    rfl
  · rw [Pair.text, items_char]

theorem exists_layout {params : List (Nat × TagParam)} (h : ∀ p ∈ params, Writable p.2)
    (trailing : Nat) :
    ∃ pairs, (Layout.mk pairs trailing).written = (writeTag params trailing).toList ∧
      List.Forall₂ (fun p param => p.2.Gives param) pairs (params.map Prod.snd) := by
  simp only [writeTag, String.toList_ofList]
  induction params with
  | nil => exact ⟨[], rfl, .nil⟩
  | cons param params ih =>
    obtain ⟨p, hp, hgives⟩ := (h param List.mem_cons_self).exists_pair
    obtain ⟨pairs, hpairs, hall⟩ := ih fun q hq => h q (List.mem_cons_of_mem _ hq)
    refine ⟨(param.1, p) :: pairs, ?_, .cons hgives hall⟩
    rw [Layout.written_cons, hp, hpairs]
    simp

/-- Writing parameters and reading the tag gives the same parameters, all of them and in order,
whatever the spaces between them. -/
theorem decode_writeTag (params : List (Nat × TagParam)) (trailing : Nat)
    (h : ∀ p ∈ params, Writable p.2) :
    decode (writeTag params trailing) = .ok (params.map Prod.snd) := by
  obtain ⟨pairs, hwritten, hgives⟩ := exists_layout h trailing
  rw [decode, ← hwritten]
  exact decodeFrom_written hgives trailing 0

/-- A repeated name, an empty value, options that are empty or end in a backslash, and a quote
behind a backslash. -/
def repeated : List (Nat × TagParam) :=
  [(2, ⟨"kä", "é\\\"", ["", "\\"]⟩), (0, ⟨"kä", "", []⟩), (1, ⟨"\\", "\\\\", []⟩)]

theorem decode_writeTag_repeated :
    writeTag repeated 1 = "  kä:\"é\\\\\\\",,\\\\\"kä:\"\" \\:\"\\\\\\\\\" " ∧
    decode (writeTag repeated 1) = .ok (repeated.map Prod.snd) := by
  refine ⟨by decide, decode_writeTag repeated 1 ?_⟩
  intro p hp
  have hcases : p = (2, ⟨"kä", "é\\\"", ["", "\\"]⟩) ∨ p = (0, ⟨"kä", "", []⟩) ∨
      p = (1, ⟨"\\", "\\\\", []⟩) := by simpa [repeated] using hp
  rcases hcases with rfl | rfl | rfl
  · exact ⟨by decide, by simp [IsKeyChar], by simp⟩
  · exact ⟨by decide, by simp [IsKeyChar], by simp⟩
  · exact ⟨by decide, by simp [IsKeyChar], by simp⟩

end StructTag

end GoPackages
