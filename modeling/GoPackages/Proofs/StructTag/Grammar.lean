import GoPackages.StructTag.Decode
import Mathlib.Data.Nat.Digits.Lemmas

/-!
# The grammar of struct tags

A tag is a sequence of pairs with spaces around them, a pair is a key, a colon and a quoted
body, and a body is a sequence of characters and escapes. The types below hold the well-formed
texts and no others, each with what it stands for. They do not mention how a tag is read.
-/
namespace GoPackages.StructTag

def letterEscapes : List (Char × Char) :=
  [('n', '\n'), ('t', '\t'), ('r', '\r'), ('a', '\x07'), ('b', '\x08'), ('f', '\x0c'),
    ('v', '\x0b'), ('\\', '\\'), ('"', '"')]

theorem backslash_mem_letterEscapes : ('\\', '\\') ∈ letterEscapes := by decide

theorem quote_mem_letterEscapes : ('"', '"') ∈ letterEscapes := by decide

def numericEscapes : List (Char × Nat) := [('x', 2), ('u', 4), ('U', 8)]

def IsHexDigit (c : Char) (d : Nat) : Prop :=
  d < 16 ∧ (c = d.digitChar ∨ c = d.digitChar.toUpper)

instance (c : Char) (d : Nat) : Decidable (IsHexDigit c d) :=
  inferInstanceAs (Decidable (_ ∧ _))

/-- The digits write the number, the most significant one first. -/
def WritesHex (digits : List Char) (n : Nat) : Prop :=
  ∃ ds, List.Forall₂ IsHexDigit digits ds ∧ n = Nat.ofDigits 16 ds.reverse

/-- A character of a quoted body in one of its written forms. A numeric escape writes the number
of a character, so its digits name no surrogate and nothing past the last plane. -/
inductive Item where
  | plain (char : Char) (ordinary : char ≠ '\\' ∧ char ≠ '"')
  | letter (escape char : Char) (known : (escape, char) ∈ letterEscapes)
  | numeric (escape : Char) (digits : List Char) (char : Char)
      (known : (escape, digits.length) ∈ numericEscapes) (writes : WritesHex digits char.toNat)

namespace Item

def written : Item → List Char
  | plain c _ => [c]
  | letter escape _ _ => ['\\', escape]
  | numeric escape digits _ _ _ => '\\' :: escape :: digits

def char : Item → Char
  | plain c _ => c
  | letter _ c _ => c
  | numeric _ _ c _ _ => c

end Item

def IsKeyChar (c : Char) : Prop := 0x20 < c.toNat ∧ c ≠ ':' ∧ c ≠ '"' ∧ c.toNat ≠ 0x7f

instance (c : Char) : Decidable (IsKeyChar c) := inferInstanceAs (Decidable (_ ∧ _))

structure Pair where
  key : List Char
  key_ne_nil : key ≠ []
  key_chars : ∀ c ∈ key, IsKeyChar c
  body : List Item

namespace Pair

def written (p : Pair) : List Char :=
  p.key ++ ':' :: '"' :: (p.body.flatMap Item.written ++ ['"'])

def text (p : Pair) : List Char := p.body.map Item.char

/-- The parameter is named by the key; its value and its options are what stands between the
commas of the text, also between those that are written as escapes. -/
structure Gives (p : Pair) (param : TagParam) : Prop where
  name : param.name.toList = p.key
  no_comma : ∀ piece ∈ param.value :: param.options, ',' ∉ piece.toList
  joined : [','].intercalate ((param.value :: param.options).map String.toList) = p.text

end Pair

def spaces (n : Nat) : List Char := List.replicate n ' '

/-- A whole tag: each pair with the number of spaces before it, and the spaces at the end. -/
structure Layout where
  pairs : List (Nat × Pair)
  trailing : Nat

def Layout.written (l : Layout) : List Char :=
  l.pairs.flatMap (fun p => spaces p.1 ++ p.2.written) ++ spaces l.trailing

end StructTag

namespace Text

variable {sep : Char}

theorem splitAt_eq_splitOn (sep : Char) (cs : List Char) : splitAt sep cs = cs.splitOn sep := by
  induction cs with
  | nil => rfl
  | cons c rest ih =>
    obtain ⟨piece, pieces, hp⟩ := List.exists_cons_of_ne_nil (splitAt_ne_nil sep rest)
    rw [hp] at ih
    rw [splitAt, hp, List.splitOn, List.splitOnP_cons_eq_if_modifyHead, ← List.splitOn, ← ih]
    by_cases h : c = sep <;> simp [h]

theorem not_mem_of_mem_splitAt {cs piece : List Char} (h : piece ∈ splitAt sep cs) :
    sep ∉ piece := by
  induction cs generalizing piece with
  | nil =>
    obtain rfl : piece = [] := by simpa [splitAt] using h
    exact List.not_mem_nil
  | cons c rest ih =>
    obtain ⟨first, others, hp⟩ := List.exists_cons_of_ne_nil (splitAt_ne_nil sep rest)
    rw [hp] at ih
    rw [splitAt, hp] at h
    by_cases hc : c = sep
    · rw [if_pos hc] at h
      rcases List.mem_cons.mp h with rfl | h
      · exact List.not_mem_nil
      · exact ih h
    · rw [if_neg hc] at h
      rcases List.mem_cons.mp h with rfl | h
      · have hfirst := ih List.mem_cons_self
        simp [Ne.symm hc, hfirst]
      · exact ih (List.mem_cons_of_mem _ h)

/-- The pieces of a text are the one way to write it with separators between pieces that have
none. -/
theorem splitAt_eq_iff {cs : List Char} {pieces : List (List Char)} :
    splitAt sep cs = pieces ↔
      pieces ≠ [] ∧ (∀ piece ∈ pieces, sep ∉ piece) ∧ [sep].intercalate pieces = cs := by
  constructor
  · rintro rfl
    refine ⟨splitAt_ne_nil sep cs, fun piece h => not_mem_of_mem_splitAt h, ?_⟩
    rw [splitAt_eq_splitOn, List.intercalate_splitOn]
  · rintro ⟨hne, hsep, rfl⟩
    rw [splitAt_eq_splitOn, List.splitOn_intercalate sep hsep hne]

end Text

namespace StructTag

theorem ofText_eq_iff {name : String} {text : List Char} {param : TagParam} :
    TagParam.ofText name text = param ↔
      name = param.name ∧
        Text.splitAt ',' text = (param.value :: param.options).map String.toList := by
  obtain ⟨name', value, options⟩ := param
  obtain ⟨first, others, hp⟩ := List.exists_cons_of_ne_nil (Text.splitAt_ne_nil ',' text)
  rw [TagParam.ofText, hp]
  constructor
  · intro h
    obtain ⟨rfl, rfl, rfl⟩ := TagParam.mk.inj h
    exact ⟨rfl, by simp [Function.comp_def]⟩
  · rintro ⟨rfl, h⟩
    obtain ⟨rfl, rfl⟩ := List.cons.inj h
    simp [Function.comp_def]

theorem Pair.gives_iff {p : Pair} {param : TagParam} :
    p.Gives param ↔ TagParam.ofText (String.ofList p.key) p.text = param := by
  rw [ofText_eq_iff, Text.splitAt_eq_iff]
  constructor
  · rintro ⟨hname, hcomma, hjoined⟩
    refine ⟨by rw [← hname, String.ofList_toList], by simp, ?_, hjoined⟩
    intro piece h
    obtain ⟨s, hs, rfl⟩ := List.mem_map.mp h
    exact hcomma s hs
  · rintro ⟨hname, -, hcomma, hjoined⟩
    refine ⟨by rw [← hname, String.toList_ofList], ?_, hjoined⟩
    intro piece h
    exact hcomma _ (List.mem_map_of_mem h)

theorem IsHexDigit.ordinary {c : Char} {d : Nat} (h : IsHexDigit c d) : c ≠ '\\' ∧ c ≠ '"' := by
  have hall : ∀ d < 16, (d.digitChar ≠ '\\' ∧ d.digitChar ≠ '"') ∧
      d.digitChar.toUpper ≠ '\\' ∧ d.digitChar.toUpper ≠ '"' := by decide
  obtain ⟨hd, rfl | rfl⟩ := h
  · exact (hall d hd).1
  · exact (hall d hd).2

theorem WritesHex.ordinary {digits : List Char} {n : Nat} (h : WritesHex digits n) :
    ∀ c ∈ digits, c ≠ '\\' ∧ c ≠ '"' := by
  obtain ⟨ds, hds, -⟩ := h
  clear n
  induction hds with
  | nil => intro c hc; cases hc
  | cons hd _ ih =>
    intro c hc
    rcases List.mem_cons.mp hc with rfl | hc
    · exact hd.ordinary
    · exact ih c hc

theorem WritesHex.lt {digits : List Char} {n : Nat} (h : WritesHex digits n) :
    n < 16 ^ digits.length := by
  obtain ⟨ds, hds, rfl⟩ := h
  rw [hds.length_eq, ← List.length_reverse]
  refine Nat.ofDigits_lt_base_pow_length (by decide) fun d hd => ?_
  rw [List.mem_reverse] at hd
  induction hds with
  | nil => cases hd
  | cons hc _ ih =>
    rcases List.mem_cons.mp hd with rfl | hd
    · exact hc.1
    · exact ih hd

end StructTag

end GoPackages
