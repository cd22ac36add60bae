import GoPackages.Proofs.StructTag.Acceptance
import GoPackages.Proofs.Text.Utf8

/-!
# Decoding part by part

Nothing of a pair is remembered once it has been read. Decoding a text behind a tag is decoding the
text by itself, but for the position at which a missing key is reported. So a malformed tag is
reported by the first of its pairs that cannot be read.
-/
namespace GoPackages

/-- The error as it is reported with `n` more bytes in front of the tag. -/
def TagError.behind (n : Nat) : TagError → TagError
  | .keySyntax position => .keySyntax (position + n)
  | .missingColon key => .missingColon key
  | .missingQuote key => .missingQuote key
  | .unterminatedValue key => .unterminatedValue key
  | .invalidEscape key escape => .invalidEscape key escape

theorem TagError.behind_of_ne {e : TagError} (h : ∀ position, e ≠ .keySyntax position) (n : Nat) :
    e.behind n = e := by
  cases e with
  | keySyntax position => exact absurd rfl (h position)
  | missingColon | missingQuote | unterminatedValue | invalidEscape => rfl

namespace StructTag

theorem byteLength_spaces (n : Nat) : Text.byteLength (spaces n) = n := by
  induction n with
  | zero => rfl
  | succ n ih =>
    have hspace : ' '.utf8Size = 1 := by decide
    rw [spaces, List.replicate_succ, Text.byteLength, hspace, ← spaces, ih, Nat.add_comm]

/-- Every text is some spaces and a rest without spaces in front. What follows a pair at the front
of the rest is shorter. -/
theorem turn_induction {motive : List Char → Prop}
    (turn : ∀ (n : Nat) (cs : List Char), cs.head? ≠ some ' ' →
      (∀ (p : Pair) rest, cs = p.written ++ rest → motive rest) → motive (spaces n ++ cs))
    (cs : List Char) : motive cs := by
  induction hlength : cs.length using Nat.strong_induction_on generalizing cs with
  | h length ih =>
    obtain ⟨n, cs, rfl, hhead⟩ := exists_spaces cs
    refine turn n cs hhead fun p rest heq => ih rest.length ?_ rest rfl
    rw [← hlength, heq, List.length_append, List.length_append, Pair.written, List.length_append,
      List.length_cons]
    omega

theorem readPair_behind (position n : Nat) (cs : List Char) :
    readPair (position + n) cs = (readPair position cs).mapError (TagError.behind n) := by
  unfold readPair
  dsimp only
  repeat' split
  all_goals rfl

theorem decodeFrom_behind (position n : Nat) (cs : List Char) :
    decodeFrom (position + n) cs = (decodeFrom position cs).mapError (TagError.behind n) := by
  induction cs using turn_induction generalizing position with
  | turn m cs hhead ih =>
    rw [decodeFrom_spaces _ m hhead, decodeFrom_spaces _ m hhead, Nat.add_right_comm,
      readPair_behind]
    split
    · rfl
    cases hread : readPair (position + m) cs with
    | error e => rfl
    | ok found =>
      obtain ⟨param, size, rest⟩ := found
      obtain ⟨p, heq, -⟩ := readPair_eq_ok_iff.mp hread
      simp only [Except.mapError]
      rw [Nat.add_right_comm _ n, ih p rest heq]
      cases decodeFrom (position + m + size) rest <;> rfl

theorem decodeFrom_behind_spaces (position n : Nat) (cs : List Char) :
    decodeFrom position (spaces n ++ cs) = decodeFrom (position + n) cs := by
  obtain ⟨m, cs, rfl, hhead⟩ := exists_spaces cs
  have hspaces : spaces n ++ (spaces m ++ cs) = spaces (n + m) ++ cs := by
    rw [← List.append_assoc, spaces, spaces, List.replicate_append_replicate]
    rfl
  rw [hspaces, decodeFrom_spaces _ _ hhead, decodeFrom_spaces _ _ hhead, Nat.add_assoc]

theorem decodeFrom_behind_pair {p : Pair} {param : TagParam} (h : p.Gives param)
    (position : Nat) (cs : List Char) :
    decodeFrom position (p.written ++ cs) =
      (decodeFrom (position + Text.byteLength p.written) cs).map (param :: ·) := by
  have hread : readPair (position + 0) (p.written ++ cs) =
      .ok (param, Text.byteLength p.written, cs) := readPair_eq_ok_iff.mpr ⟨p, rfl, h, rfl⟩
  have hne : p.written ++ cs ≠ [] := by simp [Pair.written]
  have hhead : (p.written ++ cs).head? ≠ some ' ' := by
    rw [Pair.written, List.append_assoc]
    exact head?_key p.key_ne_nil p.key_chars _
  have hturn := decodeFrom_spaces position 0 hhead
  rw [if_neg hne, hread] at hturn
  exact hturn

/-- A tag in front of a text gives its own parameters, and the text is read as if it began where
the tag ends. -/
theorem decodeFrom_append {position : Nat} {a : List Char} {params : List TagParam}
    (h : decodeFrom position a = .ok params) (b : List Char) :
    decodeFrom position (a ++ b) =
      (decodeFrom (position + Text.byteLength a) b).map (params ++ ·) := by
  have hnil : ∀ r : Except TagError (List TagParam), r.map ([] ++ ·) = r := by
    intro r
    cases r <;> rfl
  induction params generalizing position a with
  | nil =>
    rcases decodeFrom_eq_ok_iff.mp h with ⟨n, rfl, -⟩ | ⟨_, _, _, _, _, _, _, _, hne⟩
    · rw [decodeFrom_behind_spaces, byteLength_spaces, hnil]
    · cases hne
  | cons param params ih =>
    rcases decodeFrom_eq_ok_iff.mp h with ⟨_, _, hne⟩ | ⟨n, p, _, rest, _, rfl, hgives, htail, heq⟩
    · cases hne
    · obtain ⟨rfl, rfl⟩ := List.cons.inj heq
      have hlength : position + Text.byteLength (spaces n ++ (p.written ++ rest)) =
          position + n + Text.byteLength p.written + Text.byteLength rest := by
        simp only [Text.byteLength_append, byteLength_spaces, Nat.add_assoc]
      rw [List.append_assoc, List.append_assoc, decodeFrom_behind_spaces,
        decodeFrom_behind_pair hgives, ih htail, hlength]
      cases decodeFrom _ b <;> rfl

/-- Something other than a space stands at the front, and it is no pair. -/
structure Malformed (cs : List Char) : Prop where
  ne_nil : cs ≠ []
  no_space : cs.head? ≠ some ' '
  no_pair : ∀ (p : Pair) rest, cs ≠ p.written ++ rest

theorem malformed_of_readPair {position : Nat} {cs : List Char} {e : TagError}
    (hne : cs ≠ []) (hhead : cs.head? ≠ some ' ') (h : readPair position cs = .error e) :
    Malformed cs := by
  refine ⟨hne, hhead, fun p rest heq => ?_⟩
  have hread : readPair position cs = .ok (_, Text.byteLength p.written, rest) :=
    readPair_eq_ok_iff.mpr ⟨p, heq, Pair.gives_iff.mpr rfl, rfl⟩
  cases h.symm.trans hread

theorem decodeFrom_of_malformed {position : Nat} {cs : List Char} (h : Malformed cs)
    {e : TagError} :
    decodeFrom position cs = .error e ↔ readPair position cs = .error e := by
  have hturn := decodeFrom_spaces position 0 h.no_space
  rw [if_neg h.ne_nil, Nat.add_zero] at hturn
  change decodeFrom position cs = _ at hturn
  rw [hturn]
  cases hread : readPair position cs with
  | error e' => simp
  | ok found =>
    obtain ⟨p, heq, -⟩ := readPair_eq_ok_iff.mp hread
    exact absurd heq (h.no_pair p _)

theorem exists_malformed {position : Nat} {cs : List Char} {e : TagError}
    (h : decodeFrom position cs = .error e) :
    ∃ (l : Layout) (rest : List Char), cs = l.written ++ rest ∧ Malformed rest := by
  induction cs using turn_induction generalizing position e with
  | turn n cs hhead ih =>
    rw [decodeFrom_spaces _ n hhead] at h
    split at h
    · cases h
    next hne =>
      cases hread : readPair (position + n) cs with
      | error e' => exact ⟨⟨[], n⟩, cs, rfl, malformed_of_readPair hne hhead hread⟩
      | ok found =>
        obtain ⟨param, size, after⟩ := found
        obtain ⟨p, heq, -⟩ := readPair_eq_ok_iff.mp hread
        simp only [hread] at h
        cases hafter : decodeFrom (position + n + size) after with
        | ok params => rw [hafter] at h; cases h
        | error e' =>
          obtain ⟨l, rest, rfl, hmalformed⟩ := ih p after heq hafter
          refine ⟨⟨(n, p) :: l.pairs, l.trailing⟩, rest, ?_, hmalformed⟩
          rw [heq, Layout.written_cons]
          simp only [List.append_assoc]

/-- A tag and a text behind it give the parameters of both, or the error of the text at its place in
the whole. So the error of a tag is that of its first malformed pair: what stands before is pairs
and spaces, and the place is their length in bytes. -/
theorem decoding_is_compositional :
    (∀ (a b : String) ps, decode a = .ok ps →
      (∀ qs, decode b = .ok qs → decode (a ++ b) = .ok (ps ++ qs)) ∧
      (∀ k, decode b = .error (.keySyntax k) →
        decode (a ++ b) = .error (.keySyntax (k + a.utf8ByteSize))) ∧
      ∀ e, (∀ k, e ≠ .keySyntax k) → decode b = .error e → decode (a ++ b) = .error e) ∧
    ∀ (raw : String) e, decode raw = .error e ↔
      ∃ (l : Layout) (rest : List Char), raw.toList = l.written ++ rest ∧ Malformed rest ∧
        readPair (Text.byteLength l.written) rest = .error e := by
  constructor
  · intro a b ps h
    have happend : decode (a ++ b) =
        ((decode b).mapError (TagError.behind a.utf8ByteSize)).map (ps ++ ·) := by
      rw [decode, String.toList_append, decodeFrom_append h, decodeFrom_behind,
        Text.byteLength_toList]
      rfl
    refine ⟨fun qs hb => ?_, fun k hb => ?_, fun e he hb => ?_⟩
    · rw [happend, hb]
      rfl
    · rw [happend, hb]
      rfl
    · rw [happend, hb, Except.mapError, TagError.behind_of_ne he]
      rfl
  · intro raw e
    have hlayout : ∀ (l : Layout) (rest : List Char), raw.toList = l.written ++ rest →
        Malformed rest →
        (decode raw = .error e ↔ readPair (Text.byteLength l.written) rest = .error e) := by
      intro l rest hraw hmalformed
      obtain ⟨params, hparams⟩ := Layout.exists_gives l.pairs
      have hread := decodeFrom_append (decodeFrom_written hparams l.trailing 0) rest
      rw [Nat.zero_add] at hread
      rw [decode, hraw, hread, ← decodeFrom_of_malformed hmalformed]
      cases decodeFrom (Text.byteLength l.written) rest <;> simp [Except.map]
    constructor
    · intro h
      obtain ⟨l, rest, hraw, hmalformed⟩ := exists_malformed h
      exact ⟨l, rest, hraw, hmalformed, (hlayout l rest hraw hmalformed).mp h⟩
    · rintro ⟨l, rest, hraw, hmalformed, hread⟩
      exact (hlayout l rest hraw hmalformed).mpr hread

/-- A tag of seven characters and nine bytes, in front of another pair, of a value without a key and
of a key without a quote. -/
theorem secondPair_is_read_behind :
    decode ("kä:\"é\" " ++ "db:\"\"") = .ok [⟨"kä", "é", []⟩, ⟨"db", "", []⟩] ∧
    decode ("kä:\"é\" " ++ " :\"x\"") = .error (.keySyntax (1 + 9)) ∧
    decode ("kä:\"é\" " ++ "db:x") = .error (.missingQuote "db") := by
  have hfirst : decode "kä:\"é\" " = .ok [⟨"kä", "é", []⟩] := by decide +kernel
  have hbehind := fun b => decoding_is_compositional.1 "kä:\"é\" " b _ hfirst
  refine ⟨(hbehind "db:\"\"").1 [⟨"db", "", []⟩] (by decide +kernel), ?_, ?_⟩
  · exact (hbehind " :\"x\"").2.1 1 (by decide +kernel)
  · exact (hbehind "db:x").2.2 (.missingQuote "db") (fun _ => nofun) (by decide +kernel)

end StructTag

end GoPackages
