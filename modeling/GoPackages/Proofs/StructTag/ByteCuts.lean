import GoPackages.Proofs.StructTag.ByteCursor
import GoPackages.Proofs.StructTag.Composition

/-!
# Cuts by byte positions

Each turn of the cursor begins between two characters, and so do the keys and bodies that it cuts
out. With these cuts it reads what `decode` reads from the characters.
-/
namespace GoPackages.StructTag

open Text (bytes encode byteLength slice?)

theorem slice?_middle {raw : String} {a b c : List Char} (h : raw.toList = a ++ b ++ c) :
    slice? raw (byteLength a) (byteLength (a ++ b)) = some (String.ofList b) := by
  have hraw : raw = String.ofList a ++ String.ofList b ++ String.ofList c := by
    rw [← String.ofList_append, ← String.ofList_append, ← h, String.ofList_toList]
  have hslice := Text.slice?_append (String.ofList a) (String.ofList b) (String.ofList c)
  rw [← hraw, ← Text.byteLength_toList, ← Text.byteLength_toList, String.toList_ofList,
    String.toList_ofList, ← Text.byteLength_append] at hslice
  exact hslice

section Cuts

variable {raw : String} {a cs : List Char}

theorem keyStart_eq (h : raw.toList = a ++ cs) :
    keyStart raw (byteLength a) = byteLength (a ++ cs.takeWhile (· == ' ')) := by
  rw [keyStart, Text.bytes_eq_encode, h, skipBytes_encode (Stands.ascii (by decide)),
    Text.byteLength_append]

theorem keyStop_eq (h : raw.toList = a ++ cs) :
    keyStop raw (byteLength a) = byteLength (a ++ cs.takeWhile isKeyChar) := by
  rw [keyStop, Text.bytes_eq_encode, h, skipBytes_encode key_stands, Text.byteLength_append]

theorem byteLength_eq_zero_iff : byteLength cs = 0 ↔ cs = [] := by
  cases cs with
  | nil => simp [byteLength]
  | cons c cs =>
    have hpos := c.utf8Size_pos
    simp only [byteLength, reduceCtorEq, iff_false]
    omega

theorem keyStop_eq_start_iff (h : raw.toList = a ++ cs) :
    keyStop raw (byteLength a) = byteLength a ↔ cs.takeWhile isKeyChar = [] := by
  rw [keyStop_eq h, Text.byteLength_append, Nat.add_eq_left, byteLength_eq_zero_iff]

theorem byte_iff {d : Char} (hd : d.toNat < 128) (h : raw.toList = a ++ cs) :
    (bytes raw)[byteLength a]? = some d.toUInt8 ↔ cs.head? = some d := by
  rw [Text.bytes_eq_encode, h]
  cases cs with
  | nil =>
    rw [List.append_nil, getElem?_encode_end]
    simp
  | cons c cs =>
    obtain ⟨b, hb, hfront⟩ := exists_getElem?_encode a c cs
    have hstands : (b == d.toUInt8) = (c == d) := Stands.ascii hd c b hb
    rw [hfront, List.head?_cons, Option.some.injEq, Option.some.injEq, ← beq_iff_eq, hstands,
      beq_iff_eq]

theorem key_and_rest (h : raw.toList = a ++ cs) :
    raw.toList = a ++ cs.takeWhile isKeyChar ++ cs.dropWhile isKeyChar := by
  rw [List.append_assoc, List.takeWhile_append_dropWhile, h]

theorem key_cut (h : raw.toList = a ++ cs) :
    slice? raw (byteLength a) (keyStop raw (byteLength a)) =
      some (String.ofList (cs.takeWhile isKeyChar)) := by
  rw [keyStop_eq h]
  exact slice?_middle (key_and_rest h)

theorem colon_iff (h : raw.toList = a ++ cs) :
    (bytes raw)[keyStop raw (byteLength a)]? = some ':'.toUInt8 ↔
      (cs.dropWhile isKeyChar).head? = some ':' := by
  rw [keyStop_eq h]
  exact byte_iff (by decide) (key_and_rest h)

theorem quote_iff {after : List Char} (h : raw.toList = a ++ cs)
    (hcolon : cs.dropWhile isKeyChar = ':' :: after) :
    (bytes raw)[keyStop raw (byteLength a) + 1]? = some '"'.toUInt8 ↔ after.head? = some '"' := by
  have hraw : raw.toList = (a ++ cs.takeWhile isKeyChar ++ [':']) ++ after := by
    rw [key_and_rest h, hcolon, List.append_assoc _ [':'], List.singleton_append]
  have hpos :
      keyStop raw (byteLength a) + 1 = byteLength (a ++ cs.takeWhile isKeyChar ++ [':']) := by
    rw [keyStop_eq h, Text.byteLength_append _ [':']]
    rfl
  rw [hpos]
  exact byte_iff (by decide) hraw

section Value

variable {value : List Char} (h : raw.toList = a ++ cs)
  (hvalue : cs.dropWhile isKeyChar = ':' :: '"' :: value)
include h

theorem bodyStart_eq :
    bodyStart raw (byteLength a) = byteLength (a ++ cs.takeWhile isKeyChar ++ [':', '"']) := by
  rw [bodyStart, keyStop_eq h, Text.byteLength_append _ [':', '"']]
  rfl

include hvalue

theorem value_and_front :
    raw.toList = (a ++ cs.takeWhile isKeyChar ++ [':', '"']) ++ value := by
  rw [key_and_rest h, hvalue, List.append_assoc _ [':', '"']]
  rfl

theorem bodyStop_of_scan {body rest : List Char} (hscan : scanBody value = some (body, rest)) :
    bodyStop raw (byteLength a) =
      byteLength (a ++ cs.takeWhile isKeyChar ++ [':', '"'] ++ body) := by
  obtain ⟨hguarded, rfl⟩ := scanBody_eq_some_iff.mp hscan
  rw [bodyStop, bodyStart_eq h, Text.bytes_eq_encode, value_and_front h hvalue]
  exact closingQuote_guarded hguarded _ rest

theorem bodyStop_of_unclosed (hscan : scanBody value = none) :
    (bytes raw).length ≤ bodyStop raw (byteLength a) := by
  rw [bodyStop, bodyStart_eq h, Text.bytes_eq_encode, value_and_front h hvalue]
  exact closingQuote_unclosed hscan _

theorem body_cut {body rest : List Char} (hscan : scanBody value = some (body, rest)) :
    bodyStop raw (byteLength a) < (bytes raw).length ∧
      slice? raw (bodyStart raw (byteLength a)) (bodyStop raw (byteLength a)) =
        some (String.ofList body) := by
  have hraw := value_and_front h hvalue
  rw [(scanBody_eq_some_iff.mp hscan).2, ← List.append_assoc] at hraw
  rw [bodyStart_eq h, bodyStop_of_scan h hvalue hscan]
  refine ⟨?_, slice?_middle hraw⟩
  have hquote : '"'.utf8Size = 1 := by decide
  rw [Text.bytes_eq_encode, hraw, Text.length_encode, Text.byteLength_append _ ('"' :: rest),
    byteLength, hquote]
  omega

end Value

/-- The cursor reads what is read from the characters. -/
theorem readPair?_eq (h : raw.toList = a ++ cs) :
    readPair? raw (byteLength a) = some ((readPair (byteLength a) cs).map fun found =>
      (found.1, byteLength a + found.2.1)) := by
  have hstop := keyStop_eq_start_iff h
  have hcolon := colon_iff h
  generalize hread : readPair (byteLength a) cs = outcome
  rw [readPair] at hread
  rw [readPair?]
  by_cases hkey : cs.takeWhile isKeyChar = []
  · rw [hkey] at hread
    rw [if_pos (hstop.mpr hkey), ← hread]
    rfl
  have hnonempty : (cs.takeWhile isKeyChar).isEmpty = false := by simpa using hkey
  rw [if_neg (mt hstop.mp hkey), key_cut h, Option.bind_some]
  simp only [hnonempty, Bool.false_eq_true, if_false] at hread
  split at hread
  next value hvalue =>
    have hcolon := hcolon.mpr (by rw [hvalue]; rfl)
    have hquote := (quote_iff h hvalue).mpr rfl
    rw [if_neg (not_not_intro hcolon), if_neg (not_not_intro hquote)]
    cases hscan : scanBody value with
    | none =>
      rw [if_pos (bodyStop_of_unclosed h hvalue hscan), ← hread, hscan]
      rfl
    | some found =>
      obtain ⟨body, rest⟩ := found
      obtain ⟨hclosed, hcut⟩ := body_cut h hvalue hscan
      have hnext : bodyStop raw (byteLength a) + 1 =
          byteLength a + (byteLength (cs.takeWhile isKeyChar) + 2 + byteLength body + 1) := by
        have hmark : byteLength [':', '"'] = 2 := by decide
        rw [bodyStop_of_scan h hvalue hscan]
        simp only [Text.byteLength_append, hmark]
        omega
      rw [if_neg (Nat.not_le_of_lt hclosed), hcut, Option.bind_some, String.toList_ofList, hnext,
        ← hread, hscan]
      cases hunquote : unquote body <;> simp only [hunquote, Except.map]
  next after hne hafter =>
    have hcolon := hcolon.mpr (by rw [hafter]; rfl)
    have hquote : after.head? ≠ some '"' := by
      intro hhead
      obtain ⟨value, rfl⟩ := List.head?_eq_some_iff.mp hhead
      exact hne value rfl
    rw [if_neg (not_not_intro hcolon), if_pos (mt (quote_iff h hafter).mp hquote), ← hread]
    rfl
  next hne hne' =>
    have hno : (cs.dropWhile isKeyChar).head? ≠ some ':' := by
      intro hhead
      obtain ⟨after, hafter⟩ := List.head?_eq_some_iff.mp hhead
      exact hne' after hafter
    rw [if_pos (mt hcolon.mp hno), ← hread]
    rfl

theorem exists_behind_pair (h : raw.toList = a ++ cs) {param : TagParam} {next : Nat}
    (hread : readPair? raw (byteLength a) = some (.ok (param, next))) :
    ∃ (p : Pair) (rest : List Char), cs = p.written ++ rest ∧
      raw.toList = (a ++ p.written) ++ rest ∧ next = byteLength (a ++ p.written) ∧
      readPair (byteLength a) cs = .ok (param, byteLength p.written, rest) := by
  rw [readPair?_eq h] at hread
  cases hchars : readPair (byteLength a) cs with
  | error e =>
    rw [hchars] at hread
    cases hread
  | ok found =>
    obtain ⟨param', size, rest⟩ := found
    rw [hchars] at hread
    obtain ⟨rfl, rfl⟩ : param' = param ∧ byteLength a + size = next := by
      simpa [Except.map] using hread
    obtain ⟨p, rfl, -, rfl⟩ := readPair_eq_ok_iff.mp hchars
    exact ⟨p, rest, rfl, by rw [h, List.append_assoc], by rw [Text.byteLength_append], rfl⟩

theorem keyStart_spaces {n : Nat} (hhead : cs.head? ≠ some ' ')
    (h : raw.toList = a ++ (spaces n ++ cs)) :
    keyStart raw (byteLength a) = byteLength (a ++ spaces n) := by
  rw [keyStart_eq h, (span_spaces n hhead).1]

theorem decodeBytes?_turn (raw : String) (pos : Nat) :
    decodeBytes? raw pos =
      if (bytes raw).length ≤ keyStart raw pos then some (.ok [])
      else
        match readPair? raw (keyStart raw pos) with
        | none => none
        | some (.error e) => some (.error e)
        | some (.ok (param, next)) => (decodeBytes? raw next).map (Except.map (param :: ·)) := by
  rw [decodeBytes?]
  split
  · rfl
  · split <;> simp_all

theorem decodeBytes?_eq (h : raw.toList = a ++ cs) :
    decodeBytes? raw (byteLength a) = some (decodeFrom (byteLength a) cs) := by
  induction cs using turn_induction generalizing a with
  | turn n cs hhead ih =>
    have hraw : raw.toList = (a ++ spaces n) ++ cs := by rw [h, List.append_assoc]
    have hposition : byteLength a + n = byteLength (a ++ spaces n) := by
      rw [Text.byteLength_append, byteLength_spaces]
    have hend : (bytes raw).length ≤ byteLength (a ++ spaces n) ↔ cs = [] := by
      rw [Text.bytes_eq_encode, hraw, Text.length_encode, Text.byteLength_append _ cs,
        ← byteLength_eq_zero_iff]
      omega
    rw [decodeBytes?_turn, keyStart_spaces hhead h, decodeFrom_spaces _ n hhead, hposition]
    by_cases hnil : cs = []
    · rw [if_pos (hend.mpr hnil), if_pos hnil]
    rw [if_neg (mt hend.mp hnil), if_neg hnil]
    cases hread : readPair? raw (byteLength (a ++ spaces n)) with
    | none => rw [readPair?_eq hraw] at hread; cases hread
    | some outcome =>
      cases outcome with
      | error e =>
        rw [readPair?_eq hraw] at hread
        cases hchars : readPair (byteLength (a ++ spaces n)) cs with
        | error e' => rw [hchars] at hread; cases hread; rfl
        | ok found => rw [hchars] at hread; cases hread
      | ok found =>
        obtain ⟨param, next⟩ := found
        obtain ⟨p, rest, rfl, hrest, rfl, hchars⟩ := exists_behind_pair hraw hread
        simp only [hchars]
        rw [ih p rest rfl hrest, Text.byteLength_append _ p.written]
        rfl

theorem Turn.exists_split {pos : Nat} (h : Turn raw pos) :
    ∃ a cs, raw.toList = a ++ cs ∧ pos = byteLength a := by
  induction h with
  | first => exact ⟨[], raw.toList, rfl, rfl⟩
  | behind _ hread ih =>
    obtain ⟨a, cs, h, rfl⟩ := ih
    obtain ⟨n, cs, rfl, hhead⟩ := exists_spaces cs
    have hraw : raw.toList = (a ++ spaces n) ++ cs := by rw [h, List.append_assoc]
    rw [keyStart_spaces hhead h] at hread
    obtain ⟨p, rest, -, hrest, rfl, -⟩ := exists_behind_pair hraw hread
    exact ⟨_, rest, hrest, rfl⟩

theorem HasBody.exists_scan (h : raw.toList = a ++ cs) (hbody : HasBody raw (byteLength a)) :
    ∃ value body rest, cs.dropWhile isKeyChar = ':' :: '"' :: value ∧
      scanBody value = some (body, rest) := by
  obtain ⟨after, hafter⟩ := List.head?_eq_some_iff.mp ((colon_iff h).mp hbody.colon)
  obtain ⟨value, rfl⟩ := List.head?_eq_some_iff.mp ((quote_iff h hafter).mp hbody.quote)
  cases hscan : scanBody value with
  | none => exact absurd hbody.closed (Nat.not_lt_of_le (bodyStop_of_unclosed h hafter hscan))
  | some found => exact ⟨value, found.1, found.2, hafter, hscan⟩

end Cuts

theorem unquote_ne_backslash {body : List Char} (h : Guarded body) :
    unquote body ≠ .error '\\' := by
  have hmap : ∀ {r : Except Char (List Char)} (c : Char), r ≠ .error '\\' →
      r.map (c :: ·) ≠ .error '\\' := by
    intro r c hr
    cases r with
    | error e => exact hr
    | ok text => simp [Except.map]
  fun_induction unquote body with
  | case1 => simp
  | case2 =>
    cases h with
    | plain hb => exact absurd rfl hb
  | case3 escape rest c hc ih =>
    cases h with
    | plain hb => exact absurd rfl hb
    | escape h => exact hmap c (ih h)
  | case4 escape rest _ width c hc ih =>
    obtain ⟨w, -, hmapped⟩ := Option.bind_eq_some_iff.mp hc
    obtain ⟨c', hhex, heq⟩ := Option.map_eq_some_iff.mp hmapped
    obtain ⟨rfl, rfl⟩ := Prod.mk.inj heq
    have hdigits := (hexChar?_eq_some_iff.mp hhex).2.ordinary
    cases h with
    | plain hb => exact absurd rfl hb
    | escape h =>
      rw [← List.take_append_drop w rest, guarded_append_iff hdigits] at h
      exact hmap c' (ih h)
  | case5 escape rest hsimple =>
    intro heq
    obtain rfl := Except.error.inj heq
    cases hsimple
  | case6 c rest hb hb' ih =>
    cases h with
    | plain _ _ h => exact hmap c (ih h)
    | escape _ => exact absurd rfl (hb' _ _ rfl)

theorem readPair_ne_backslash (position : Nat) (cs : List Char) (key : String) :
    readPair position cs ≠ .error (.invalidEscape key '\\') := by
  intro h
  simp only [readPair] at h
  split at h
  · cases h
  split at h
  · split at h
    · cases h
    next body rest hscan =>
      split at h
      next escape hunquote =>
        obtain ⟨-, rfl⟩ := TagError.invalidEscape.inj (Except.error.inj h)
        exact unquote_ne_backslash (guarded_of_scanBody hscan) hunquote
      · cases h
  · cases h
  · cases h

theorem decodeFrom_ne_backslash (position : Nat) (cs : List Char) (key : String) :
    decodeFrom position cs ≠ .error (.invalidEscape key '\\') := by
  induction cs using turn_induction generalizing position with
  | turn n cs hhead ih =>
    rw [decodeFrom_spaces _ n hhead]
    split
    · exact nofun
    cases hread : readPair (position + n) cs with
    | error e =>
      rintro ⟨⟩
      exact readPair_ne_backslash _ _ key hread
    | ok found =>
      obtain ⟨param, size, rest⟩ := found
      obtain ⟨p, heq, -⟩ := readPair_eq_ok_iff.mp hread
      have hrest := ih p rest heq (position + n + size)
      simp only
      cases hdecode : decodeFrom (position + n + size) rest with
      | error e => rw [hdecode] at hrest; exact hrest
      | ok params => exact nofun

/-- The cursor reads every tag with the outcome of `decode`, so that no cut falls inside of a
character or beyond the end. In every turn the ends of the key are boundaries of the text, and where
a value is found, so are the ends of its body. Each backslash of a body has the character that it
guards behind it, inside of the body, so that no dangling one is met. Whether the letters and digits
of an escape denote a character is for `unquote` alone to say. -/
theorem scan_and_unquote_agree (raw : String) :
    decodeBytes? raw 0 = some (decode raw) ∧
    (∀ pos, Turn raw pos →
      (∃ key, slice? raw (keyStart raw pos) (keyStop raw (keyStart raw pos)) = some key) ∧
      (HasBody raw (keyStart raw pos) →
        ∃ body, slice? raw (bodyStart raw (keyStart raw pos)) (bodyStop raw (keyStart raw pos)) =
            some body ∧
          Guarded body.toList ∧ unquote body.toList ≠ .error '\\')) ∧
    ∀ key, decode raw ≠ .error (.invalidEscape key '\\') := by
  refine ⟨decodeBytes?_eq (a := []) rfl, ?_, decodeFrom_ne_backslash 0 raw.toList⟩
  intro pos hturn
  obtain ⟨a, cs, h, rfl⟩ := hturn.exists_split
  obtain ⟨n, cs, rfl, hhead⟩ := exists_spaces cs
  have hraw : raw.toList = (a ++ spaces n) ++ cs := by rw [h, List.append_assoc]
  rw [keyStart_spaces hhead h]
  refine ⟨⟨_, key_cut hraw⟩, fun hbody => ?_⟩
  obtain ⟨value, body, rest, hvalue, hscan⟩ := hbody.exists_scan hraw
  have hguarded := guarded_of_scanBody hscan
  refine ⟨_, (body_cut hraw hvalue hscan).2, ?_⟩
  rw [String.toList_ofList]
  exact ⟨hguarded, unquote_ne_backslash hguarded⟩

/-- A guarded character of two bytes, and a guarded backslash at the end of the body. -/
theorem guardedCharacters_are_cut :
    Turn "kä:\"\\é\\\\\" " 0 ∧ HasBody "kä:\"\\é\\\\\" " 0 ∧
    ∃ body, slice? "kä:\"\\é\\\\\" " 5 10 = some body ∧
      Guarded body.toList ∧ unquote body.toList ≠ .error '\\' := by
  have hstart : keyStart "kä:\"\\é\\\\\" " 0 = 0 := by decide +kernel
  have hbounds : bodyStart "kä:\"\\é\\\\\" " 0 = 5 ∧ bodyStop "kä:\"\\é\\\\\" " 0 = 10 := by
    decide +kernel
  have hbody : HasBody "kä:\"\\é\\\\\" " 0 := by
    constructor <;> decide +kernel
  have hcut := ((scan_and_unquote_agree "kä:\"\\é\\\\\" ").2.1 0 .first).2
  rw [hstart, hbounds.1, hbounds.2] at hcut
  exact ⟨.first, hbody, hcut hbody⟩

end GoPackages.StructTag
