import GoPackages.Proofs.StructTag.Acceptance
import GoPackages.Proofs.Text.Utf8

/-!
# Reading a tag with a cursor on its bytes

`decode` reads characters. Here the same is done with a position that moves over the bytes, and with
keys and bodies that are cut out by such positions. Behind a backslash the cursor jumps over one
byte. It may come to stand inside of a character, or beyond the end. Neither does any harm: the
remaining bytes of a character are neither quotes nor backslashes, and a cursor beyond the end has
met no quote.
-/
namespace GoPackages.StructTag

open Text (bytes encode byteLength slice?)

/-- Key bytes: printable, no space, quote or colon. -/
def isKeyByte (b : UInt8) : Bool :=
  ' '.toUInt8 < b && b != ':'.toUInt8 && b != '"'.toUInt8 && b != '\x7f'.toUInt8

def skipBytes (class? : UInt8 → Bool) (bs : List UInt8) (pos : Nat) : Nat :=
  match _read : bs[pos]? with
  | none => pos
  | some b => if class? b then skipBytes class? bs (pos + 1) else pos
termination_by bs.length - pos
decreasing_by
  obtain ⟨hpos, -⟩ := List.getElem?_eq_some_iff.mp _read
  omega

/-- Where the search for the closing quote ends: at a quote, or nowhere in the text. -/
def closingQuote (bs : List UInt8) (pos : Nat) : Nat :=
  match _read : bs[pos]? with
  | none => pos
  | some b =>
    if b = '"'.toUInt8 then pos
    else if b = '\\'.toUInt8 then closingQuote bs (pos + 2)
    else closingQuote bs (pos + 1)
termination_by bs.length - pos
decreasing_by
  all_goals
    obtain ⟨hpos, -⟩ := List.getElem?_eq_some_iff.mp _read
    omega

def keyStart (raw : String) (pos : Nat) : Nat := skipBytes (· == ' '.toUInt8) (bytes raw) pos

def keyStop (raw : String) (start : Nat) : Nat := skipBytes isKeyByte (bytes raw) start

/-- The body begins behind the key, a colon and a quote. -/
def bodyStart (raw : String) (start : Nat) : Nat := keyStop raw start + 2

def bodyStop (raw : String) (start : Nat) : Nat := closingQuote (bytes raw) (bodyStart raw start)

/-- The pair at byte `start` and the position behind it. There is no answer where a cut does not
fall between characters of the text. -/
def readPair? (raw : String) (start : Nat) : Option (Except TagError (TagParam × Nat)) :=
  if keyStop raw start = start then some (.error (.keySyntax start))
  else
    (slice? raw start (keyStop raw start)).bind fun key =>
      if (bytes raw)[keyStop raw start]? ≠ some ':'.toUInt8 then
        some (.error (.missingColon key))
      else if (bytes raw)[keyStop raw start + 1]? ≠ some '"'.toUInt8 then
        some (.error (.missingQuote key))
      else if (bytes raw).length ≤ bodyStop raw start then
        some (.error (.unterminatedValue key))
      else
        (slice? raw (bodyStart raw start) (bodyStop raw start)).bind fun body =>
          match unquote body.toList with
          | .error escape => some (.error (.invalidEscape key escape))
          | .ok text => some (.ok (TagParam.ofText key text, bodyStop raw start + 1))

theorem le_skipBytes (class? : UInt8 → Bool) (bs : List UInt8) (pos : Nat) :
    pos ≤ skipBytes class? bs pos := by
  fun_induction skipBytes class? bs pos with
  | case1 => exact Nat.le_refl _
  | case2 pos b _ _ ih => exact Nat.le_trans (Nat.le_succ pos) ih
  | case3 => exact Nat.le_refl _

theorem le_closingQuote (bs : List UInt8) (pos : Nat) : pos ≤ closingQuote bs pos := by
  fun_induction closingQuote bs pos with
  | case1 => exact Nat.le_refl _
  | case2 => exact Nat.le_refl _
  | case3 pos _ _ ih => exact Nat.le_trans (Nat.le_add_right pos 2) ih
  | case4 pos _ _ _ _ ih => exact Nat.le_trans (Nat.le_succ pos) ih

theorem lt_of_readPair? {raw : String} {start next : Nat} {param : TagParam}
    (h : readPair? raw start = some (.ok (param, next))) : start < next := by
  have hkey : start ≤ keyStop raw start := le_skipBytes _ _ _
  have hbody : keyStop raw start + 2 ≤ bodyStop raw start := le_closingQuote _ _
  rw [readPair?] at h
  split at h
  · cases h
  obtain ⟨key, -, h⟩ := Option.bind_eq_some_iff.mp h
  split at h
  · cases h
  split at h
  · cases h
  split at h
  · cases h
  obtain ⟨body, -, h⟩ := Option.bind_eq_some_iff.mp h
  split at h
  · cases h
  · obtain ⟨-, rfl⟩ : _ ∧ bodyStop raw start + 1 = next := by simpa using h
    omega

def decodeBytes? (raw : String) (pos : Nat) : Option (Except TagError (List TagParam)) :=
  if (bytes raw).length ≤ keyStart raw pos then some (.ok [])
  else
    match _read : readPair? raw (keyStart raw pos) with
    | none => none
    | some (.error e) => some (.error e)
    | some (.ok (param, next)) => (decodeBytes? raw next).map (Except.map (param :: ·))
termination_by (bytes raw).length - pos
decreasing_by
  have hnext := lt_of_readPair? _read
  have hstart : pos ≤ keyStart raw pos := le_skipBytes _ _ _
  omega

inductive Turn (raw : String) : Nat → Prop where
  | first : Turn raw 0
  | behind {pos next : Nat} {param : TagParam} : Turn raw pos →
      readPair? raw (keyStart raw pos) = some (.ok (param, next)) → Turn raw next

/-- A value is found at `start`, so that its body is cut out and its escapes are replaced. -/
structure HasBody (raw : String) (start : Nat) : Prop where
  key : keyStop raw start ≠ start
  colon : (bytes raw)[keyStop raw start]? = some ':'.toUInt8
  quote : (bytes raw)[keyStop raw start + 1]? = some '"'.toUInt8
  closed : bodyStop raw start < (bytes raw).length

/-- A class of bytes that stands for a class of characters: each byte of a character tells the same
as the character. -/
def Stands (class? : UInt8 → Bool) (chars? : Char → Bool) : Prop :=
  ∀ c, ∀ b ∈ String.utf8EncodeChar c, class? b = chars? c

namespace Stands

variable {class? other? : UInt8 → Bool} {chars? others? : Char → Bool}

theorem not (h : Stands class? chars?) : Stands (fun b => !class? b) (fun c => !chars? c) :=
  fun c b hb => congrArg _ (h c b hb)

theorem and (h : Stands class? chars?) (h' : Stands other? others?) :
    Stands (fun b => class? b && other? b) (fun c => chars? c && others? c) :=
  fun c b hb => congrArg₂ _ (h c b hb) (h' c b hb)

theorem ascii {d : Char} (hd : d.toNat < 128) : Stands (· == d.toUInt8) (· == d) := by
  intro c b hb
  have hbyte : d.toUInt8.toNat = d.toNat := Nat.mod_eq_of_lt (Nat.lt_trans hd (by decide))
  rw [Bool.eq_iff_iff, beq_iff_eq, beq_iff_eq, ← UInt8.toNat_inj, ← Char.toNat_inj, hbyte]
  by_cases hc : c.toNat < 128
  · rw [Text.utf8EncodeChar_of_lt hc, List.mem_singleton] at hb
    rw [hb, UInt8.toNat_ofNat', Nat.mod_eq_of_lt (by omega)]
  · have hle := Text.le_of_mem_utf8EncodeChar (Nat.le_of_not_lt hc) hb
    omega

end Stands

theorem above_space_stands : Stands (fun b => ' '.toUInt8 < b) (fun c => ' ' < c) := by
  intro c b hb
  have hbyte : ' '.toUInt8 < b ↔ 0x20 < b.toNat := UInt8.lt_iff_toNat_lt
  have hchar : ' ' < c ↔ 0x20 < c.toNat := Char.lt_def
  rw [decide_eq_decide, hbyte, hchar]
  by_cases hc : c.toNat < 128
  · rw [Text.utf8EncodeChar_of_lt hc, List.mem_singleton] at hb
    rw [hb, UInt8.toNat_ofNat', Nat.mod_eq_of_lt (by omega)]
  · have hle := Text.le_of_mem_utf8EncodeChar (Nat.le_of_not_lt hc) hb
    omega

theorem key_stands : Stands isKeyByte isKeyChar :=
  ((above_space_stands.and (Stands.ascii (by decide)).not).and
    (Stands.ascii (by decide)).not).and (Stands.ascii (by decide)).not

def isPlainByte (b : UInt8) : Bool := b != '"'.toUInt8 && b != '\\'.toUInt8

theorem plain_stands : Stands isPlainByte (fun c => c != '"' && c != '\\') :=
  (Stands.ascii (by decide)).not.and (Stands.ascii (by decide)).not

variable {class? : UInt8 → Bool} {chars? : Char → Bool} {bs : List UInt8} {pos : Nat} {b : UInt8}

theorem skipBytes_of_none (h : bs[pos]? = none) : skipBytes class? bs pos = pos := by
  rw [skipBytes]
  split <;> simp_all

theorem skipBytes_of_in (h : bs[pos]? = some b) (hb : class? b = true) :
    skipBytes class? bs pos = skipBytes class? bs (pos + 1) := by
  rw [skipBytes]
  split <;> simp_all

theorem skipBytes_of_out (h : bs[pos]? = some b) (hb : class? b = false) :
    skipBytes class? bs pos = pos := by
  rw [skipBytes]
  split <;> simp_all

theorem closingQuote_of_none (h : bs[pos]? = none) : closingQuote bs pos = pos := by
  rw [closingQuote]
  split <;> simp_all

theorem closingQuote_of_quote (h : bs[pos]? = some '"'.toUInt8) : closingQuote bs pos = pos := by
  rw [closingQuote]
  split <;> simp_all

theorem closingQuote_of_backslash (h : bs[pos]? = some '\\'.toUInt8) :
    closingQuote bs pos = closingQuote bs (pos + 2) := by
  have hne : '\\'.toUInt8 ≠ '"'.toUInt8 := by decide
  rw [closingQuote]
  split <;> simp_all

theorem closingQuote_of_plain (h : bs[pos]? = some b) (hb : isPlainByte b = true) :
    closingQuote bs pos = closingQuote bs (pos + 1) := by
  rw [isPlainByte] at hb
  rw [closingQuote]
  split <;> simp_all

theorem over_run {loop : List UInt8 → Nat → Nat}
    (hstep : ∀ bs pos b, bs[pos]? = some b → class? b = true → loop bs pos = loop bs (pos + 1))
    {run : List UInt8} (hrun : ∀ b ∈ run, class? b = true) (a rest : List UInt8) :
    loop (a ++ run ++ rest) a.length = loop (a ++ run ++ rest) (a.length + run.length) := by
  induction run generalizing a with
  | nil => rfl
  | cons b run ih =>
    have hfront : (a ++ b :: run ++ rest)[a.length]? = some b := by simp
    have hahead := ih (fun b hb => hrun b (List.mem_cons_of_mem _ hb)) (a ++ [b])
    rw [List.append_assoc a [b] run, List.length_append, List.singleton_append] at hahead
    rw [hstep _ _ b hfront (hrun b List.mem_cons_self), List.length_cons, ← Nat.add_assoc,
      Nat.add_right_comm]
    exact hahead

theorem encode_split (a : List Char) (c : Char) (cs : List Char) :
    encode (a ++ c :: cs) = encode a ++ String.utf8EncodeChar c ++ encode cs := by
  rw [Text.encode_append, Text.encode_cons, List.append_assoc]

theorem byteLength_snoc (a : List Char) (c : Char) :
    byteLength (a ++ [c]) = (encode a).length + (String.utf8EncodeChar c).length := by
  rw [Text.byteLength_append, Text.length_encode, String.length_utf8EncodeChar]
  rfl

theorem over_char {loop : List UInt8 → Nat → Nat}
    (hstep : ∀ bs pos b, bs[pos]? = some b → class? b = true → loop bs pos = loop bs (pos + 1))
    {c : Char} (hc : ∀ b ∈ String.utf8EncodeChar c, class? b = true) (a cs : List Char) :
    loop (encode (a ++ c :: cs)) (byteLength a) =
      loop (encode (a ++ c :: cs)) (byteLength (a ++ [c])) := by
  rw [encode_split, byteLength_snoc, ← Text.length_encode]
  exact over_run hstep hc (encode a) (encode cs)

theorem getElem?_encode_end (a : List Char) : (encode a)[byteLength a]? = none := by
  rw [← Text.length_encode]
  exact List.getElem?_eq_none (Nat.le_refl _)

theorem exists_getElem?_encode (a : List Char) (c : Char) (cs : List Char) :
    ∃ b ∈ String.utf8EncodeChar c, (encode (a ++ c :: cs))[byteLength a]? = some b := by
  have hpos : 0 < (String.utf8EncodeChar c).length := by
    rw [String.length_utf8EncodeChar]
    exact c.utf8Size_pos
  obtain ⟨b, tail, hc⟩ := List.exists_cons_of_length_pos hpos
  refine ⟨b, by rw [hc]; exact List.mem_cons_self, ?_⟩
  rw [encode_split, hc, ← Text.length_encode]
  simp

theorem getElem?_encode_ascii {c : Char} (hc : c.toNat < 128) (a cs : List Char) :
    (encode (a ++ c :: cs))[byteLength a]? = some (UInt8.ofNat c.toNat) := by
  obtain ⟨b, hb, hfront⟩ := exists_getElem?_encode a c cs
  rw [Text.utf8EncodeChar_of_lt hc, List.mem_singleton] at hb
  rw [hfront, hb]

theorem skipBytes_encode (h : Stands class? chars?) (a cs : List Char) :
    skipBytes class? (encode (a ++ cs)) (byteLength a) =
      byteLength a + byteLength (cs.takeWhile chars?) := by
  induction cs generalizing a with
  | nil =>
    rw [List.append_nil]
    exact skipBytes_of_none (getElem?_encode_end a)
  | cons c cs ih =>
    cases hc : chars? c with
    | true =>
      have hbytes : ∀ b ∈ String.utf8EncodeChar c, class? b = true :=
        fun b hb => (h c b hb).trans hc
      have hrest := ih (a ++ [c])
      rw [List.append_assoc, List.singleton_append] at hrest
      rw [over_char (fun _ _ _ => skipBytes_of_in) hbytes, hrest, List.takeWhile_cons_of_pos hc,
        ← Text.byteLength_append, ← Text.byteLength_append, List.append_assoc,
        List.singleton_append]
    | false =>
      obtain ⟨b, hb, hfront⟩ := exists_getElem?_encode a c cs
      rw [skipBytes_of_out hfront ((h c b hb).trans hc),
        List.takeWhile_cons_of_neg (by rw [hc]; exact Bool.false_ne_true)]
      rfl

theorem plain_of_mem_tail {c : Char} {tail : List UInt8}
    (hc : String.utf8EncodeChar c = b :: tail) :
    ∀ b ∈ tail, isPlainByte b = true := by
  by_cases hascii : c.toNat < 128
  · rw [Text.utf8EncodeChar_of_lt hascii] at hc
    obtain ⟨-, rfl⟩ := List.cons.inj hc
    exact fun _ => nofun
  · intro b' hb'
    have hplain : c ≠ '"' ∧ c ≠ '\\' := by
      constructor <;>
        rintro rfl <;>
        exact absurd hascii (by decide)
    rw [plain_stands c b' (by rw [hc]; exact List.mem_cons_of_mem _ hb')]
    simp [hplain]

theorem closingQuote_escape (a : List Char) (c : Char) (cs : List Char) :
    closingQuote (encode (a ++ '\\' :: c :: cs)) (byteLength a) =
      closingQuote (encode (a ++ '\\' :: c :: cs)) (byteLength (a ++ ['\\', c])) := by
  have hbackslash := getElem?_encode_ascii (by decide : '\\'.toNat < 128) a (c :: cs)
  obtain ⟨b, tail, hc⟩ : ∃ b tail, String.utf8EncodeChar c = b :: tail := by
    obtain ⟨b, hb, -⟩ := exists_getElem?_encode [] c []
    exact List.exists_cons_of_ne_nil (List.ne_nil_of_mem hb)
  have hencode : encode (a ++ '\\' :: c :: cs) =
      (encode a ++ ['\\'.toUInt8, b]) ++ tail ++ encode cs := by
    rw [encode_split, Text.encode_cons, hc, Text.utf8EncodeChar_of_lt (by decide)]
    simp [Char.toUInt8]
  have hstart : byteLength a + 2 = (encode a ++ ['\\'.toUInt8, b]).length := by
    rw [List.length_append, Text.length_encode]
    rfl
  have hstop : byteLength (a ++ ['\\', c]) =
      (encode a ++ ['\\'.toUInt8, b]).length + tail.length := by
    have hlength : c.utf8Size = tail.length + 1 := by
      rw [← String.length_utf8EncodeChar, hc, List.length_cons]
    have hsize : '\\'.utf8Size = 1 := by decide
    rw [← hstart, Text.byteLength_append, Text.byteLength, Text.byteLength, Text.byteLength,
      hlength, hsize]
    omega
  rw [closingQuote_of_backslash hbackslash, hstart, hstop, hencode]
  exact over_run (fun _ _ _ => closingQuote_of_plain) (plain_of_mem_tail hc) _ _

theorem closingQuote_plain {c : Char} (hb : c ≠ '\\') (hq : c ≠ '"') (a cs : List Char) :
    closingQuote (encode (a ++ c :: cs)) (byteLength a) =
      closingQuote (encode (a ++ c :: cs)) (byteLength (a ++ [c])) := by
  refine over_char (fun _ _ _ => closingQuote_of_plain) (fun b hmem => ?_) a cs
  rw [plain_stands c b hmem]
  simp [hb, hq]

/-- The search ends at the first quote that no backslash guards. -/
theorem closingQuote_guarded {body : List Char} (h : Guarded body) (a rest : List Char) :
    closingQuote (encode (a ++ (body ++ '"' :: rest))) (byteLength a) = byteLength (a ++ body) := by
  induction h generalizing a with
  | nil =>
    rw [List.append_nil]
    exact closingQuote_of_quote (getElem?_encode_ascii (by decide : '"'.toNat < 128) a rest)
  | @plain c cs hb hq _ ih =>
    have hrest := ih (a ++ [c])
    rw [List.append_assoc, List.append_assoc] at hrest
    rw [List.cons_append, closingQuote_plain hb hq]
    exact hrest
  | @escape c cs _ ih =>
    have hrest := ih (a ++ ['\\', c])
    rw [List.append_assoc, List.append_assoc] at hrest
    rw [List.cons_append, List.cons_append, closingQuote_escape]
    exact hrest

/-- Without such a quote the search ends at the end of the text, or beyond it where the last
character is a backslash. -/
theorem closingQuote_unclosed {cs : List Char} (h : scanBody cs = none) (a : List Char) :
    (encode (a ++ cs)).length ≤ closingQuote (encode (a ++ cs)) (byteLength a) := by
  fun_induction scanBody cs generalizing a with
  | case1 => rw [List.append_nil, closingQuote_of_none (getElem?_encode_end a), Text.length_encode]
  | case2 => cases h
  | case3 c rest ih =>
    have hrest := ih (Option.map_eq_none_iff.mp h) (a ++ ['\\', c])
    rw [List.append_assoc] at hrest
    rw [closingQuote_escape]
    exact hrest
  | case4 c rest hq hb ih =>
    by_cases hc : c = '\\'
    · -- nothing follows, or the case before would apply
      obtain rfl : rest = [] := by
        cases rest with
        | nil => rfl
        | cons c' rest => exact absurd rfl (hb c' rest hc)
      subst hc
      have hlast := getElem?_encode_ascii (by decide : '\\'.toNat < 128) a []
      have hlength : (encode (a ++ ['\\'])).length = byteLength a + 1 := by
        rw [Text.length_encode, Text.byteLength_append]
        rfl
      have hle := le_closingQuote (encode (a ++ ['\\'])) (byteLength a + 2)
      rw [closingQuote_of_backslash hlast]
      omega
    · have hrest := ih (Option.map_eq_none_iff.mp h) (a ++ [c])
      rw [List.append_assoc] at hrest
      rw [closingQuote_plain hc hq]
      exact hrest

end GoPackages.StructTag
