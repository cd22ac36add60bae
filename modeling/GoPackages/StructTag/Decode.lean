import GoPackages.StructTag.Basic
import GoPackages.Text.Split
import GoPackages.Text.Bytes

/-!
Reading the conventional form of a struct tag: pairs `key:"value"`, set apart by any number of
spaces. The value is a quoted string whose escapes are replaced before it is cut at its commas.
A key that is missing is reported by its byte position in the tag, any other fault by the key.
-/
namespace GoPackages

/-- Why a tag is malformed. -/
inductive TagError where
  | keySyntax (position : Nat)
  | missingColon (key : String)
  | missingQuote (key : String)
  | unterminatedValue (key : String)
  | invalidEscape (key : String) (escape : Char)
  deriving DecidableEq, Repr

def TagError.message : TagError → String
  | .keySyntax position => "bad syntax for struct tag key at byte " ++ toString position
  | .missingColon key => "bad syntax for struct tag pair `" ++ key ++ "`: missing `:`"
  | .missingQuote key =>
    "bad syntax for struct tag value of `" ++ key ++ "`: expected a quoted string"
  | .unterminatedValue key =>
    "bad syntax for struct tag value of `" ++ key ++ "`: unterminated string"
  | .invalidEscape key escape =>
    "invalid escape `\\" ++ escape.toString ++ "` in struct tag value of `" ++ key ++ "`"

/-- How a tag is read; a session can be given another reader than `StructTag.decode`. -/
abbrev TagDecoder := String → Except TagError (List TagParam)

namespace StructTag

def isKeyChar (c : Char) : Bool := ' ' < c && c != ':' && c != '"' && c != '\x7f'

/-- The text up to the closing quote, escapes untouched, and the text after that quote. -/
def scanBody : List Char → Option (List Char × List Char)
  | [] => none
  | '"' :: rest => some ([], rest)
  | '\\' :: c :: rest => (scanBody rest).map fun found => ('\\' :: c :: found.1, found.2)
  | c :: rest => (scanBody rest).map fun found => (c :: found.1, found.2)

def simpleEscape? : Char → Option Char
  | 'n' => some '\n'
  | 't' => some '\t'
  | 'r' => some '\r'
  | 'a' => some '\x07'
  | 'b' => some '\x08'
  | 'f' => some '\x0c'
  | 'v' => some '\x0b'
  | '\\' => some '\\'
  | '"' => some '"'
  | _ => none

/-- How many digits follow the letter of a numeric escape. -/
def hexWidth? : Char → Option Nat
  | 'x' => some 2
  | 'u' => some 4
  | 'U' => some 8
  | _ => none

def hexDigit? (c : Char) : Option Nat :=
  if '0' ≤ c ∧ c ≤ '9' then some (c.toNat - '0'.toNat)
  else if 'a' ≤ c ∧ c ≤ 'f' then some (c.toNat - 'a'.toNat + 10)
  else if 'A' ≤ c ∧ c ≤ 'F' then some (c.toNat - 'A'.toNat + 10)
  else none

/-- The number written by the digits, most significant first. -/
def hexValue? (acc : Nat) : List Char → Option Nat
  | [] => some acc
  | c :: rest => (hexDigit? c).bind fun d => hexValue? (acc * 16 + d) rest

/-- The character of a code point, which surrogates and numbers past the last plane have not. -/
def scalar? (n : Nat) : Option Char := if n.isValidChar then some (Char.ofNat n) else none

def hexChar? (width : Nat) (cs : List Char) : Option Char :=
  if cs.length < width then none else (hexValue? 0 (cs.take width)).bind scalar?

/-- The body with its escapes replaced, or the letter of the first escape that denotes nothing. -/
def unquote : List Char → Except Char (List Char)
  | [] => .ok []
  | ['\\'] => .error '\\'
  | '\\' :: escape :: rest =>
    match simpleEscape? escape with
    | some c => (unquote rest).map (c :: ·)
    | none =>
      match (hexWidth? escape).bind fun width => (hexChar? width rest).map (width, ·) with
      | some (width, c) => (unquote (rest.drop width)).map (c :: ·)
      | none => .error escape
  | c :: rest => (unquote rest).map (c :: ·)
termination_by cs => cs.length
decreasing_by all_goals simp <;> omega

end StructTag

/-- A value is cut at every comma; the first piece is the value proper, the others are options. -/
def TagParam.ofText (name : String) (text : List Char) : TagParam :=
  match Text.splitAt ',' text with
  | [] => ⟨name, "", []⟩
  | value :: options => ⟨name, String.ofList value, options.map String.ofList⟩

namespace StructTag

/-- The pair at the front of `cs`, its length in bytes and the text after it. The text starts at
byte `position` of the tag. -/
def readPair (position : Nat) (cs : List Char) : Except TagError (TagParam × Nat × List Char) :=
  let key := cs.takeWhile isKeyChar
  let name := String.ofList key
  if key.isEmpty then .error (.keySyntax position)
  else
    match cs.dropWhile isKeyChar with
    | ':' :: '"' :: value =>
      match scanBody value with
      | none => .error (.unterminatedValue name)
      | some (body, rest) =>
        match unquote body with
        | .error escape => .error (.invalidEscape name escape)
        | .ok text =>
          .ok (TagParam.ofText name text, Text.byteLength key + 2 + Text.byteLength body + 1, rest)
    | ':' :: _ => .error (.missingQuote name)
    | _ => .error (.missingColon name)

/-- The body and the rest are the text around the first closing quote. -/
theorem eq_of_scanBody {cs body rest : List Char} (h : scanBody cs = some (body, rest)) :
    cs = body ++ '"' :: rest := by
  fun_induction scanBody cs generalizing body with
  | case1 => simp at h
  | case2 r => simp at h; simp [h]
  | case3 c r ih =>
    obtain ⟨found, hf, he⟩ := Option.map_eq_some_iff.1 h
    obtain ⟨rfl, rfl⟩ := Prod.mk.injEq .. ▸ he
    simp [ih hf]
  | case4 c r _ _ ih =>
    obtain ⟨found, hf, he⟩ := Option.map_eq_some_iff.1 h
    obtain ⟨rfl, rfl⟩ := Prod.mk.injEq .. ▸ he
    simp [ih hf]

theorem length_lt_of_readPair {position size : Nat} {cs rest : List Char} {p : TagParam}
    (h : readPair position cs = .ok (p, size, rest)) : rest.length < cs.length := by
  have hd : (cs.dropWhile isKeyChar).length ≤ cs.length := (List.dropWhile_sublist _).length_le
  simp only [readPair] at h
  split at h
  · simp at h
  split at h
  next value hv =>
    split at h
    · simp at h
    next body after hs =>
      split at h
      · simp at h
      · have := congrArg List.length (eq_of_scanBody hs)
        simp only [List.length_append, List.length_cons] at this
        rw [hv] at hd
        simp only [List.length_cons] at hd
        simp only [Except.ok.injEq, Prod.mk.injEq] at h
        obtain ⟨-, -, rfl⟩ := h
        omega
  · simp at h
  · simp at h

/-- The pairs of a text that starts at byte `position` of the tag. -/
def decodeFrom (position : Nat) (cs : List Char) : Except TagError (List TagParam) :=
  let rest := cs.dropWhile (· == ' ')
  if rest.isEmpty then .ok []
  else
    let start := position + (cs.takeWhile (· == ' ')).length
    match _read : readPair start rest with
    | .error e => .error e
    | .ok (p, size, after) => (decodeFrom (start + size) after).map (p :: ·)
termination_by cs.length
decreasing_by
  have := length_lt_of_readPair _read
  have : rest.length ≤ cs.length := (List.dropWhile_sublist _).length_le
  omega

def decode : TagDecoder := fun raw => decodeFrom 0 raw.toList

end StructTag

/-- The tag of a field: without text there is nothing to read; of a repeated key the first
parameter is kept. -/
def Tag.read (decoder : TagDecoder) (raw : String) : Except TagError Tag :=
  if raw.isEmpty then .ok ⟨raw, []⟩
  else (decoder raw).map fun params => params.foldl Tag.push ⟨raw, []⟩

end GoPackages
