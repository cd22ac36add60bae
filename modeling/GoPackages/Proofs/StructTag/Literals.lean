import GoPackages.Analysis.TypeRef
import GoPackages.Proofs.StructTag.RoundTrip

/-!
# Tags in the two forms of literals

A tag is written as a raw literal or as an interpreted one. Of both forms only the delimiters are
taken off, and nobody replaces the escapes of the interpreted form. So the forms agree where
there is nothing to escape, and every tag with a parameter can only be written as a raw literal.
-/
namespace GoPackages

namespace Source

def rawLiteral (text : String) : String := String.ofList ('\x60' :: (text.toList ++ ['\x60']))

/-- A text between double quotes, with a backslash before every backslash and double quote. -/
def interpretedLiteral (text : String) : String := String.ofList (Text.quote text.toList)

theorem literalValue_rawLiteral (text : String) : literalValue (rawLiteral text) = text := by
  rw [literalValue, rawLiteral, String.toList_ofList, stripDelimiters_quote rfl,
    String.ofList_toList]

theorem literalValue_interpretedLiteral (text : String) :
    literalValue (interpretedLiteral text) = String.ofList (Text.escape text.toList) := by
  rw [literalValue, interpretedLiteral, String.toList_ofList, Text.quote,
    stripDelimiters_quote rfl]

theorem literalValue_forms_iff (text : String) :
    literalValue (rawLiteral text) = literalValue (interpretedLiteral text) ↔
      '"' ∉ text.toList ∧ '\\' ∉ text.toList := by
  rw [literalValue_rawLiteral, literalValue_interpretedLiteral, ← String.toList_inj,
    String.toList_ofList, eq_comm, Text.escape_eq_self_iff]

end Source

namespace StructTag

theorem guarded_escape (cs : List Char) : Guarded (Text.escape cs) := by
  rw [← items_written]
  exact guarded_items _

theorem not_guarded_quote (cs : List Char) : ¬Guarded ('"' :: cs) := by
  intro h
  cases h with
  | plain _ hq _ => exact hq rfl

theorem not_guarded_colon_quote (before after : List Char) :
    ¬Guarded (before ++ ':' :: '"' :: after) := by
  intro h
  generalize hcs : before ++ ':' :: '"' :: after = cs at h
  induction h generalizing before with
  | nil => simp at hcs
  | plain hb hq hrest ih =>
    cases before with
    | nil =>
      obtain ⟨-, rfl⟩ := List.cons.inj hcs
      exact not_guarded_quote _ hrest
    | cons c before => exact ih before (List.cons.inj hcs).2
  | escape hrest ih =>
    -- the backslash may guard the colon, and the quote is bare all the same
    match before, hcs with
    | [], hcs => exact absurd (List.cons.inj hcs).1 (by decide)
    | [_], hcs =>
      obtain ⟨-, rfl⟩ := List.cons.inj (List.cons.inj hcs).2
      exact not_guarded_quote _ hrest
    | _ :: _ :: before, hcs => exact ih before (List.cons.inj (List.cons.inj hcs).2).2

theorem spaces_of_decode_escape {text : String} {params : List TagParam}
    (h : decode (String.ofList (Text.escape text.toList)) = .ok params) :
    params = [] ∧ ∃ n, text.toList = spaces n := by
  rw [decode, String.toList_ofList] at h
  rcases decodeFrom_eq_ok_iff.mp h with ⟨n, hn, rfl⟩ | ⟨n, p, _, rest, _, hp, -⟩
  · obtain ⟨k, -, hk⟩ := List.sublist_replicate_iff.mp (hn ▸ Text.sublist_escape text.toList)
    exact ⟨rfl, k, hk⟩
  · have hguarded := guarded_escape text.toList
    have hcolon : spaces n ++ (p.written ++ rest) =
        (spaces n ++ p.key) ++ ':' :: '"' :: (p.body.flatMap Item.written ++ '"' :: rest) := by
      simp [Pair.written]
    rw [hp, hcolon] at hguarded
    exact absurd hguarded (not_guarded_colon_quote _ _)

theorem readPair_of_no_quote {key cs : List Char} (hne : key ≠ [])
    (hkey : ∀ c ∈ key, IsKeyChar c) (hcs : cs.head? ≠ some '"') (position : Nat) :
    readPair position (key ++ ':' :: cs) = .error (.missingQuote (String.ofList key)) := by
  obtain ⟨htake, hdrop⟩ := span_key hkey cs
  have hempty : key.isEmpty = false := by simpa using hne
  rw [readPair]
  simp only [htake, hdrop, hempty]
  cases cs with
  | nil => rfl
  | cons c cs =>
    have hc : c ≠ '"' := by simpa using hcs
    simp [hc]

theorem escape_key_chars {key : List Char} (hkey : ∀ c ∈ key, IsKeyChar c) :
    ∀ c ∈ Text.escape key, IsKeyChar c := by
  intro c hc
  obtain ⟨d, hd, hc⟩ := List.mem_flatMap.mp hc
  split at hc
  · rcases List.mem_cons.mp hc with rfl | hc
    · decide
    · exact List.mem_singleton.mp hc ▸ hkey d hd
  · exact List.mem_singleton.mp hc ▸ hkey d hd

theorem decode_escape_of_pair {text : String} {param : TagParam} {params : List TagParam}
    (h : decode text = .ok (param :: params)) :
    decode (String.ofList (Text.escape text.toList)) =
      .error (.missingQuote (String.ofList (Text.escape param.name.toList))) := by
  rcases decodeFrom_eq_ok_iff.mp h with ⟨_, _, hne⟩ | ⟨n, p, _, rest, _, hp, hgives, -, heq⟩
  · cases hne
  obtain ⟨rfl, -⟩ := List.cons.inj heq
  let after := p.body.flatMap Item.written ++ '"' :: rest
  have hescaped : Text.escape (p.written ++ rest) =
      Text.escape p.key ++ ':' :: '\\' :: '"' :: Text.escape after := by
    have hsplit : p.written ++ rest = p.key ++ ':' :: '"' :: after := by
      simp [after, Pair.written]
    simp [hsplit, Text.escape_append, Text.escape_cons]
  have hkey : Text.escape p.key ≠ [] := by
    intro hnil
    exact p.key_ne_nil (List.sublist_nil.mp (hnil ▸ Text.sublist_escape p.key))
  have hguarded : ('\\' :: '"' :: Text.escape after).head? ≠ some '"' := by simp
  have hread := readPair_of_no_quote hkey (escape_key_chars p.key_chars) hguarded (0 + n)
  have hhead := head?_key hkey (escape_key_chars p.key_chars)
    (':' :: '\\' :: '"' :: Text.escape after)
  rw [hgives.name, decode, String.toList_ofList, hp, Text.escape_append, Text.escape_spaces,
    hescaped, decodeFrom_spaces 0 n hhead, hread]
  simp

end StructTag

namespace Tag

@[simp] theorem raw_foldl_push (params : List TagParam) (t : Tag) :
    (params.foldl push t).raw = t.raw := by
  induction params generalizing t with
  | nil => rfl
  | cons param params ih => rw [List.foldl_cons, ih, raw_push]

theorem raw_of_read {decoder : TagDecoder} {raw : String} {tag : Tag}
    (h : read decoder raw = .ok tag) : tag.raw = raw := by
  unfold read at h
  split at h
  · obtain rfl := Except.ok.inj h
    rfl
  · cases hd : decoder raw with
    | error cause => rw [hd] at h; cases h
    | ok params =>
      rw [hd] at h
      obtain rfl := Except.ok.inj h
      exact raw_foldl_push params _

theorem read_decode (raw : String) :
    read StructTag.decode raw =
      (StructTag.decode raw).map fun params => params.foldl push ⟨raw, []⟩ := by
  unfold read
  split
  next h =>
    obtain rfl : raw = "" := by simpa using h
    rw [show StructTag.decode "" = .ok [] from StructTag.decode_blank 0]
    rfl
  · rfl

end Tag

namespace FileScope

variable {scope : FileScope} {literal text : String}

/-- The outcome names the text it was read from, as part of the tag or of the error. -/
theorem readTag_cases (scope : FileScope) (literal : String) :
    (∃ tag : Tag, tag.raw = Source.literalValue literal ∧
      scope.readTag (some literal) = pure tag) ∨
    ∃ cause, scope.readTag (some literal) = throw (.tag (Source.literalValue literal) cause) := by
  cases hread : Tag.read scope.decodeTag (Source.literalValue literal) with
  | ok tag => exact .inl ⟨tag, Tag.raw_of_read hread, by simp only [readTag, hread]⟩
  | error cause => exact .inr ⟨cause, by simp only [readTag, hread]⟩

theorem readTag_inj {literal' : String} {reg : Registry}
    (h : scope.readTag (some literal) reg = scope.readTag (some literal') reg) :
    Source.literalValue literal = Source.literalValue literal' := by
  rcases scope.readTag_cases literal with ⟨tag, htag, hread⟩ | ⟨cause, hread⟩
  · rcases scope.readTag_cases literal' with ⟨tag', htag', hread'⟩ | ⟨cause', hread'⟩
    · rw [hread, hread'] at h
      obtain ⟨rfl, -⟩ := EStateM.Result.ok.inj h
      exact htag.symm.trans htag'
    · rw [hread, hread'] at h
      cases h
  · rcases scope.readTag_cases literal' with ⟨tag', htag', hread'⟩ | ⟨cause', hread'⟩
    · rw [hread, hread'] at h
      cases h
    · rw [hread, hread'] at h
      obtain ⟨herror, -⟩ := EStateM.Result.error.inj h
      exact (Error.tag.inj herror).1

theorem readTag_decode (h : scope.decodeTag = StructTag.decode) (literal : String) :
    scope.readTag (some literal) =
      match StructTag.decode (Source.literalValue literal) with
      | .ok params => pure (params.foldl Tag.push ⟨Source.literalValue literal, []⟩)
      | .error cause => throw (.tag (Source.literalValue literal) cause) := by
  simp only [readTag, h, Tag.read_decode]
  cases StructTag.decode (Source.literalValue literal) with
  | ok params => rfl
  | error cause => rfl

theorem readTag_congr {literal' : String}
    (h : Source.literalValue literal = Source.literalValue literal') :
    scope.readTag (some literal) = scope.readTag (some literal') := by
  simp only [readTag, h]

end FileScope

section Forms

variable {scope : FileScope}

theorem readTag_interpreted_iff (h : scope.decodeTag = StructTag.decode) (text : String) :
    (∃ tag, scope.readTag (some (Source.interpretedLiteral text)) = pure tag) ↔
      ∃ n, text.toList = StructTag.spaces n := by
  rw [FileScope.readTag_decode h, Source.literalValue_interpretedLiteral]
  constructor
  · rintro ⟨tag, htag⟩
    split at htag
    next hparams => exact (StructTag.spaces_of_decode_escape hparams).2
    next => cases congrFun htag default
  · rintro ⟨n, hn⟩
    rw [hn, Text.escape_spaces, StructTag.decode_blank]
    exact ⟨_, rfl⟩

theorem readTag_forms_of_pair (h : scope.decodeTag = StructTag.decode) {text : String}
    {param : TagParam} {params : List TagParam}
    (hread : StructTag.decode text = .ok (param :: params)) :
    scope.readTag (some (Source.rawLiteral text)) =
        pure ((param :: params).foldl Tag.push ⟨text, []⟩) ∧
      scope.readTag (some (Source.interpretedLiteral text)) =
        throw (.tag (String.ofList (Text.escape text.toList))
          (.missingQuote (String.ofList (Text.escape param.name.toList)))) := by
  constructor
  · rw [FileScope.readTag_decode h, Source.literalValue_rawLiteral, hread]
  · rw [FileScope.readTag_decode h, Source.literalValue_interpretedLiteral,
      StructTag.decode_escape_of_pair hread]

end Forms

/-- The two forms of a tag are read alike exactly where there is nothing to escape, and there
fields are translated alike. Under the conventional decoder a tag with a parameter is read from
its raw form and refused in its interpreted form, in which nothing but spaces is read. -/
theorem literal_forms_agree_iff (scope : FileScope) (text : String) :
    (∀ reg, scope.readTag (some (Source.rawLiteral text)) reg =
        scope.readTag (some (Source.interpretedLiteral text)) reg ↔
      '"' ∉ text.toList ∧ '\\' ∉ text.toList) ∧
    ('"' ∉ text.toList → '\\' ∉ text.toList → ∀ ty names type doc rest,
      resolveFields scope ty (⟨names, type, some (Source.rawLiteral text), doc⟩ :: rest) =
        resolveFields scope ty
          (⟨names, type, some (Source.interpretedLiteral text), doc⟩ :: rest)) ∧
    (scope.decodeTag = StructTag.decode →
      ((∃ tag, scope.readTag (some (Source.interpretedLiteral text)) = pure tag) ↔
        ∃ n, text.toList = StructTag.spaces n) ∧
      ∀ param params, StructTag.decode text = .ok (param :: params) →
        scope.readTag (some (Source.rawLiteral text)) =
          pure ((param :: params).foldl Tag.push ⟨text, []⟩) ∧
        scope.readTag (some (Source.interpretedLiteral text)) =
          throw (.tag (String.ofList (Text.escape text.toList))
            (.missingQuote (String.ofList (Text.escape param.name.toList))))) := by
  have hforms := Source.literalValue_forms_iff text
  refine ⟨?_, ?_, ?_⟩
  · intro reg
    constructor
    · intro h
      exact hforms.mp (FileScope.readTag_inj h)
    · intro h
      exact congrFun (FileScope.readTag_congr (hforms.mpr h)) reg
  · intro hquote hbackslash ty names type doc rest
    rw [resolveFields, resolveFields, FileScope.readTag_congr (hforms.mpr ⟨hquote, hbackslash⟩)]
  · intro hdecode
    constructor
    · exact readTag_interpreted_iff hdecode text
    · intro param params hread
      exact readTag_forms_of_pair hdecode hread

def bareScope : FileScope := { package := ⟨0⟩, decodeTag := StructTag.decode }

def idTag : String := "json:\"id\""

def idPair : StructTag.Pair where
  key := "json".toList
  key_ne_nil := by decide
  key_chars := by simp [StructTag.IsKeyChar]
  body := [.plain 'i' (by decide), .plain 'd' (by decide)]

theorem decode_idTag : StructTag.decode idTag = .ok [⟨"json", "id", []⟩] := by
  have hgives : idPair.Gives ⟨"json", "id", []⟩ := StructTag.Pair.gives_iff.mpr rfl
  have hwritten : (StructTag.Layout.mk [(0, idPair)] 0).written = idTag.toList := rfl
  rw [StructTag.decode, ← hwritten]
  exact StructTag.decodeFrom_written (.cons hgives .nil) 0 0

/-- Blank tags can be written in both forms, and the usual tag of a field only in one. -/
theorem idTag_is_read_from_raw :
    bareScope.readTag (some (Source.rawLiteral idTag)) =
      pure ⟨idTag, [⟨"json", "id", []⟩]⟩ ∧
    (∃ tag, bareScope.readTag (some (Source.interpretedLiteral " ")) = pure tag) ∧
    ∀ ty,
      resolveFields bareScope ty
          [⟨["A"], fun _ => .interface [], some (Source.rawLiteral " "), none⟩] =
        resolveFields bareScope ty
          [⟨["A"], fun _ => .interface [], some (Source.interpretedLiteral " "), none⟩] := by
  obtain ⟨-, -, hread⟩ := literal_forms_agree_iff bareScope idTag
  obtain ⟨-, hfields, hblank⟩ := literal_forms_agree_iff bareScope " "
  refine ⟨((hread rfl).2 _ _ decode_idTag).1, (hblank rfl).1.mpr ⟨1, rfl⟩, fun ty => ?_⟩
  exact hfields (by decide) (by decide) ty ["A"] _ none []

/-- The same tag in both forms is a tag in one and an error in the other. -/
theorem idTag_forms_differ :
    Source.rawLiteral idTag = "\x60json:\"id\"\x60" ∧
    Source.interpretedLiteral idTag = "\"json:\\\"id\\\"\"" ∧
    bareScope.readTag (some "\x60json:\"id\"\x60") = pure ⟨idTag, [⟨"json", "id", []⟩]⟩ ∧
    bareScope.readTag (some "\"json:\\\"id\\\"\"") =
      throw (.tag "json:\\\"id\\\"" (.missingQuote "json")) := by
  have hraw : Source.rawLiteral idTag = "\x60json:\"id\"\x60" := by decide
  have hinterpreted : Source.interpretedLiteral idTag = "\"json:\\\"id\\\"\"" := by decide
  have hdecode : bareScope.decodeTag = StructTag.decode := rfl
  obtain ⟨hread, hrefused⟩ := readTag_forms_of_pair hdecode decode_idTag
  rw [hraw] at hread
  rw [hinterpreted] at hrefused
  exact ⟨hraw, hinterpreted, hread, hrefused⟩

end GoPackages
