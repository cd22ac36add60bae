import GoPackages.Unicode.Alphanumeric
import GoPackages.Unicode.Blank

/-!
The package clause, which must be the first thing in a file once white space and comments are
skipped. The name is the longest run of letters, numbers and underscores after the keyword.
-/
namespace GoPackages.PackageClause

def afterBlock? : List Char → Option (List Char)
  | [] => none
  | '*' :: '/' :: rest => some rest
  | _ :: rest => afterBlock? rest

theorem length_lt_of_afterBlock? {cs rest : List Char} (h : afterBlock? cs = some rest) :
    rest.length < cs.length := by
  fun_induction afterBlock? cs with
  | case1 => simp at h
  | case2 r => simp only [Option.some.injEq] at h; subst h; simp only [List.length_cons]; omega
  | case3 _ r _ ih => have := ih h; simp only [List.length_cons]; omega

/-- The text without the white space and the comments at its front. A line comment ends before its
line break; a block comment that does not end takes all. -/
def skipTrivia (cs : List Char) : List Char :=
  match _front : cs.dropWhile Unicode.isBlank with
  | '/' :: '/' :: rest => skipTrivia (rest.dropWhile (· != '\n'))
  | '/' :: '*' :: rest =>
    match _body : afterBlock? rest with
    | some rest => skipTrivia rest
    | none => []
  | rest => rest
termination_by cs.length
decreasing_by
  · have h := (List.dropWhile_sublist Unicode.isBlank (l := cs)).length_le
    have := (List.dropWhile_sublist (· != '\n') (l := rest)).length_le
    rw [_front] at h
    simp at h
    omega
  · have h := (List.dropWhile_sublist Unicode.isBlank (l := cs)).length_le
    have := length_lt_of_afterBlock? _body
    rw [_front] at h
    simp at h
    omega

def isNameChar (c : Char) : Bool := Unicode.isAlphanumeric c || c == '_'

def afterKeyword? (cs : List Char) : Option (List Char) :=
  let keyword := "package".toList
  if keyword.isPrefixOf cs then some (cs.drop keyword.length) else none

/-- The name in the package clause. White space or a comment must set it apart from the keyword. -/
def name? (text : String) : Option String :=
  match afterKeyword? (skipTrivia text.toList) with
  | none => none
  | some rest =>
    let found := skipTrivia rest
    let name := found.takeWhile isNameChar
    if found.length = rest.length || name.isEmpty then none else some (String.ofList name)

end GoPackages.PackageClause
