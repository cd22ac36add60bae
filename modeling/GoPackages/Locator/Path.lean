import GoPackages.Text.Split

/-!
File paths as text. Joining never normalises: it sets one slash between the parts where there is
none. A prefix is stripped component by component; repeated slashes and inner single dots are no
components, a leading single dot is one.
-/
namespace GoPackages.Path

def isAbsolute (path : String) : Bool := path.toList.head? == some '/'

/-- The path `rest` seen from `base`. An absolute path is seen from nowhere else. -/
def join (base rest : String) : String :=
  if isAbsolute rest then rest
  else if base.isEmpty || base.toList.getLast? == some '/' then base ++ rest
  else base ++ "/" ++ rest

/-- How a path begins. -/
inductive Anchor where
  | root
  | here
  | none
  deriving DecidableEq, Repr

def Anchor.text : Anchor → String
  | .root => "/"
  | .here => "."
  | .none => ""

/-- The beginning of a path and the pieces of the rest between slashes. -/
def pieces (path : String) : Anchor × List (List Char) :=
  match path.toList with
  | '/' :: rest => (.root, Text.splitAt '/' rest)
  | ['.'] => (.here, [[]])
  | '.' :: '/' :: rest => (.here, [] :: Text.splitAt '/' rest)
  | cs => (.none, Text.splitAt '/' cs)

def isVoid (piece : List Char) : Bool := piece.isEmpty || piece == ['.']

def names (path : String) : List (List Char) := (pieces path).2.filter fun piece => !isVoid piece

/-- The pieces after the components `names`, where the pieces start with them. -/
def dropNames? : List (List Char) → List (List Char) → Option (List (List Char))
  | ps, [] => some ps
  | [], _ :: _ => none
  | p :: ps, name :: names =>
    if isVoid p then dropNames? ps (name :: names)
    else if p = name then dropNames? ps names
    else none

def dropTrailingVoid (ps : List (List Char)) : List (List Char) :=
  (ps.reverse.dropWhile isVoid).reverse

def trimEnd (ps : List (List Char)) : String :=
  String.ofList (Text.joinWith '/' (dropTrailingVoid ps))

/-- What is left of `path` after the components of `base`, where the path starts with them. -/
def stripPrefix? (base path : String) : Option String :=
  let (baseAnchor, _) := pieces base
  let (anchor, ps) := pieces path
  match baseAnchor, names base with
  | .none, [] => some (anchor.text ++ trimEnd ps)
  | _, baseNames =>
    if anchor = baseAnchor then
      (dropNames? ps baseNames).map fun rest => trimEnd (rest.dropWhile isVoid)
    else none

/-- The last name of a path without its last extension. A name that is all extension stays whole. -/
def stem (path : String) : String :=
  let name := (Text.split '/' path).getLastD path
  match Text.beforeLast? '.' name with
  | none | some "" => name
  | some stem => stem

example : join "r" "a/b" = "r/a/b" ∧ join "r/" "a" = "r/a" ∧ join "r" "" = "r/" := by decide
example : join "" "a" = "a" ∧ join "r" "/a" = "/a" := by decide

end GoPackages.Path
