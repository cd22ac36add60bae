import GoPackages.Locator.FileSystem
import GoPackages.Locator.Path

/-!
A file system in memory: directories and files below a working directory, by the names on the way
to them. The ancestors of every entry are directories. Outside the working directory nothing is
known but that the directories above it exist.
-/
namespace GoPackages

structure FileTree where
  directories : List (List String) := []
  files : List (List String × ByteArray) := []

namespace FileTree

/-- Where a path leads from the working directory. -/
inductive Place where
  | inside (names : List String)
  | outside
  deriving DecidableEq, Repr

def isDirectoryAt (t : FileTree) (names : List String) : Bool :=
  names.isEmpty || t.directories.any (names.isPrefixOf ·) ||
    t.files.any fun file => names.isPrefixOf file.1 && names.length < file.1.length

def contentAt? (t : FileTree) (names : List String) : Option ByteArray :=
  (t.files.reverse.find? (·.1 == names)).map (·.2)

def isDirectoryPlace (t : FileTree) : Place → Bool
  | .inside names => t.isDirectoryAt names
  | .outside => true

def step? (t : FileTree) (place : Place) (piece : String) : Option Place :=
  if !t.isDirectoryPlace place then none
  else if piece = "" ∨ piece = "." then some place
  else
    match place with
    | .outside => if piece = ".." then some .outside else none
    | .inside names =>
      if piece = ".." then
        if names.isEmpty then some .outside else some (.inside names.dropLast)
      else if t.isDirectoryAt (names ++ [piece]) || (t.contentAt? (names ++ [piece])).isSome then
        some (.inside (names ++ [piece]))
      else none

/-- Where a path leads, if it leads anywhere. The empty path leads nowhere. -/
def place? (t : FileTree) (path : String) : Option Place :=
  if path.isEmpty then none
  else
    let start := if Path.isAbsolute path then Place.outside else .inside []
    (Text.split '/' path).foldlM t.step? start

def namesOf (path : String) : List String :=
  (Text.split '/' path).filter fun piece => piece ≠ "" ∧ piece ≠ "."

def addDirectory (t : FileTree) (path : String) : FileTree :=
  { t with directories := t.directories ++ [namesOf path] }

def addFile (t : FileTree) (path : String) (content : ByteArray) : FileTree :=
  { t with files := t.files ++ [(namesOf path, content)] }

/-- The names of the files directly inside a directory, each once. -/
def fileNamesAt (t : FileTree) (names : List String) : List String :=
  (t.files.filterMap fun file =>
    if file.1.dropLast = names then file.1.getLast? else none).eraseDups

def isDirectory (t : FileTree) (path : String) : Bool :=
  (t.place? path).any t.isDirectoryPlace

def fileNames (t : FileTree) (path : String) : List String :=
  match t.place? path with
  | some (.inside names) => t.fileNamesAt names
  | _ => []

def invalidText : String := "stream did not contain valid UTF-8"

/-- The text of a file, whose bytes must be valid UTF-8. -/
def readText (t : FileTree) (path : String) : Except ReadFailure String :=
  match t.place? path with
  | some (.inside names) =>
    match t.contentAt? names with
    | none => .error .notFound
    | some bytes =>
      match String.fromUTF8? bytes with
      | some text => .ok text
      | none => .error (.failed invalidText)
  | _ => .error .notFound

def fileSystem (t : FileTree) : FileSystem where
  isDirectory := t.isDirectory
  fileNames path := .ok (t.fileNames path)
  readText := t.readText

end FileTree

end GoPackages
