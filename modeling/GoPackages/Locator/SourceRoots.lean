import GoPackages.Environment.Basic
import GoPackages.Locator.FileSystem
import GoPackages.Locator.PackageClause
import GoPackages.Locator.Path

/-!
Finding packages below source roots. An import path is the path of a directory below one of the
roots, which are tried in order; a local import is seen from the importing directory. The files of
a package are the source files directly inside its directory, tests left out, in order of their
names, and the first of them names the package.
-/
namespace GoPackages

structure SourceRoots where
  roots : List String
  deriving DecidableEq, Repr

/-- Paths that are seen from the importing directory. -/
def isLocalImport (importPath : String) : Bool :=
  importPath == "." || importPath == ".." || "./".toList.isPrefixOf importPath.toList ||
    "../".toList.isPrefixOf importPath.toList

def isSourceName (name : String) : Bool :=
  ".go".toList.isSuffixOf name.toList && !"_test.go".toList.isSuffixOf name.toList

def sortNames (names : List String) : List String := names.mergeSort fun a b => !decide (b < a)

namespace FileSystem

/-- The source files among the files of a directory as paths, in order of their names. -/
def sourceFiles (dir : String) (names : List String) : List String :=
  (sortNames (names.filter isSourceName)).map (Path.join dir)

def scan (fs : FileSystem) (importPath dir : String) : Except Error PackageInfo :=
  if fs.isDirectory dir then do
    let names ← (fs.fileNames dir).mapError fun reason => .locate importPath (.notListed reason)
    match sourceFiles dir names with
    | [] => .error (.locate importPath (.noSourceFiles dir))
    | first :: rest =>
      let text ← fs.read first
      match PackageClause.name? text with
      | none => .error (.locate importPath (.noPackageClause first))
      | some name => .ok { name, importPath, dir, files := first :: rest }
  else .error (.locate importPath (.notDirectory dir))

end FileSystem

namespace SourceRoots

/-- The roots of an installation and of a list of workspaces; the list is cut at its colons. -/
def ofVariables (installation workspaces : Option String) : SourceRoots :=
  let installed := (installation.filter fun dir => !dir.isEmpty).toList
  let listed := (workspaces.map (Text.split ':')).getD []
  ⟨(installed ++ listed).map fun dir => Path.join dir "src"⟩

def locate (s : SourceRoots) (fs : FileSystem) (importPath fromDir : String) :
    Except Error PackageInfo :=
  if isLocalImport importPath then fs.scan importPath (Path.join fromDir importPath)
  else
    match (s.roots.map fun root => Path.join root importPath).find? fs.isDirectory with
    | some dir => fs.scan importPath dir
    | none => .error (.locate importPath (.notInRoots s.roots.length))

/-- The import path of a directory: its path below the first root that holds it, with forward
slashes, or else its own path. -/
def importPathOf (s : SourceRoots) (dir : String) : String :=
  match s.roots.findSome? fun root => Path.stripPrefix? root dir with
  | none => dir
  | some rest =>
    if rest.isEmpty then dir
    else String.ofList (rest.toList.map fun c => if c = '\\' then '/' else c)

def locateDir (s : SourceRoots) (fs : FileSystem) (dir : String) : Except Error PackageInfo :=
  fs.scan (s.importPathOf dir) dir

def locator (s : SourceRoots) (fs : FileSystem) : Locator where
  locate := s.locate fs
  locateDir := s.locateDir fs

end SourceRoots

end GoPackages
