import GoPackages.Environment.Basic

/-!
Packages held in memory: a locator and a parser that answer from a list. Both are functions of
their question alone.
-/
namespace GoPackages

/-- A package with its parsed files, or with the reason why one cannot be read. -/
structure WorkspacePackage where
  importPath : String
  name : String
  dir : String
  files : List (String × Except ReadFailure Source.SourceFile)
  /-- Other import paths under which the package is found. -/
  otherPaths : List String := []

def WorkspacePackage.filePath (p : WorkspacePackage) (name : String) : String :=
  p.dir ++ "/" ++ name

def WorkspacePackage.info (p : WorkspacePackage) : PackageInfo where
  name := p.name
  importPath := p.importPath
  dir := p.dir
  files := p.files.map fun file => p.filePath file.1

structure Workspace where
  packages : List WorkspacePackage := []

namespace Workspace

def find (w : Workspace) (asked : String) (found : WorkspacePackage → Bool) :
    Except Error PackageInfo :=
  match w.packages.find? found with
  | some p => .ok p.info
  | none => .error (.locate asked (.other "not in workspace"))

def locator (w : Workspace) : Locator where
  locate importPath _ :=
    w.find importPath fun p => p.importPath == importPath || p.otherPaths.contains importPath
  locateDir dir := w.find dir (·.dir == dir)

def files (w : Workspace) : List (String × Except ReadFailure Source.SourceFile) :=
  w.packages.flatMap fun p => p.files.map fun file => (p.filePath file.1, file.2)

def parser (w : Workspace) : SourceParser := fun path =>
  match w.files.lookup path with
  | some content => content.mapError (Error.ofRead path)
  | none => .error (.fileNotFound path)

end Workspace

end GoPackages
