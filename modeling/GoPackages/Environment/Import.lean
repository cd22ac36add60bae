import GoPackages.Analysis.Declaration
import GoPackages.Environment.Basic

/-!
Analyzing files and packages, and importing packages by path or directory. An import without a
qualifier analyzes the imported package on the spot, in the middle of the importing file. Such
imports may lead back to a package that is still in progress, so the nesting is bounded by a depth
that the caller gives.
-/
namespace GoPackages

open Source (ImportSpec ImportName Spec Decl GroupKind SourceFile ValueSpec)

def analyzeSpec (scope : FileScope) (kind : GroupKind) (doc : Option Doc)
    (previous : Option ValueSpec) : Spec → Analysis (Option ValueSpec)
  | .importSpec _ => return previous
  | .typeSpec spec => do
    declareTypeSpec scope doc spec
    return previous
  | .valueSpec spec => do
    let source := valueSource kind previous spec
    declareValueSpec scope kind doc spec source
    return some source

/-- Locates and registers the package of an import and names it in the scope. `enter` analyzes a
package that is imported without a qualifier. -/
def importSpec (enter : PackageId → Session Unit) (scope : FileScope) (spec : ImportSpec) :
    Session FileScope := do
  let info ← Session.locate (Source.literalValue spec.path)
  let pkg ← Session.ensurePackage info
  match spec.name with
  | none =>
    let name := ((← Session.package? pkg).map (·.name)).getD info.name
    return { scope with aliases := scope.aliases.insert name pkg }
  | some (.named name) => return { scope with aliases := scope.aliases.insert name pkg }
  | some .dot =>
    enter pkg
    return if pkg ∈ scope.dotImports then scope
      else { scope with dotImports := scope.dotImports ++ [pkg] }
  | some .blank => return scope

/-- The specs of one group in order, and the scope after them. `previous` is the line that the next
constant line may repeat. -/
def analyzeSpecs (enter : PackageId → Session Unit) (kind : GroupKind) (doc : Option Doc) :
    FileScope → Option ValueSpec → List Spec → Session FileScope
  | scope, _, [] => return scope
  | scope, previous, .importSpec spec :: rest => do
    let scope ← importSpec enter scope spec
    analyzeSpecs enter kind doc scope previous rest
  | scope, previous, spec :: rest => do
    let previous ← Session.analyze (analyzeSpec scope kind doc previous spec)
    analyzeSpecs enter kind doc scope previous rest

def analyzeDecl (enter : PackageId → Session Unit) (scope : FileScope) :
    Decl → Session FileScope
  | .group kind doc specs => analyzeSpecs enter kind doc scope none specs
  | .func decl => do
    Session.analyze (declareFunc scope decl)
    return scope

/-- Analyzes a parsed file as part of a package. The documentation of the file is added first. -/
def analyzeFileWith (enter : PackageId → Session Unit) (pkg : PackageId) (file : SourceFile) :
    Session Unit := do
  let env ← get
  match env.builtin with
  | none => Session.fail .builtinNotFound
  | some builtin =>
    let dotImports := if pkg = builtin then [] else [builtin]
    let scope : FileScope := { package := pkg, decodeTag := env.tagDecoder, dotImports }
    Session.analyze (modify (·.modifyPackage pkg (·.appendDoc (file.doc.getD []))))
    discard (file.decls.foldlM (analyzeDecl enter) scope)

def announce (pkg : PackageId) (path : String) : Session FileAction := do
  let env ← get
  match env.listener, env.registry.package? pkg with
  | some listener, some p =>
    Session.tell pkg (.before p path)
    return listener.before env.heard p path
  | _, _ => return .proceed

/-- The listener's word on the outcome of a file. -/
def conclude (pkg : PackageId) (path : String) (outcome : Except Error Unit) : Session Unit := do
  let env ← get
  match env.listener, env.registry.package? pkg with
  | some listener, some p =>
    Session.tell pkg (.after p path outcome)
    Session.ofExcept (listener.after env.heard p path outcome)
  | _, _ => return

def visitFile (enter : PackageId → Session Unit) (pkg : PackageId) (path : String) :
    Session Unit := do
  match ← announce pkg path with
  | .skip => return
  | .abort e => Session.fail e
  | .proceed =>
    let outcome ← Session.attempt do
      let file ← Session.parse pkg path
      analyzeFileWith enter pkg file
    conclude pkg path outcome
    Session.ofExcept outcome

def visitFiles (enter : PackageId → Session Unit) (pkg : PackageId) : List String → Session Unit
  | [] => return
  | path :: rest => do
    visitFile enter pkg path
    visitFiles enter pkg rest

def isExplored (pkg : PackageId) : Session Bool := do
  return (← Session.package? pkg).any (·.explored)

/-- Visits all files of a package and marks it explored. -/
def explore (enter : PackageId → Session Unit) (pkg : PackageId) : Session Unit := do
  let files := ((← Session.package? pkg).map (·.files)).getD []
  visitFiles enter pkg files
  Session.analyze (modify (·.modifyPackage pkg (·.markExplored)))

/-- Analyzes a package unless it is explored. At most `depth` packages are in progress at once. -/
def analyzePackage : Nat → PackageId → Session Unit
  | 0, pkg => do
    if ← isExplored pkg then return else throw .tooDeep
  | depth + 1, pkg => do
    if ← isExplored pkg then return else explore (analyzePackage depth) pkg

/-- Analyzes a parsed file; packages that it imports without a qualifier may nest `depth` deep. -/
def analyzeFile (depth : Nat) (pkg : PackageId) (file : SourceFile) : Session Unit :=
  analyzeFileWith (analyzePackage depth) pkg file

/-- Imports the package of an import path. An explored package is not located again. -/
def importPackage (depth : Nat) (importPath : String) : Session PackageId := do
  let reg := (← get).registry
  match reg.byPath? importPath with
  | some pkg =>
    if (reg.package? pkg).any (·.explored) then return pkg else locateAndAnalyze
  | none => locateAndAnalyze
where
  locateAndAnalyze : Session PackageId := do
    let pkg ← Session.ensurePackage (← Session.locate importPath)
    analyzePackage depth pkg
    return pkg

def importDir (depth : Nat) (dir : String) : Session PackageId := do
  let pkg ← Session.ensurePackage (← Session.locateDir dir)
  analyzePackage depth pkg
  return pkg

end GoPackages
