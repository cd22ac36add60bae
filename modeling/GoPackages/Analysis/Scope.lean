import GoPackages.Registry.Basic

/-!
What a bare or qualified name means inside one file. A bare name is looked up among the type
parameters of the declaration, then in the package of the file, then in the packages imported
without a qualifier, in order. A name found nowhere is a name of the file's package, declared later
or never.
-/
namespace GoPackages

/-- A step of the analysis of a file: it changes the registry, also when it fails. -/
abbrev Analysis := EStateM Error Registry

/-- The names in scope at one place of a file. -/
structure FileScope where
  package : PackageId
  decodeTag : TagDecoder
  typeParams : List (String × RefId) := []
  /-- Packages imported without a qualifier, the predeclared names first. -/
  dotImports : List PackageId := []
  aliases : OrderedMap PackageId := {}

namespace Analysis

def ofRegistry {α : Type} (f : Registry → α × Registry) : Analysis α := modifyGet f

def ofGraph {α : Type} (f : TypeGraph → α × TypeGraph) : Analysis α := modifyGet (·.onGraph f)

end Analysis

namespace FileScope

/-- The reference of a bare name that is already known. -/
def known? (scope : FileScope) (reg : Registry) (name : String) : Option RefId :=
  match scope.typeParams.lookup name with
  | some r => some r
  | none => (scope.package :: scope.dotImports).findSome? (reg.ref? · name)

/-- The reference of a bare name. The blank name is no type. -/
def resolveName (scope : FileScope) (name : String) : Analysis RefId := do
  if name = "" ∨ name = "_" then
    throw (.typeNotFound name)
  else
    match scope.known? (← get) name with
    | some r => return r
    | none => return (← Analysis.ofRegistry (·.ensureRef scope.package name)).1

def resolveQualified (scope : FileScope) (base : Source.Expr) (name : String) :
    Analysis RefId :=
  match base with
  | .ident qualifier =>
    match scope.aliases.get? qualifier with
    | some pkg => return (← Analysis.ofRegistry (·.ensureRef pkg name)).1
    | none => throw (.aliasNotFound qualifier)
  | _ => throw (.unexpectedSelector name)

def newTypeParams (scope : FileScope) : List String → Analysis (List (String × RefId))
  | [] => return []
  | name :: names => do
    let data := { name, package := some scope.package, kind := .base }
    let ty ← Analysis.ofGraph (·.addType data)
    let r ← Analysis.ofGraph (·.fresh (some scope.package) name ty)
    return (name, r) :: (← newTypeParams scope names)

/-- The scope of a declaration with these type parameters and no others. -/
def withTypeParams (scope : FileScope) (names : List String) : Analysis FileScope := do
  return { scope with typeParams := ← scope.newTypeParams names }

end FileScope

end GoPackages
