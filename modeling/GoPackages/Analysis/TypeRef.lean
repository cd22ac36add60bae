import GoPackages.Source.Literal
import GoPackages.Analysis.Scope

/-!
The reference of a type expression. Decorators, maps, function types and structs written in place
are new entries at every occurrence; names are shared. The arguments of an instantiation take no
part.
-/
namespace GoPackages

open Source (TypeExpr Field)

def anonymousStructName : String := "struct\x7b...\x7d"

namespace FileScope

def readTag (scope : FileScope) : Option String → Analysis Tag
  | none => return default
  | some literal =>
    let raw := Source.literalValue literal
    match Tag.read scope.decodeTag raw with
    | .ok tag => return tag
    | .error cause => throw (.tag raw cause)

end FileScope

/-- One field for each name. A field without a name is embedded and named after its type. -/
def StructField.ofNames (names : List String) (typeName : String) (type : RefId) (tag : Tag)
    (doc : Doc) : List StructField :=
  if names.isEmpty then [{ name := typeName, type, tag, doc, embedded := true }]
  else names.map fun name => { name, type, tag, doc, embedded := false }

/-- One argument for each name, or a single one without a name. -/
def Argument.ofNames (names : List String) (type : RefId) : List Argument :=
  if names.isEmpty then [⟨"", type⟩] else names.map fun name => ⟨name, type⟩

mutual

def resolveType (scope : FileScope) (type : TypeExpr) : Analysis RefId :=
  match type with
  | .named name _ => scope.resolveName name
  | .selector base name _ => scope.resolveQualified (base ()) name
  | .pointer elem => do
    let inner ← resolveType scope (elem ())
    Analysis.ofGraph (·.decorate .pointer inner)
  | .array _ elem => do
    let inner ← resolveType scope (elem ())
    Analysis.ofGraph (·.decorate .array inner)
  | .slice elem => do
    let inner ← resolveType scope (elem ())
    Analysis.ofGraph (·.decorate .array inner)
  | .chan _ elem => do
    let inner ← resolveType scope (elem ())
    Analysis.ofGraph (·.decorate .channel inner)
  | .ellipsis elem => do
    let inner ← resolveType scope (elem ())
    Analysis.ofGraph (·.decorate .ellipsis inner)
  | .map key value => do
    let key ← resolveType scope (key ())
    let value ← resolveType scope (value ())
    Analysis.ofGraph (·.mapOf (some scope.package) key value)
  | .func params results => do
    let arguments ← resolveArguments scope params
    let results ← resolveArguments scope results
    let kind := .method { arguments, results }
    let ty ← Analysis.ofGraph (·.addType { name := "", package := some scope.package, kind })
    Analysis.ofGraph (·.fresh (some scope.package) "" ty)
  | .interface _ => return TypeGraph.emptyInterface
  | .struct fields => do
    let data := { name := anonymousStructName, package := some scope.package, kind := .struct {} }
    let ty ← Analysis.ofGraph (·.addType data)
    let r ← Analysis.ofGraph (·.fresh (some scope.package) anonymousStructName ty)
    resolveFields scope ty fields
    return r
  | .paren inner => resolveType scope (inner ())
  | .bad => throw .badTypeExpression
termination_by structural type

def resolveArguments (scope : FileScope) (fields : List Field) : Analysis (List Argument) :=
  match fields with
  | [] => return []
  | ⟨names, type, _, _⟩ :: rest => do
    let r ← resolveType scope (type ())
    return Argument.ofNames names r ++ (← resolveArguments scope rest)
termination_by structural fields

/-- Adds fields to a struct type one declaration after the other, so that a failure keeps the
fields before it. -/
def resolveFields (scope : FileScope) (ty : TypeId) (fields : List Field) : Analysis Unit :=
  match fields with
  | [] => return
  | ⟨names, type, tag, doc⟩ :: rest => do
    let r ← resolveType scope (type ())
    let tag ← scope.readTag tag
    modify (·.withGraph fun g =>
      g.addFields ty (StructField.ofNames names (g.refName r) r tag (doc.getD [])))
    resolveFields scope ty rest
termination_by structural fields

end

def resolveMethod (scope : FileScope) (name : String) (doc : Doc) (receiver : Option Argument)
    (params results : List Field) : Analysis TypeId := do
  let arguments ← resolveArguments scope params
  let results ← resolveArguments scope results
  let kind := .method { doc, receiver, arguments, results }
  Analysis.ofGraph (·.addType { name, package := some scope.package, kind })

end GoPackages
