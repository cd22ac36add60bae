import GoPackages.Analysis.Initializer

/-!
Recording the declarations of a file: types, variables and constants, functions and methods. A
declaration that fails keeps what it recorded before.
-/
namespace GoPackages

open Source (TypeExpr Field InterfaceElem ValueSpec TypeSpec FuncDecl GroupKind)

def declareKind (scope : FileScope) (name : String) (kind : TypeKind) : Analysis TypeId :=
  Analysis.ofRegistry (·.declare scope.package name kind)

def declareElems (scope : FileScope) (ty : TypeId) : List InterfaceElem → Analysis Unit
  | [] => return
  | .method name params results :: rest => do
    let method ← resolveMethod scope name [] none params results
    modify (·.withGraph fun g => (g.addInterfaceMethod ty name method).2)
    declareElems scope ty rest
  | .embedded _ :: _ => throw (.unsupported .embeddedInterface)
  | .union _ :: _ => throw (.unsupported .constraintUnion)

/-- The name stands for the reference of `type` from now on. An entry that the package had for the
name, made by an earlier use, becomes an alias of that reference. -/
def declareAlias (scope : FileScope) (name : String) (type : TypeExpr) : Analysis Unit := do
  let target ← resolveType scope type
  let reg ← get
  match reg.ref? scope.package name with
  | none => set (reg.register scope.package name target)
  | some existing =>
    match reg.graph.aliasTo? existing target with
    | none => throw (.unsupported .recursiveAlias)
    | some graph => set ({ reg with graph }.register scope.package name target)

def declareTypeSpec (scope : FileScope) (groupDoc : Option Doc) (spec : TypeSpec) :
    Analysis Unit := do
  let doc := (spec.doc.or groupDoc).getD []
  let scope ← scope.withTypeParams (Source.declaredNames spec.typeParams)
  if spec.isAlias then
    declareAlias scope spec.name spec.type
  else
    match spec.type with
    | .struct fields =>
      let ty ← declareKind scope spec.name (.struct { doc })
      resolveFields scope ty fields
    | .interface elems =>
      let ty ← declareKind scope spec.name (.interface { doc })
      declareElems scope ty elems
    | _ => discard (declareKind scope spec.name .base)

/-- The type of the value at `index`: the declared one, or that of the initializer in its place,
or else that of the first initializer. -/
def valueType (scope : FileScope) (declared : Option RefId) (source : ValueSpec) (index : Nat) :
    Analysis (Option RefId) :=
  match declared with
  | some r => return some r
  | none =>
    match source.values[index]?.or source.values.head? with
    | some value => inferType scope value
    | none => return none

def declareVariable (scope : FileScope) (kind : GroupKind) (v : Variable) : Analysis Unit :=
  modify (·.modifyPackage scope.package fun p =>
    if kind = .consts then p.declareConstant v else p.declareVariable v)

/-- Declares the names from `index` on; the blank name declares nothing. -/
def declareNames (scope : FileScope) (kind : GroupKind) (doc : Doc) (declared : Option RefId)
    (source : ValueSpec) (index : Nat) : List String → Analysis Unit
  | [] => return
  | name :: rest => do
    if name ≠ "_" then
      let type ← valueType scope declared source index
      declareVariable scope kind { name, type, doc }
    declareNames scope kind doc declared source (index + 1) rest

/-- Declares the names of `spec` with the type and the initializers of `source`. -/
def declareValueSpec (scope : FileScope) (kind : GroupKind) (groupDoc : Option Doc)
    (spec source : ValueSpec) : Analysis Unit := do
  let declared ← source.type.mapM (resolveType scope)
  let doc := (spec.doc.or groupDoc).getD []
  declareNames scope kind doc declared source 0 spec.names

def repeatsPrevious (kind : GroupKind) (spec : ValueSpec) : Bool :=
  kind = .consts && spec.type.isNone && spec.values.isEmpty

/-- The line that a line takes its type and initializers from. -/
def valueSource (kind : GroupKind) (previous : Option ValueSpec) (spec : ValueSpec) : ValueSpec :=
  if repeatsPrevious kind spec then previous.getD spec else spec

/-- The names that the instantiation of a receiver type binds. -/
def receiverTypeParams : TypeExpr → List String
  | .pointer inner => receiverTypeParams (inner ())
  | .paren inner => receiverTypeParams (inner ())
  | .named _ args => args.filterMap fun arg =>
    match arg () with
    | .named name _ => some name
    | _ => none
  | _ => []

/-- All type parameters of a function, those bound by its receiver last. -/
def typeParamNames (decl : FuncDecl) : List String :=
  Source.declaredNames decl.typeParams ++
    (decl.receiver.map fun field => receiverTypeParams (field.type ())).getD []

def resolveReceiver (scope : FileScope) (field : Field) : Analysis Argument := do
  return ⟨field.names.headD "", ← resolveType scope (field.type ())⟩

/-- Methods belong to the name of their receiver, functions to their package. -/
def declareFunc (scope : FileScope) (decl : FuncDecl) : Analysis Unit := do
  let scope ← scope.withTypeParams (typeParamNames decl)
  let receiver ← decl.receiver.mapM (resolveReceiver scope)
  let method ← resolveMethod scope decl.name (decl.doc.getD []) receiver decl.params decl.results
  match receiver with
  | some owner => modify (·.withGraph fun g => (g.addMethod owner.type method).2)
  | none => modify (·.modifyPackage scope.package (·.declareFunction decl.name method))

end GoPackages
