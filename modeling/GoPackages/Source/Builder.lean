import GoPackages.Source.File

/-!
Building a file node by node. A node is added after the nodes it refers to, and every name,
literal and comment is appended to the text on a line of its own, so spans taken earlier stay
right. A parameter list is given as it was read, before names without a type find their type.
-/
namespace GoPackages.Source

structure Builder where
  file : File := {}
  pendingDoc : Option CommentGroupId := none

abbrev BuildM := StateM Builder

/-- One group of a parameter list; a group of names alone belongs to the next type. -/
structure ParamGroup where
  names : List Ident
  type : Option TypeExprId
  deriving DecidableEq, Repr

namespace Builder

/-- Appends a line to the text; the span leaves out the line break. -/
def appendText (s : String) : BuildM Span := modifyGet fun b =>
  let start := b.file.text.utf8ByteSize
  let text := b.file.text ++ s
  (Span.ofPositions start text.utf8ByteSize,
    { b with file := { b.file with text := text ++ "\n" } })

def intern (s : String) : BuildM Symbol := modifyGet fun b =>
  let (symbol, symbols) := b.file.symbols.intern s
  (symbol, { b with file := { b.file with symbols := symbols } })

def ident (name : String) : BuildM Ident := do
  let span ← appendText name
  let symbol ← intern name
  return ⟨symbol, span⟩

def start (package : String) : Builder :=
  let (name, b) := (ident package).run {}
  { b with file := { b.file with name := name } }

def addType (node : TypeNode) : BuildM TypeExprId := modifyGet fun b =>
  (⟨b.file.types.size⟩, { b with file := { b.file with types := b.file.types.push node } })

def addExpr (node : ExprNode) : BuildM ExprId := modifyGet fun b =>
  (⟨b.file.exprs.size⟩, { b with file := { b.file with exprs := b.file.exprs.push node } })

def addField (node : FieldNode) : BuildM FieldId := modifyGet fun b =>
  (⟨b.file.fields.size⟩, { b with file := { b.file with fields := b.file.fields.push node } })

def modifyField (id : FieldId) (f : FieldNode → FieldNode) : BuildM Unit := modify fun b =>
  { b with file := { b.file with fields := b.file.fields.modify id.index f } }

def comment (line : String) : BuildM Comment := do
  let span ← appendText line
  return ⟨if line.startsWith "/*" then .block else .line, span⟩

def commentGroup (lines : List String) : BuildM CommentGroupId := do
  let comments ← lines.mapM comment
  modifyGet fun b =>
    let id := ⟨b.file.commentGroups.size⟩
    (id, { b with file :=
      { b.file with
        commentGroups := b.file.commentGroups.push comments
        comments := b.file.comments ++ [id] } })

def packageDoc (lines : List String) : BuildM Unit := do
  let group ← commentGroup lines
  modify fun b => { b with file := { b.file with doc := some group } }

def doc (lines : List String) : BuildM Unit := do
  let group ← commentGroup lines
  modify fun b => { b with pendingDoc := some group }

def literal (kind : LiteralKind) (raw : String) : BuildM ExprId := do
  let span ← appendText raw
  addExpr (.literal kind span)

def identExpr (name : String) : BuildM ExprId := do
  let name ← ident name
  addExpr (.ident name)

def selectorExpr (base : ExprId) (name : String) : BuildM ExprId := do
  let name ← ident name
  addExpr (.selector base name)

def composite (type : TypeExprId) : BuildM ExprId := addExpr (.composite (some type))

def unary (op : UnaryOp) (operand : ExprId) : BuildM ExprId := addExpr (.unary op operand)

def call (callee : ExprId) : BuildM ExprId := addExpr (.call callee)

def otherExpr (text : String) : BuildM ExprId := do
  let span ← appendText text
  addExpr (.other span)

def generic (name : String) (args : List TypeExprId) : BuildM TypeExprId := do
  let name ← ident name
  addType (.named name args)

def named (name : String) : BuildM TypeExprId := generic name []

def selectorType (base : ExprId) (name : String) : BuildM TypeExprId := do
  let name ← ident name
  addType (.selector base name [])

def qualified (package name : String) : BuildM TypeExprId := do
  let base ← identExpr package
  selectorType base name

def pointer (elem : TypeExprId) : BuildM TypeExprId := addType (.pointer elem)

def slice (elem : TypeExprId) : BuildM TypeExprId := addType (.slice elem)

def array (length : String) (elem : TypeExprId) : BuildM TypeExprId := do
  let length ← literal .int length
  addType (.array length elem)

def ellipsis (elem : TypeExprId) : BuildM TypeExprId := addType (.ellipsis elem)

def map (key value : TypeExprId) : BuildM TypeExprId := addType (.map key value)

def chan (dir : ChanDir) (elem : TypeExprId) : BuildM TypeExprId := addType (.chan dir elem)

def funcType (signature : SignatureId) : BuildM TypeExprId := addType (.func signature)

def structType (fields : List FieldId) : BuildM TypeExprId := addType (.struct fields)

def interfaceType (elems : List ElemNode) : BuildM TypeExprId := addType (.interface elems)

def paren (inner : TypeExprId) : BuildM TypeExprId := addType (.paren inner)

def badType : BuildM TypeExprId := do
  let span ← appendText "<bad>"
  addType (.bad span)

def field (names : List String) (type : TypeExprId) : BuildM FieldId := do
  let names ← names.mapM ident
  addField { names, type }

def taggedField (names : List String) (type : TypeExprId) (tag : String) : BuildM FieldId := do
  let id ← field names type
  let span ← appendText tag
  modifyField id fun f => { f with tag := some span }
  return id

def fieldDoc (id : FieldId) (lines : List String) : BuildM FieldId := do
  let group ← commentGroup lines
  modifyField id fun f => { f with doc := some group }
  return id

def typeParam (name : Ident) : BuildM FieldId := do
  let type ← addType (.named name [])
  addField { names := [], type }

/-- Names that wait for a type go before the names of the next typed group. Names that are still
waiting at the end are types themselves. -/
def mergeParams (waiting : List Ident) : List ParamGroup → BuildM (List FieldId)
  | [] => waiting.mapM typeParam
  | ⟨names, some type⟩ :: rest => do
    let id ← addField { names := waiting ++ names, type }
    let ids ← mergeParams [] rest
    return id :: ids
  | ⟨names, none⟩ :: rest => mergeParams (waiting ++ names) rest

def params (groups : List ParamGroup) : BuildM (List FieldId) := mergeParams [] groups

def signature (params results : List FieldId) : BuildM SignatureId := modifyGet fun b =>
  (⟨b.file.signatures.size⟩,
    { b with file := { b.file with signatures := b.file.signatures.push ⟨params, results⟩ } })

def methodElem (name : String) (signature : SignatureId) : BuildM ElemNode := do
  let name ← ident name
  return .method name signature

def declare (make : Option CommentGroupId → DeclNode) : BuildM Unit := modify fun b =>
  { file := { b.file with decls := b.file.decls ++ [make b.pendingDoc] }, pendingDoc := none }

def group (kind : GroupKind) (specs : List SpecNode) : BuildM Unit :=
  declare fun doc => .group kind doc specs

def importSpec (name : Option ImportNameNode) (path : String) : BuildM Unit := do
  let span ← appendText ("\"" ++ path ++ "\"")
  group .imports [.importSpec none name span]

def importPackage (path : String) : BuildM Unit := importSpec none path

def importAs (name path : String) : BuildM Unit := do
  let name ← ident name
  importSpec (some (.named name)) path

def importDot (path : String) : BuildM Unit := do
  let span ← appendText "."
  importSpec (some (.dot span)) path

def importBlank (path : String) : BuildM Unit := do
  let span ← appendText "_"
  importSpec (some (.blank span)) path

def typeSpec (name : String) (typeParams : List FieldId) (type : TypeExprId) (isAlias : Bool) :
    BuildM Unit := do
  let name ← ident name
  group .types [.typeSpec none name typeParams type isAlias]

def typeDecl (name : String) (type : TypeExprId) : BuildM Unit := typeSpec name [] type false

def aliasDecl (name : String) (type : TypeExprId) : BuildM Unit := typeSpec name [] type true

def genericTypeDecl (name : String) (typeParams : List FieldId) (type : TypeExprId) :
    BuildM Unit :=
  typeSpec name typeParams type false

def valueSpec (names : List String) (type : Option TypeExprId) (values : List ExprId) :
    BuildM SpecNode := do
  let names ← names.mapM ident
  return .valueSpec none names type values

def varDecl (names : List String) (type : Option TypeExprId) (values : List ExprId) :
    BuildM Unit := do
  let spec ← valueSpec names type values
  group .vars [spec]

def constDecl (names : List String) (type : Option TypeExprId) (values : List ExprId) :
    BuildM Unit := do
  let spec ← valueSpec names type values
  group .consts [spec]

def func (name : String) (signature : SignatureId) : BuildM Unit := do
  let name ← ident name
  declare fun doc => .func doc none name [] signature true

def method (receiverName : String) (receiverType : TypeExprId) (name : String)
    (signature : SignatureId) : BuildM Unit := do
  let receiver ← field [receiverName] receiverType
  let name ← ident name
  declare fun doc => .func doc (some receiver) name [] signature true

end Builder

end GoPackages.Source
