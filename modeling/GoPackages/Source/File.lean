import GoPackages.Source.Interner
import GoPackages.Source.Literal
import GoPackages.Source.Span
import GoPackages.Source.Tree
import GoPackages.Text.Bytes

/-!
A parsed file as a parser hands it over: the nodes stand in arenas and name each other by
position, identifiers are interned, and literals and comments are spans of one text.
-/
namespace GoPackages.Source

structure ExprId where
  index : Nat
  deriving DecidableEq, Repr

structure TypeExprId where
  index : Nat
  deriving DecidableEq, Repr

structure FieldId where
  index : Nat
  deriving DecidableEq, Repr

structure SignatureId where
  index : Nat
  deriving DecidableEq, Repr

structure CommentGroupId where
  index : Nat
  deriving DecidableEq, Repr

structure Ident where
  symbol : Symbol
  span : Span
  deriving DecidableEq, Repr

inductive CommentKind where
  | line
  | block
  deriving DecidableEq, Repr

structure Comment where
  kind : CommentKind
  span : Span
  deriving DecidableEq, Repr

/-- The node of an interface element; a union lists its terms with their tildes. -/
inductive ElemNode where
  | method (name : Ident) (signature : SignatureId)
  | embedded (type : TypeExprId)
  | union (terms : List (Bool × TypeExprId))
  deriving DecidableEq, Repr

/-- The node of a type expression. -/
inductive TypeNode where
  | named (name : Ident) (args : List TypeExprId)
  | selector (base : ExprId) (name : Ident) (args : List TypeExprId)
  | pointer (elem : TypeExprId)
  | array (length : ExprId) (elem : TypeExprId)
  | slice (elem : TypeExprId)
  | ellipsis (elem : TypeExprId)
  | map (key value : TypeExprId)
  | chan (dir : ChanDir) (elem : TypeExprId)
  | func (signature : SignatureId)
  | struct (fields : List FieldId)
  | interface (elems : List ElemNode)
  | paren (inner : TypeExprId)
  | bad (span : Span)
  deriving DecidableEq, Repr

/-- The node of an expression. -/
inductive ExprNode where
  | ident (name : Ident)
  | literal (kind : LiteralKind) (span : Span)
  | composite (type : Option TypeExprId)
  | selector (base : ExprId) (name : Ident)
  | call (callee : ExprId)
  | unary (op : UnaryOp) (operand : ExprId)
  | paren (inner : ExprId)
  | other (span : Span)
  | bad (span : Span)
  deriving DecidableEq, Repr

structure FieldNode where
  names : List Ident
  type : TypeExprId
  tag : Option Span := none
  doc : Option CommentGroupId := none
  comment : Option CommentGroupId := none
  deriving DecidableEq, Repr

structure SignatureNode where
  params : List FieldId
  results : List FieldId
  deriving DecidableEq, Repr

inductive ImportNameNode where
  | dot (span : Span)
  | blank (span : Span)
  | named (name : Ident)
  deriving DecidableEq, Repr

inductive SpecNode where
  | importSpec (doc : Option CommentGroupId) (name : Option ImportNameNode) (path : Span)
  | valueSpec (doc : Option CommentGroupId) (names : List Ident) (type : Option TypeExprId)
      (values : List ExprId)
  | typeSpec (doc : Option CommentGroupId) (name : Ident) (typeParams : List FieldId)
      (type : TypeExprId) (isAlias : Bool)
  deriving DecidableEq, Repr

inductive DeclNode where
  | group (kind : GroupKind) (doc : Option CommentGroupId) (specs : List SpecNode)
  | func (doc : Option CommentGroupId) (receiver : Option FieldId) (name : Ident)
      (typeParams : List FieldId) (signature : SignatureId) (hasBody : Bool)
  deriving DecidableEq, Repr

abbrev SymbolTable := Interner String.hash

structure File where
  exprs : Array ExprNode := #[]
  types : Array TypeNode := #[]
  fields : Array FieldNode := #[]
  signatures : Array SignatureNode := #[]
  commentGroups : Array (List Comment) := #[]
  symbols : SymbolTable := {}
  text : String := ""
  name : Ident := ⟨⟨0⟩, ⟨0, 0⟩⟩
  doc : Option CommentGroupId := none
  decls : List DeclNode := []
  comments : List CommentGroupId := []

namespace File

def textAt? (f : File) (span : Span) : Option String :=
  Text.slice? f.text span.start.toNat span.stop.toNat

def nameOf? (f : File) (name : Ident) : Option String := f.symbols.resolve? name.symbol

def packageName? (f : File) : Option String := f.nameOf? f.name

def literalValue? (f : File) (span : Span) : Option String := (f.textAt? span).map literalValue

def docLines? (f : File) (group : CommentGroupId) : Option Doc :=
  f.commentGroups[group.index]?.bind fun comments => comments.mapM fun c => f.textAt? c.span

/-- The number of nodes, which no path through the nodes exceeds. -/
def nodeCount (f : File) : Nat :=
  f.exprs.size + f.types.size + f.fields.size + f.signatures.size

end File

end GoPackages.Source
