/-!
The declarations of one source file as a tree: names, type expressions, parameter lists, tags and
documentation. Statement bodies are left out, and of initializers only the shapes are kept from
which a type can be read. The parts of types and expressions are delayed: a parser may share one
part among many, and a reader pays only for the parts that it asks for.
-/
namespace GoPackages

/-- Comment lines as written, markers included. -/
abbrev Doc := List String

namespace Source

inductive ChanDir where
  | both
  | send
  | receive
  deriving DecidableEq, Repr

inductive LiteralKind where
  | int
  | float
  | imaginary
  | rune
  | string
  deriving DecidableEq, Repr

inductive UnaryOp where
  | plus
  | minus
  | not
  | complement
  | dereference
  | address
  | receive
  deriving DecidableEq, Repr

/-- A part that is worked out when it is asked for. -/
abbrev Delayed (α : Type) : Type := Unit → α

mutual

/-- A type as written. -/
inductive TypeExpr where
  | named (name : String) (args : List (Delayed TypeExpr))
  | selector (base : Delayed Expr) (name : String) (args : List (Delayed TypeExpr))
  | pointer (elem : Delayed TypeExpr)
  | array (length : Delayed Expr) (elem : Delayed TypeExpr)
  | slice (elem : Delayed TypeExpr)
  /-- The type of a variadic parameter. -/
  | ellipsis (elem : Delayed TypeExpr)
  | map (key value : Delayed TypeExpr)
  | chan (dir : ChanDir) (elem : Delayed TypeExpr)
  | func (params results : List Field)
  | struct (fields : List Field)
  | interface (elems : List InterfaceElem)
  | paren (inner : Delayed TypeExpr)
  | bad

/-- A field of a struct or an entry of a parameter list. Several names share one type; an embedded
field or an unnamed parameter has none. -/
structure Field where
  names : List String
  type : Delayed TypeExpr
  tag : Option String
  doc : Option Doc

inductive InterfaceElem where
  | method (name : String) (params results : List Field)
  | embedded (type : Delayed TypeExpr)
  | union (terms : List TypeTerm)

structure TypeTerm where
  tilde : Bool
  type : Delayed TypeExpr

/-- An initializer or a qualifier as written. -/
inductive Expr where
  | ident (name : String)
  | literal (kind : LiteralKind) (text : String)
  /-- A composite literal, whose type may be elided. -/
  | composite (type : Option (Delayed TypeExpr))
  | selector (base : Delayed Expr) (name : String)
  | call (callee : Delayed Expr)
  | unary (op : UnaryOp) (operand : Delayed Expr)
  | paren (inner : Delayed Expr)
  | other (text : String)
  | bad

end

/-- How an import is named in its file. -/
inductive ImportName where
  | dot
  | blank
  | named (name : String)
  deriving DecidableEq, Repr

structure ImportSpec where
  doc : Option Doc
  name : Option ImportName
  path : String

structure ValueSpec where
  doc : Option Doc
  names : List String
  type : Option TypeExpr
  values : List Expr

structure TypeSpec where
  doc : Option Doc
  name : String
  typeParams : List Field
  type : TypeExpr
  isAlias : Bool

inductive Spec where
  | importSpec (spec : ImportSpec)
  | valueSpec (spec : ValueSpec)
  | typeSpec (spec : TypeSpec)

/-- The keyword of a declaration group. -/
inductive GroupKind where
  | imports
  | consts
  | types
  | vars
  deriving DecidableEq, Repr

structure FuncDecl where
  doc : Option Doc
  receiver : Option Field
  name : String
  typeParams : List Field
  params : List Field
  results : List Field

inductive Decl where
  | group (kind : GroupKind) (doc : Option Doc) (specs : List Spec)
  | func (decl : FuncDecl)

structure SourceFile where
  packageName : String
  doc : Option Doc
  decls : List Decl

def declaredNames (fields : List Field) : List String := fields.flatMap (·.names)

end Source

end GoPackages
