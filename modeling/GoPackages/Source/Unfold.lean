import GoPackages.Source.File

/-!
The tree of a file in arenas. A node that is named twice appears twice in the tree, and a node that
is missing reads as a bad one. No path through distinct nodes is longer than their number, which
bounds the depth; nodes that name each other in a circle are cut off below it.
-/
namespace GoPackages.Source.File

def nameOf (f : File) (name : Ident) : String := (f.nameOf? name).getD ""

def docOf (f : File) (group : Option CommentGroupId) : Option Doc := group.bind f.docLines?

def missingField : Field := { names := [], type := fun _ => .bad, tag := none, doc := none }

mutual

def typeTree (f : File) (depth : Nat) (id : TypeExprId) : TypeExpr :=
  match depth with
  | 0 => .bad
  | depth + 1 =>
    match f.types[id.index]? with
    | none | some (.bad _) => .bad
    | some (.named name args) =>
      .named (f.nameOf name) (args.map fun arg _ => typeTree f depth arg)
    | some (.selector base name args) =>
      .selector (fun _ => exprTree f depth base) (f.nameOf name)
        (args.map fun arg _ => typeTree f depth arg)
    | some (.pointer elem) => .pointer fun _ => typeTree f depth elem
    | some (.array length elem) =>
      .array (fun _ => exprTree f depth length) fun _ => typeTree f depth elem
    | some (.slice elem) => .slice fun _ => typeTree f depth elem
    | some (.ellipsis elem) => .ellipsis fun _ => typeTree f depth elem
    | some (.map key value) =>
      .map (fun _ => typeTree f depth key) fun _ => typeTree f depth value
    | some (.chan dir elem) => .chan dir fun _ => typeTree f depth elem
    | some (.func signature) =>
      .func (signatureTree f depth signature).1 (signatureTree f depth signature).2
    | some (.struct fields) => .struct (fields.map (fieldTree f depth))
    | some (.interface elems) => .interface (elems.map (elemTree f depth))
    | some (.paren inner) => .paren fun _ => typeTree f depth inner
termination_by structural depth

def exprTree (f : File) (depth : Nat) (id : ExprId) : Expr :=
  match depth with
  | 0 => .bad
  | depth + 1 =>
    match f.exprs[id.index]? with
    | none | some (.bad _) => .bad
    | some (.ident name) => .ident (f.nameOf name)
    | some (.literal kind span) => .literal kind ((f.textAt? span).getD "")
    | some (.composite type) => .composite (type.map fun type _ => typeTree f depth type)
    | some (.selector base name) => .selector (fun _ => exprTree f depth base) (f.nameOf name)
    | some (.call callee) => .call fun _ => exprTree f depth callee
    | some (.unary op operand) => .unary op fun _ => exprTree f depth operand
    | some (.paren inner) => .paren fun _ => exprTree f depth inner
    | some (.other span) => .other ((f.textAt? span).getD "")
termination_by structural depth

def fieldTree (f : File) (depth : Nat) (id : FieldId) : Field :=
  match depth with
  | 0 => missingField
  | depth + 1 =>
    match f.fields[id.index]? with
    | none => missingField
    | some node => {
        names := node.names.map f.nameOf
        type := fun _ => typeTree f depth node.type
        tag := node.tag.bind f.textAt?
        doc := f.docOf node.doc }
termination_by structural depth

def signatureTree (f : File) (depth : Nat) (id : SignatureId) : List Field × List Field :=
  match depth with
  | 0 => ([missingField], [])
  | depth + 1 =>
    match f.signatures[id.index]? with
    | none => ([missingField], [])
    | some node => (node.params.map (fieldTree f depth), node.results.map (fieldTree f depth))
termination_by structural depth

def elemTree (f : File) (depth : Nat) (elem : ElemNode) : InterfaceElem :=
  match depth with
  | 0 => .embedded fun _ => .bad
  | depth + 1 =>
    match elem with
    | .method name signature =>
      .method (f.nameOf name) (signatureTree f depth signature).1
        (signatureTree f depth signature).2
    | .embedded type => .embedded fun _ => typeTree f depth type
    | .union terms => .union (terms.map fun term => ⟨term.1, fun _ => typeTree f depth term.2⟩)
termination_by structural depth

end

/-- Each node on a path costs one step, and an interface element one more. -/
def depthBound (f : File) : Nat := 2 * f.nodeCount + 1

def type (f : File) (id : TypeExprId) : TypeExpr := f.typeTree f.depthBound id

def expr (f : File) (id : ExprId) : Expr := f.exprTree f.depthBound id

def field (f : File) (id : FieldId) : Field := f.fieldTree f.depthBound id

def signature (f : File) (id : SignatureId) : List Field × List Field :=
  f.signatureTree f.depthBound id

def importName (f : File) : ImportNameNode → ImportName
  | .dot _ => .dot
  | .blank _ => .blank
  | .named name => .named (f.nameOf name)

def spec (f : File) : SpecNode → Spec
  | .importSpec doc name path =>
    .importSpec {
      doc := f.docOf doc
      name := name.map f.importName
      path := (f.textAt? path).getD "" }
  | .valueSpec doc names type values =>
    .valueSpec {
      doc := f.docOf doc
      names := names.map f.nameOf
      type := type.map f.type
      values := values.map f.expr }
  | .typeSpec doc name typeParams type isAlias =>
    .typeSpec {
      doc := f.docOf doc
      name := f.nameOf name
      typeParams := typeParams.map f.field
      type := f.type type
      isAlias }

def decl (f : File) : DeclNode → Decl
  | .group kind doc specs => .group kind (f.docOf doc) (specs.map f.spec)
  | .func doc receiver name typeParams signature _ =>
    .func {
      doc := f.docOf doc
      receiver := receiver.map f.field
      name := f.nameOf name
      typeParams := typeParams.map f.field
      params := (f.signature signature).1
      results := (f.signature signature).2 }

def tree (f : File) : SourceFile where
  packageName := f.nameOf f.name
  doc := f.docOf f.doc
  decls := f.decls.map f.decl

end GoPackages.Source.File
