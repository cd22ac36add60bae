import GoPackages.Proofs.Source.Methods

/-!
# Built files recover their texts

A file is built by a sequence of calls. Every text that a call is given is recovered from the node
that the call adds, in the finished file, whatever was called before it and is called after it.
What is handed to a call must come from earlier ones as far as it points into the text.
-/
namespace GoPackages.Source

open Builder

inductive Call where
  | ident (name : String)
  | commentGroup (lines : List String)
  | packageDoc (lines : List String)
  | doc (lines : List String)
  | literal (kind : LiteralKind) (raw : String)
  | identExpr (name : String)
  | selectorExpr (base : ExprId) (name : String)
  | composite (type : TypeExprId)
  | unary (op : UnaryOp) (operand : ExprId)
  | call (callee : ExprId)
  | otherExpr (text : String)
  | named (name : String)
  | generic (name : String) (args : List TypeExprId)
  | selectorType (base : ExprId) (name : String)
  | qualified (package name : String)
  | pointer (elem : TypeExprId)
  | slice (elem : TypeExprId)
  | array (length : String) (elem : TypeExprId)
  | ellipsis (elem : TypeExprId)
  | map (key value : TypeExprId)
  | chan (dir : ChanDir) (elem : TypeExprId)
  | funcType (signature : SignatureId)
  | structType (fields : List FieldId)
  | interfaceType (elems : List ElemNode)
  | paren (inner : TypeExprId)
  | badType
  | field (names : List String) (type : TypeExprId)
  | taggedField (names : List String) (type : TypeExprId) (tag : String)
  | fieldDoc (id : FieldId) (lines : List String)
  | params (groups : List ParamGroup)
  | signature (params results : List FieldId)
  | methodElem (name : String) (signature : SignatureId)
  | importPackage (path : String)
  | importAs (name path : String)
  | importDot (path : String)
  | importBlank (path : String)
  | typeDecl (name : String) (type : TypeExprId)
  | aliasDecl (name : String) (type : TypeExprId)
  | genericTypeDecl (name : String) (typeParams : List FieldId) (type : TypeExprId)
  | valueSpec (names : List String) (type : Option TypeExprId) (values : List ExprId)
  | varDecl (names : List String) (type : Option TypeExprId) (values : List ExprId)
  | constDecl (names : List String) (type : Option TypeExprId) (values : List ExprId)
  | group (kind : GroupKind) (specs : List SpecNode)
  | func (name : String) (signature : SignatureId)
  | method (receiverName : String) (receiverType : TypeExprId) (name : String)
      (signature : SignatureId)

/-- What a call hands out: a node or where it stands. -/
inductive Handle where
  | ident (i : Ident)
  | elem (node : ElemNode)
  | spec (node : SpecNode)
  | expr (id : ExprId)
  | type (id : TypeExprId)
  | field (id : FieldId)
  | fields (ids : List FieldId)
  | signature (id : SignatureId)
  | comments (id : CommentGroupId)
  | decl (index : Nat)

namespace Call

def commented {α : Type} (m : BuildM α) : BuildM Handle := do
  let _ ← m
  return .comments ⟨(← get).file.commentGroups.size - 1⟩

def declared (m : BuildM Unit) : BuildM Handle := do
  m
  return .decl ((← get).file.decls.length - 1)

def run : Call → BuildM Handle
  | .ident name => return .ident (← Builder.ident name)
  | .commentGroup lines => return .comments (← Builder.commentGroup lines)
  | .packageDoc lines => commented (Builder.packageDoc lines)
  | .doc lines => commented (Builder.doc lines)
  | .literal kind raw => return .expr (← Builder.literal kind raw)
  | .identExpr name => return .expr (← Builder.identExpr name)
  | .selectorExpr base name => return .expr (← Builder.selectorExpr base name)
  | .composite type => return .expr (← Builder.composite type)
  | .unary op operand => return .expr (← Builder.unary op operand)
  | .call callee => return .expr (← Builder.call callee)
  | .otherExpr text => return .expr (← Builder.otherExpr text)
  | .named name => return .type (← Builder.named name)
  | .generic name args => return .type (← Builder.generic name args)
  | .selectorType base name => return .type (← Builder.selectorType base name)
  | .qualified package name => return .type (← Builder.qualified package name)
  | .pointer elem => return .type (← Builder.pointer elem)
  | .slice elem => return .type (← Builder.slice elem)
  | .array length elem => return .type (← Builder.array length elem)
  | .ellipsis elem => return .type (← Builder.ellipsis elem)
  | .map key value => return .type (← Builder.map key value)
  | .chan dir elem => return .type (← Builder.chan dir elem)
  | .funcType sig => return .type (← Builder.funcType sig)
  | .structType fields => return .type (← Builder.structType fields)
  | .interfaceType elems => return .type (← Builder.interfaceType elems)
  | .paren inner => return .type (← Builder.paren inner)
  | .badType => return .type (← Builder.badType)
  | .field names type => return .field (← Builder.field names type)
  | .taggedField names type tag => return .field (← Builder.taggedField names type tag)
  | .fieldDoc id lines => commented (Builder.fieldDoc id lines)
  | .params groups => return .fields (← Builder.params groups)
  | .signature ins outs => return .signature (← Builder.signature ins outs)
  | .methodElem name sig => return .elem (← Builder.methodElem name sig)
  | .importPackage path => declared (Builder.importPackage path)
  | .importAs name path => declared (Builder.importAs name path)
  | .importDot path => declared (Builder.importDot path)
  | .importBlank path => declared (Builder.importBlank path)
  | .typeDecl name type => declared (Builder.typeDecl name type)
  | .aliasDecl name type => declared (Builder.aliasDecl name type)
  | .genericTypeDecl name typeParams type => declared (Builder.genericTypeDecl name typeParams type)
  | .valueSpec names type values => return .spec (← Builder.valueSpec names type values)
  | .varDecl names type values => declared (Builder.varDecl names type values)
  | .constDecl names type values => declared (Builder.constDecl names type values)
  | .group kind specs => declared (Builder.group kind specs)
  | .func name sig => declared (Builder.func name sig)
  | .method receiverName receiverType name sig =>
    declared (Builder.method receiverName receiverType name sig)

/-- What in the arguments of a call points into the text. -/
def marks : Call → List Mark
  | .interfaceType elems => elems.flatMap ElemNode.marks
  | .params groups => groups.flatMap fun g => nameMarks g.names
  | .group _ specs => specs.flatMap SpecNode.marks
  | _ => []

instance {α : Type} (m : BuildM α) [Appends m] : Appends (commented m) where
  later b := Appends.later (m := m) b
  name b := Appends.name (m := m) b

instance (m : BuildM Unit) [Appends m] : Appends (declared m) where
  later b := Appends.later (m := m) b
  name b := Appends.name (m := m) b

instance (c : Call) : Appends c.run := by
  cases c <;> unfold run <;> infer_instance

/-- The node that a call handed out is there with what the call was given, and the texts are
recovered from it. -/
def Recovers (f : File) : Call → Handle → Prop
  | .ident name, .ident i => f.Names i name
  | .commentGroup lines, .comments id | .packageDoc lines, .comments id | .doc lines, .comments id
  | .fieldDoc _ lines, .comments id => f.docLines? id = some lines
  | .literal kind raw, .expr id => ∃ span,
    f.exprs[id.index]? = some (.literal kind span) ∧ f.textAt? span = some raw
  | .otherExpr text, .expr id => ∃ span,
    f.exprs[id.index]? = some (.other span) ∧ f.textAt? span = some text
  | .identExpr name, .expr id => ∃ i, f.exprs[id.index]? = some (.ident i) ∧ f.Names i name
  | .selectorExpr base name, .expr id => ∃ i,
    f.exprs[id.index]? = some (.selector base i) ∧ f.Names i name
  | .named name, .type id => ∃ i, f.types[id.index]? = some (.named i []) ∧ f.Names i name
  | .generic name args, .type id => ∃ i,
    f.types[id.index]? = some (.named i args) ∧ f.Names i name
  | .selectorType base name, .type id => ∃ i,
    f.types[id.index]? = some (.selector base i []) ∧ f.Names i name
  | .qualified package name, .type id => ∃ base i j,
    f.exprs[base.index]? = some (.ident i) ∧ f.Names i package ∧
      f.types[id.index]? = some (.selector base j []) ∧ f.Names j name
  | .array length elem, .type id => ∃ e span, f.types[id.index]? = some (.array e elem) ∧
    f.exprs[e.index]? = some (.literal .int span) ∧ f.textAt? span = some length
  | .badType, .type id => ∃ span,
    f.types[id.index]? = some (.bad span) ∧ f.textAt? span = some "<bad>"
  | .field names type, .field id => ∃ node, f.fields[id.index]? = some node ∧
    node.type = type ∧ List.Forall₂ (fun s i => f.Names i s) names node.names
  | .taggedField names type tag, .field id => ∃ node span, f.fields[id.index]? = some node ∧
    node.type = type ∧ List.Forall₂ (fun s i => f.Names i s) names node.names ∧
      node.tag = some span ∧ f.textAt? span = some tag
  | .methodElem name sig, .elem node => ∃ i, node = .method i sig ∧ f.Names i name
  | .importPackage path, .decl k => ∃ doc span,
    f.decls[k]? = some (.group .imports doc [.importSpec none none span]) ∧
      f.literalValue? span = some path
  | .importAs name path, .decl k => ∃ doc span i,
    f.decls[k]? = some (.group .imports doc [.importSpec none (some (.named i)) span]) ∧
      f.literalValue? span = some path ∧ f.Names i name
  | .importDot path, .decl k => ∃ doc span dot,
    f.decls[k]? = some (.group .imports doc [.importSpec none (some (.dot dot)) span]) ∧
      f.literalValue? span = some path ∧ f.textAt? dot = some "."
  | .importBlank path, .decl k => ∃ doc span blank,
    f.decls[k]? = some (.group .imports doc [.importSpec none (some (.blank blank)) span]) ∧
      f.literalValue? span = some path ∧ f.textAt? blank = some "_"
  | .typeDecl name type, .decl k => ∃ doc i,
    f.decls[k]? = some (.group .types doc [.typeSpec none i [] type false]) ∧ f.Names i name
  | .aliasDecl name type, .decl k => ∃ doc i,
    f.decls[k]? = some (.group .types doc [.typeSpec none i [] type true]) ∧ f.Names i name
  | .genericTypeDecl name typeParams type, .decl k => ∃ doc i,
    f.decls[k]? = some (.group .types doc [.typeSpec none i typeParams type false]) ∧
      f.Names i name
  | .valueSpec names type values, .spec node => ∃ idents,
    node = .valueSpec none idents type values ∧
      List.Forall₂ (fun s i => f.Names i s) names idents
  | .varDecl names type values, .decl k => ∃ doc idents,
    f.decls[k]? = some (.group .vars doc [.valueSpec none idents type values]) ∧
      List.Forall₂ (fun s i => f.Names i s) names idents
  | .constDecl names type values, .decl k => ∃ doc idents,
    f.decls[k]? = some (.group .consts doc [.valueSpec none idents type values]) ∧
      List.Forall₂ (fun s i => f.Names i s) names idents
  | .func name sig, .decl k => ∃ doc i,
    f.decls[k]? = some (.func doc none i [] sig true) ∧ f.Names i name
  | .method receiverName receiverType name sig, .decl k => ∃ doc id node i j,
    f.decls[k]? = some (.func doc (some id) j [] sig true) ∧ f.Names j name ∧
      f.fields[id.index]? = some node ∧ node.type = receiverType ∧ node.names = [i] ∧
        f.Names i receiverName
  | .composite type, .expr id => f.exprs[id.index]? = some (.composite (some type))
  | .unary op operand, .expr id => f.exprs[id.index]? = some (.unary op operand)
  | .call callee, .expr id => f.exprs[id.index]? = some (.call callee)
  | .pointer elem, .type id => f.types[id.index]? = some (.pointer elem)
  | .slice elem, .type id => f.types[id.index]? = some (.slice elem)
  | .ellipsis elem, .type id => f.types[id.index]? = some (.ellipsis elem)
  | .map key value, .type id => f.types[id.index]? = some (.map key value)
  | .chan dir elem, .type id => f.types[id.index]? = some (.chan dir elem)
  | .funcType sig, .type id => f.types[id.index]? = some (.func sig)
  | .structType fields, .type id => f.types[id.index]? = some (.struct fields)
  | .interfaceType elems, .type id => f.types[id.index]? = some (.interface elems)
  | .paren inner, .type id => f.types[id.index]? = some (.paren inner)
  | .group kind specs, .decl k => ∃ doc, f.decls[k]? = some (.group kind doc specs)
  -- neither is given a text or has one
  | .params _, .fields _ | .signature _ _, .signature _ => True
  | _, _ => False

end Call

/-- What of the answer of a call may be used to point into the text. -/
def Handle.marks : Handle → List Mark
  | .ident i => Mark.parts (.name i)
  | .elem node => node.marks.flatMap Mark.parts
  | .spec node => node.marks.flatMap Mark.parts
  | .expr _ | .type _ | .field _ | .fields _ | .signature _ | .comments _ | .decl _ => []

section Builds

variable {last : File} {b : Builder} {α : Type}

theorem answer_builds {m : BuildM α} [Appends m] {answer : α → Handle}
    {post : Handle → Prop} (h : Builds last b m fun a _ => post (answer a))
    (hmarks : ∀ a, post (answer a) → ∀ mark ∈ (answer a).marks, last.Resolves mark) :
    Builds last b (do return answer (← m)) fun handle _ =>
      post handle ∧ ∀ mark ∈ handle.marks, last.Resolves mark :=
  h.bind fun a _ _ ha => builds_pure ⟨ha, hmarks a ha⟩

theorem commented_builds {m : BuildM α} {post : Handle → Prop}
    (h : Builds last b m fun _ b' => post (.comments ⟨b'.file.commentGroups.size - 1⟩)) :
    Builds last b (Call.commented m) fun handle _ =>
      post handle ∧ ∀ mark ∈ handle.marks, last.Resolves mark := fun hb hlast =>
  (h hb hlast).imp_right fun hpost => ⟨hpost, List.forall_mem_nil _⟩

theorem declared_builds {m : BuildM Unit} {post : Handle → Prop}
    (h : Builds last b m fun _ b' => post (.decl (b'.file.decls.length - 1))) :
    Builds last b (Call.declared m) fun handle _ =>
      post handle ∧ ∀ mark ∈ handle.marks, last.Resolves mark := fun hb hlast =>
  (h hb hlast).imp_right fun hpost => ⟨hpost, List.forall_mem_nil _⟩

/-- The step: whatever a call is given is recovered from its answer, and the answer may be used in
later calls. -/
theorem call_builds (hfits : last.text.utf8ByteSize < UInt32.size) (c : Call)
    (hgiven : ∀ mark ∈ c.marks, last.Resolves mark) :
    Builds last b c.run fun handle _ =>
      c.Recovers last handle ∧ ∀ mark ∈ handle.marks, last.Resolves mark := by
  have hnone : ∀ mark ∈ ([] : List Mark), last.Resolves mark := List.forall_mem_nil _
  cases c with
  | ident name =>
    refine answer_builds (ident_builds hfits name) fun i hi => ?_
    exact File.Resolves.parts (m := .name i) ⟨name, hi⟩
  | commentGroup lines =>
    exact answer_builds ((commentGroup_builds hfits lines).mono fun _ _ _ => And.left)
      fun _ _ => hnone
  | packageDoc lines => exact commented_builds (packageDoc_builds hfits lines)
  | doc lines => exact commented_builds (doc_builds hfits lines)
  | fieldDoc id lines => exact commented_builds (fieldDoc_builds hfits id lines)
  | literal kind raw => exact answer_builds (literal_builds hfits kind raw) fun _ _ => hnone
  | identExpr name => exact answer_builds (identExpr_builds hfits name) fun _ _ => hnone
  | selectorExpr base name =>
    exact answer_builds (selectorExpr_builds hfits base name) fun _ _ => hnone
  | composite type => exact answer_builds (addExpr_builds hnone) fun _ _ => hnone
  | unary op operand => exact answer_builds (addExpr_builds hnone) fun _ _ => hnone
  | call callee => exact answer_builds (addExpr_builds hnone) fun _ _ => hnone
  | otherExpr text => exact answer_builds (otherExpr_builds hfits text) fun _ _ => hnone
  | named name => exact answer_builds (generic_builds hfits name []) fun _ _ => hnone
  | generic name args => exact answer_builds (generic_builds hfits name args) fun _ _ => hnone
  | selectorType base name =>
    exact answer_builds (selectorType_builds hfits base name) fun _ _ => hnone
  | qualified package name =>
    exact answer_builds (qualified_builds hfits package name) fun _ _ => hnone
  | pointer elem => exact answer_builds (addType_builds hnone) fun _ _ => hnone
  | slice elem => exact answer_builds (addType_builds hnone) fun _ _ => hnone
  | array length elem => exact answer_builds (array_builds hfits length elem) fun _ _ => hnone
  | ellipsis elem => exact answer_builds (addType_builds hnone) fun _ _ => hnone
  | map key value => exact answer_builds (addType_builds hnone) fun _ _ => hnone
  | chan dir elem => exact answer_builds (addType_builds hnone) fun _ _ => hnone
  | funcType sig => exact answer_builds (addType_builds hnone) fun _ _ => hnone
  | structType fields => exact answer_builds (addType_builds hnone) fun _ _ => hnone
  | interfaceType elems => exact answer_builds (addType_builds hgiven) fun _ _ => hnone
  | paren inner => exact answer_builds (addType_builds hnone) fun _ _ => hnone
  | badType => exact answer_builds (badType_builds hfits) fun _ _ => hnone
  | field names type => exact answer_builds (field_builds hfits names type) fun _ _ => hnone
  | taggedField names type tag =>
    exact answer_builds (taggedField_builds hfits names type tag) fun _ _ => hnone
  | params groups =>
    have hgroups : ∀ g ∈ groups, ∀ i ∈ g.names, last.Resolves (.name i) := fun g hg =>
      List.forall_mem_map.mp (List.forall_mem_flatMap.mp hgiven g hg)
    exact answer_builds (mergeParams_builds hgroups (List.forall_mem_nil _)) fun _ _ => hnone
  | signature ins outs => exact answer_builds (signature_builds ins outs) fun _ _ => hnone
  | methodElem name sig =>
    refine answer_builds (methodElem_builds hfits name sig) ?_
    rintro _ ⟨i, rfl, hi⟩
    exact File.resolves_flatMap_parts (List.forall_mem_singleton.mpr ⟨name, hi⟩)
  | importPackage path =>
    exact declared_builds (importSpec_builds hfits (by simp) path)
  | importAs name path =>
    refine declared_builds ((ident_builds hfits name).bind fun i _ _ hi => ?_)
    refine (importSpec_builds hfits ?_ path).mono fun _ _ _ ⟨doc, span, hdecl, hpath⟩ =>
      ⟨doc, span, i, hdecl, hpath, hi⟩
    rintro _ ⟨⟩
    exact ⟨name, hi⟩
  | importDot path =>
    refine declared_builds ((appendText_builds hfits ".").bind fun dot _ _ hdot => ?_)
    refine (importSpec_builds hfits ?_ path).mono fun _ _ _ ⟨doc, span, hdecl, hpath⟩ =>
      ⟨doc, span, dot, hdecl, hpath, hdot⟩
    rintro _ ⟨⟩
    exact ⟨_, hdot⟩
  | importBlank path =>
    refine declared_builds ((appendText_builds hfits "_").bind fun blank _ _ hblank => ?_)
    refine (importSpec_builds hfits ?_ path).mono fun _ _ _ ⟨doc, span, hdecl, hpath⟩ =>
      ⟨doc, span, blank, hdecl, hpath, hblank⟩
    rintro _ ⟨⟩
    exact ⟨_, hblank⟩
  | typeDecl name type => exact declared_builds (typeSpec_builds hfits name [] type false)
  | aliasDecl name type => exact declared_builds (typeSpec_builds hfits name [] type true)
  | genericTypeDecl name typeParams type =>
    exact declared_builds (typeSpec_builds hfits name typeParams type false)
  | valueSpec names type values =>
    refine answer_builds (valueSpec_builds hfits names type values) ?_
    rintro _ ⟨idents, rfl, hidents⟩
    exact File.resolves_flatMap_parts (File.resolves_nameMarks hidents)
  | varDecl names type values => exact declared_builds (values_build hfits .vars names type values)
  | constDecl names type values =>
    exact declared_builds (values_build hfits .consts names type values)
  | group kind specs => exact declared_builds (group_builds kind hgiven)
  | func name sig => exact declared_builds (func_builds hfits name sig)
  | method receiverName receiverType name sig =>
    exact declared_builds (method_builds hfits receiverName receiverType name sig)

end Builds

end GoPackages.Source
