import GoPackages.Proofs.Source.Marks

/-!
# What the methods of a builder leave behind

For every method that is given a text: the node that it adds, with the texts that are recovered
from it in the last file.
-/
namespace GoPackages.Source

open Builder

variable {last : File} {b : Builder}

theorem mapM_eq_some {α β : Type} {f : β → Option α} {l : List α} {l' : List β}
    (h : List.Forall₂ (fun a b => f b = some a) l l') : l'.mapM f = some l := by
  induction h with
  | nil => rfl
  | cons ha _ ih => rw [List.mapM_cons, ha, ih]; rfl

theorem literalValue_quote (s : String) : literalValue ("\"" ++ s ++ "\"") = s := by
  have hquote : isDelimiter '"' = true := rfl
  have hlist : ("\"" ++ s ++ "\"").toList = '"' :: (s.toList ++ ['"']) := by
    simp [String.toList_append]
  rw [literalValue, hlist, stripDelimiters_quote hquote, String.ofList_toList]

theorem signature_builds (params results : List FieldId) :
    Builds last b (signature params results) fun _ _ => True :=
  fun hb _ => ⟨⟨hb.symbols, { hb.resolves with }⟩, trivial⟩

section Texts

variable (hfits : last.text.utf8ByteSize < UInt32.size)
include hfits

theorem idents_build (ss : List String) : Builds last b (ss.mapM ident) fun idents _ =>
    List.Forall₂ (fun s i => last.Names i s) ss idents :=
  mapM_builds (fun s _ _ => ident_builds hfits s) b

theorem comment_builds (line : String) :
    Builds last b (comment line) fun c _ => last.textAt? c.span = some line :=
  (appendText_builds hfits line).bind fun _ _ _ hspan => builds_pure hspan

theorem commentGroup_builds (lines : List String) :
    Builds last b (commentGroup lines) fun g b' =>
      last.docLines? g = some lines ∧ g.index + 1 = b'.file.commentGroups.size := by
  intro hb hlast
  let b₁ := (lines.mapM comment b).2
  let comments := (lines.mapM comment b).1
  have hmid : b₁.file.Later last :=
    { hlast with
      commentGroups := fun k group h =>
        hlast.commentGroups k group (getElem?_push_of_some h comments) }
  obtain ⟨hfine, hall⟩ := mapM_builds (fun line _ _ => comment_builds hfits line) b hb hmid
  have hgroup : last.commentGroups[b₁.file.commentGroups.size]? = some comments :=
    hlast.commentGroups _ comments Array.getElem?_push_size
  refine ⟨⟨hfine.symbols, { hfine.resolves with comments := fun group hg c hc => ?_ }⟩, ?_, ?_⟩
  · rcases Array.mem_push.mp hg with hg | rfl
    · exact hfine.resolves.comments group hg c hc
    · exact exists_of_forall₂ hall c hc
  · change last.commentGroups[b₁.file.commentGroups.size]?.bind _ = some lines
    rw [hgroup]
    exact mapM_eq_some hall
  · exact (Array.size_push _).symm

theorem packageDoc_builds (lines : List String) :
    Builds last b (packageDoc lines) fun _ b' =>
      last.docLines? ⟨b'.file.commentGroups.size - 1⟩ = some lines := by
  intro hb hlast
  obtain ⟨hfine, hlines, hsize⟩ := commentGroup_builds hfits lines hb { hlast with }
  refine ⟨⟨hfine.symbols, { hfine.resolves with }⟩, ?_⟩
  change last.docLines? ⟨(commentGroup lines b).2.file.commentGroups.size - 1⟩ = _
  rw [← hsize]
  exact hlines

theorem doc_builds (lines : List String) :
    Builds last b (Builder.doc lines) fun _ b' =>
      last.docLines? ⟨b'.file.commentGroups.size - 1⟩ = some lines := by
  intro hb hlast
  obtain ⟨hfine, hlines, hsize⟩ := commentGroup_builds hfits lines hb hlast
  refine ⟨⟨hfine.symbols, hfine.resolves⟩, ?_⟩
  change last.docLines? ⟨(commentGroup lines b).2.file.commentGroups.size - 1⟩ = _
  rw [← hsize]
  exact hlines

theorem literal_builds (kind : LiteralKind) (raw : String) :
    Builds last b (literal kind raw) fun e _ => ∃ span,
      last.exprs[e.index]? = some (.literal kind span) ∧ last.textAt? span = some raw :=
  (appendText_builds hfits raw).bind fun span _ _ hspan =>
    (addExpr_builds (List.forall_mem_singleton.mpr ⟨raw, hspan⟩)).mono fun _ _ _ he =>
      ⟨span, he, hspan⟩

theorem otherExpr_builds (text : String) :
    Builds last b (otherExpr text) fun e _ => ∃ span,
      last.exprs[e.index]? = some (.other span) ∧ last.textAt? span = some text :=
  (appendText_builds hfits text).bind fun span _ _ hspan =>
    (addExpr_builds (List.forall_mem_singleton.mpr ⟨text, hspan⟩)).mono fun _ _ _ he =>
      ⟨span, he, hspan⟩

theorem identExpr_builds (name : String) :
    Builds last b (identExpr name) fun e _ => ∃ i,
      last.exprs[e.index]? = some (.ident i) ∧ last.Names i name :=
  (ident_builds hfits name).bind fun i _ _ hi =>
    (addExpr_builds (List.forall_mem_singleton.mpr ⟨name, hi⟩)).mono fun _ _ _ he => ⟨i, he, hi⟩

theorem selectorExpr_builds (base : ExprId) (name : String) :
    Builds last b (selectorExpr base name) fun e _ => ∃ i,
      last.exprs[e.index]? = some (.selector base i) ∧ last.Names i name :=
  (ident_builds hfits name).bind fun i _ _ hi =>
    (addExpr_builds (List.forall_mem_singleton.mpr ⟨name, hi⟩)).mono fun _ _ _ he => ⟨i, he, hi⟩

theorem generic_builds (name : String) (args : List TypeExprId) :
    Builds last b (generic name args) fun t _ => ∃ i,
      last.types[t.index]? = some (.named i args) ∧ last.Names i name :=
  (ident_builds hfits name).bind fun i _ _ hi =>
    (addType_builds (List.forall_mem_singleton.mpr ⟨name, hi⟩)).mono fun _ _ _ ht => ⟨i, ht, hi⟩

theorem selectorType_builds (base : ExprId) (name : String) :
    Builds last b (selectorType base name) fun t _ => ∃ i,
      last.types[t.index]? = some (.selector base i []) ∧ last.Names i name :=
  (ident_builds hfits name).bind fun i _ _ hi =>
    (addType_builds (List.forall_mem_singleton.mpr ⟨name, hi⟩)).mono fun _ _ _ ht => ⟨i, ht, hi⟩

theorem qualified_builds (package name : String) :
    Builds last b (qualified package name) fun t _ => ∃ base i j,
      last.exprs[base.index]? = some (.ident i) ∧ last.Names i package ∧
        last.types[t.index]? = some (.selector base j []) ∧ last.Names j name :=
  (identExpr_builds hfits package).bind fun base _ _ ⟨i, hbase, hi⟩ =>
    (selectorType_builds hfits base name).mono fun _ _ _ ⟨j, ht, hj⟩ =>
      ⟨base, i, j, hbase, hi, ht, hj⟩

theorem array_builds (length : String) (elem : TypeExprId) :
    Builds last b (array length elem) fun t _ => ∃ e span,
      last.types[t.index]? = some (.array e elem) ∧
        last.exprs[e.index]? = some (.literal .int span) ∧ last.textAt? span = some length :=
  (literal_builds hfits .int length).bind fun e _ _ ⟨span, he, hspan⟩ =>
    (addType_builds (List.forall_mem_nil _)).mono fun _ _ _ ht => ⟨e, span, ht, he, hspan⟩

theorem badType_builds :
    Builds last b badType fun t _ => ∃ span,
      last.types[t.index]? = some (.bad span) ∧ last.textAt? span = some "<bad>" :=
  (appendText_builds hfits "<bad>").bind fun span _ _ hspan =>
    (addType_builds (List.forall_mem_singleton.mpr ⟨_, hspan⟩)).mono fun _ _ _ ht =>
      ⟨span, ht, hspan⟩

theorem field_adds (names : List String) (type : TypeExprId) :
    Builds last b (field names type) fun id b' => ∃ idents,
      b'.file.fields[id.index]? = some { names := idents, type } ∧
        List.Forall₂ (fun s i => last.Names i s) names idents := by
  refine (idents_build hfits names).bind fun idents b₁ _ hidents => ?_
  refine (addField_builds ?_).mono fun id b₂ _ hid => ⟨idents, hid, hidents⟩
  rw [FieldNode.marks, Option.toList_none, List.map_nil, List.append_nil]
  exact File.resolves_nameMarks hidents

theorem field_builds (names : List String) (type : TypeExprId) :
    Builds last b (field names type) fun id _ => ∃ node,
      last.fields[id.index]? = some node ∧ node.type = type ∧
        List.Forall₂ (fun s i => last.Names i s) names node.names :=
  (field_adds hfits names type).mono fun id b' hlast ⟨idents, hid, hidents⟩ => by
    obtain ⟨node, hnode, hnames, htype, -⟩ := hlast.fields _ _ hid
    exact ⟨node, hnode, htype, hnames ▸ hidents⟩

theorem taggedField_builds (names : List String) (type : TypeExprId) (tag : String) :
    Builds last b (taggedField names type tag) fun id _ => ∃ node span,
      last.fields[id.index]? = some node ∧ node.type = type ∧
        List.Forall₂ (fun s i => last.Names i s) names node.names ∧
          node.tag = some span ∧ last.textAt? span = some tag := by
  intro hb hlast
  have h₃ := setTag_later names type tag b (appendText tag (field names type b).2).1
  have h₂ := Appends.later (m := appendText tag) (field names type b).2
  obtain ⟨hfine₁, idents, hid, hidents⟩ :=
    field_adds hfits names type hb (h₂.trans (h₃.trans hlast))
  obtain ⟨hfine₂, hspan⟩ := appendText_builds hfits tag hfine₁ (h₃.trans hlast)
  obtain ⟨node, hnode, hnames, htype, -⟩ := h₂.fields _ _ hid
  have htagged : ∀ old : FieldNode, (∀ m ∈ old.marks, last.Resolves m) →
      ∀ m ∈ ({ old with tag := some _ } : FieldNode).marks, last.Resolves m := fun old hold =>
    List.forall_mem_append.mpr ⟨fun m hm => hold m (List.mem_append_left _ hm),
      List.forall_mem_singleton.mpr ⟨tag, hspan⟩⟩
  obtain ⟨hfine₃, hset⟩ := modifyField_builds htagged hfine₂ hlast
  obtain ⟨node', hnode', hnames', htype', htag⟩ := hlast.fields _ _ (hset node hnode)
  refine ⟨hfine₃, node', _, hnode', htype'.trans htype, ?_, htag _ rfl, hspan⟩
  rw [hnames', hnames]
  exact hidents

theorem fieldDoc_builds (id : FieldId) (lines : List String) :
    Builds last b (fieldDoc id lines) fun _ b' =>
      last.docLines? ⟨b'.file.commentGroups.size - 1⟩ = some lines := by
  refine (commentGroup_builds hfits lines).bind fun group b₁ _ ⟨hlines, hsize⟩ => ?_
  intro hb hlast
  obtain ⟨hfine, -⟩ := modifyField_builds (f := fun f => { f with doc := some group })
    (fun _ h => h) hb hlast
  refine ⟨hfine, ?_⟩
  change last.docLines? ⟨b₁.file.commentGroups.size - 1⟩ = some lines
  rw [← hsize]
  exact hlines

theorem methodElem_builds (name : String) (signature : SignatureId) :
    Builds last b (methodElem name signature) fun e _ => ∃ i,
      e = .method i signature ∧ last.Names i name :=
  (ident_builds hfits name).bind fun i _ _ hi => builds_pure ⟨i, rfl, hi⟩

theorem importSpec_builds {name : Option ImportNameNode}
    (hname : ∀ n ∈ name, last.Resolves n.mark) (path : String) :
    Builds last b (importSpec name path) fun _ b' => ∃ doc span,
      last.decls[b'.file.decls.length - 1]? =
          some (.group .imports doc [.importSpec none name span]) ∧
        last.literalValue? span = some path := by
  refine (appendText_builds hfits ("\"" ++ path ++ "\"")).bind fun span b₁ _ hspan => ?_
  have hmarks : ∀ m ∈ (SpecNode.importSpec none name span).marks ++ [], last.Resolves m := by
    rw [List.append_nil]
    exact List.forall_mem_cons.mpr ⟨⟨_, hspan⟩, List.forall_mem_map.mpr (by simpa using hname)⟩
  have hdecl : ∀ doc, ∀ m ∈ (DeclNode.group .imports doc [.importSpec none name span]).marks,
      last.Resolves m := fun _ => hmarks
  refine (declare_builds hdecl).mono fun _ _ _ ⟨doc, hdecl⟩ => ⟨doc, span, hdecl, ?_⟩
  rw [File.literalValue?, hspan, Option.map_some, literalValue_quote]

theorem typeSpec_builds (name : String) (typeParams : List FieldId) (type : TypeExprId)
    (isAlias : Bool) :
    Builds last b (typeSpec name typeParams type isAlias) fun _ b' => ∃ doc i,
      last.decls[b'.file.decls.length - 1]? =
          some (.group .types doc [.typeSpec none i typeParams type isAlias]) ∧
        last.Names i name := by
  refine (ident_builds hfits name).bind fun i b₁ _ hi => ?_
  refine (declare_builds fun doc => ?_).mono fun _ _ _ ⟨doc, hdecl⟩ => ⟨doc, i, hdecl, hi⟩
  exact List.forall_mem_singleton.mpr ⟨name, hi⟩

theorem valueSpec_builds (names : List String) (type : Option TypeExprId) (values : List ExprId) :
    Builds last b (valueSpec names type values) fun spec _ => ∃ idents,
      spec = .valueSpec none idents type values ∧
        List.Forall₂ (fun s i => last.Names i s) names idents :=
  (idents_build hfits names).bind fun idents _ _ hidents => builds_pure ⟨idents, rfl, hidents⟩

theorem values_build (kind : GroupKind) (names : List String) (type : Option TypeExprId)
    (values : List ExprId) :
    Builds last b (do let spec ← valueSpec names type values; group kind [spec]) fun _ b' =>
      ∃ doc idents, last.decls[b'.file.decls.length - 1]? =
          some (.group kind doc [.valueSpec none idents type values]) ∧
        List.Forall₂ (fun s i => last.Names i s) names idents := by
  refine (valueSpec_builds hfits names type values).bind
    fun spec b₁ _ ⟨idents, hspec, hidents⟩ => ?_
  subst hspec
  refine (declare_builds fun doc => ?_).mono fun _ _ _ ⟨doc, hdecl⟩ => ⟨doc, idents, hdecl, hidents⟩
  change ∀ m ∈ nameMarks idents ++ [], last.Resolves m
  rw [List.append_nil]
  exact File.resolves_nameMarks hidents

theorem func_builds (name : String) (signature : SignatureId) :
    Builds last b (func name signature) fun _ b' => ∃ doc i,
      last.decls[b'.file.decls.length - 1]? = some (.func doc none i [] signature true) ∧
        last.Names i name := by
  refine (ident_builds hfits name).bind fun i b₁ _ hi => ?_
  refine (declare_builds fun doc => ?_).mono fun _ _ _ ⟨doc, hdecl⟩ => ⟨doc, i, hdecl, hi⟩
  exact List.forall_mem_singleton.mpr ⟨name, hi⟩

theorem method_builds (receiverName : String) (receiverType : TypeExprId) (name : String)
    (signature : SignatureId) :
    Builds last b (method receiverName receiverType name signature) fun _ b' => ∃ doc id node i j,
      last.decls[b'.file.decls.length - 1]? = some (.func doc (some id) j [] signature true) ∧
        last.Names j name ∧ last.fields[id.index]? = some node ∧ node.type = receiverType ∧
          node.names = [i] ∧ last.Names i receiverName := by
  refine (field_builds hfits [receiverName] receiverType).bind
    fun id b₁ _ ⟨node, hnode, htype, hnames⟩ => ?_
  refine (ident_builds hfits name).bind fun j b₂ _ hj => ?_
  obtain ⟨i, rest, hi, hrest, hsingle⟩ := List.forall₂_cons_left_iff.mp hnames
  obtain rfl := List.forall₂_nil_left_iff.mp hrest
  refine (declare_builds fun doc => ?_).mono fun _ _ _ ⟨doc, hdecl⟩ =>
    ⟨doc, id, node, i, j, hdecl, hj, hnode, htype, hsingle, hi⟩
  exact List.forall_mem_singleton.mpr ⟨name, hj⟩

end Texts

theorem group_builds (kind : GroupKind) {specs : List SpecNode}
    (h : ∀ m ∈ specs.flatMap SpecNode.marks, last.Resolves m) :
    Builds last b (group kind specs) fun _ b' => ∃ doc,
      last.decls[b'.file.decls.length - 1]? = some (.group kind doc specs) := by
  have hdecl : ∀ doc, ∀ m ∈ (DeclNode.group kind doc specs).marks, last.Resolves m := fun _ => h
  exact declare_builds hdecl

theorem typeParam_builds {i : Ident} (hi : last.Resolves (.name i)) :
    Builds last b (typeParam i) fun _ _ => True := by
  have htype : ∀ m ∈ (TypeNode.named i []).marks, last.Resolves m :=
    List.forall_mem_singleton.mpr hi
  exact (addType_builds htype).bind fun _ _ _ _ =>
    (addField_builds (List.forall_mem_nil _)).mono fun _ _ _ _ => trivial

theorem mergeParams_builds {groups : List ParamGroup}
    (hg : ∀ g ∈ groups, ∀ i ∈ g.names, last.Resolves (.name i)) {waiting : List Ident}
    (hw : ∀ i ∈ waiting, last.Resolves (.name i)) :
    Builds last b (mergeParams waiting groups) fun _ _ => True := by
  induction groups generalizing waiting b with
  | nil =>
    unfold mergeParams
    exact (mapM_builds (fun i hi _ => typeParam_builds (hw i hi)) b).mono fun _ _ _ _ => trivial
  | cons g rest ih =>
    obtain ⟨hnames, hrest⟩ := List.forall_mem_cons.mp hg
    have hall : ∀ i ∈ waiting ++ g.names, last.Resolves (.name i) :=
      List.forall_mem_append.mpr ⟨hw, hnames⟩
    obtain ⟨names, type | type⟩ := g
    · exact ih hrest hall
    · unfold mergeParams
      have hfield : ∀ m ∈ ({ names := waiting ++ names, type } : FieldNode).marks,
          last.Resolves m := by
        rw [FieldNode.marks, Option.toList_none, List.map_nil, List.append_nil]
        exact List.forall_mem_map.mpr hall
      refine (addField_builds hfield).bind fun id b₁ _ _ => ?_
      exact (ih hrest (List.forall_mem_nil _)).bind fun ids b₂ _ _ => builds_pure trivial

end GoPackages.Source
