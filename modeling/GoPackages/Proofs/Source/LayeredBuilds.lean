import GoPackages.Proofs.Source.NodeOrder

/-!
# Layers while a file is built

Every call of the builder keeps the layers of the file, if it refers to nodes that are there. Nodes
stay where they are, so whatever was handed out may be used in all later calls.
-/
namespace GoPackages.Source

/-- A program that leaves nodes and declarations as they are. -/
class KeepsNodes {α : Type} (m : BuildM α) : Prop where
  nodes : ∀ b : Builder, (m b).2.file.nodes = b.file.nodes

/-- A program that keeps the layers, in a file where nodes stay where they are. -/
def Links {α : Type} (b : Builder) (m : BuildM α) (post : α → Builder → Prop) : Prop :=
  b.file.Layered → (m b).2.file.Layered ∧ (∀ n, b.file.Has n → (m b).2.file.Has n) ∧
    post (m b).1 (m b).2

section Rules

variable {α β : Type} {b : Builder} {m : BuildM α} {post : α → Builder → Prop}

theorem links_pure {a : α} (h : post a b) : Links b (pure a) post :=
  fun hb => ⟨hb, fun _ hn => hn, h⟩

theorem Links.bind {k : α → BuildM β} {post' : β → Builder → Prop} (h : Links b m post)
    (hk : ∀ a b', (∀ n, b.file.Has n → b'.file.Has n) → post a b' → Links b' (k a) post') :
    Links b (m >>= k) post' := by
  intro hb
  obtain ⟨hmid, hkept, ha⟩ := h hb
  obtain ⟨hdone, hkept', hpost⟩ := hk _ _ hkept ha hmid
  exact ⟨hdone, fun n hn => hkept' n (hkept n hn), hpost⟩

theorem links_of_adds (node : α → Node) {own : List Node}
    (hadds : b.file.Adds (node (m b).1) own (m b).2.file) (hown : b.file.HasAll own) :
    Links b m fun a b' => b'.file.HasAll [node a] := by
  intro hb
  refine ⟨hb.add hadds hown, fun n hn => ?_, List.forall_mem_singleton.mpr ?_⟩
  · exact (hadds.has n).mpr (.inl hn)
  · exact (hadds.has _).mpr (.inr rfl)

theorem links_of_sameNodes (hsame : b.file.SameNodes (m b).2.file) : Links b m fun _ _ => True :=
  fun hb => ⟨hsame.layered hb, fun n hn => (hsame.has n).mpr hn, trivial⟩

theorem KeepsNodes.links (m : BuildM α) [KeepsNodes m] : Links b m fun _ _ => True :=
  links_of_sameNodes (File.sameNodes_of_nodes (KeepsNodes.nodes b))

theorem links_bind [KeepsNodes m] {k : α → BuildM β} {post' : β → Builder → Prop} {ns : List Node}
    (hns : b.file.HasAll ns) (hk : ∀ a b', b'.file.HasAll ns → Links b' (k a) post') :
    Links b (m >>= k) post' :=
  (KeepsNodes.links m).bind fun a b' hkept _ => hk a b' fun n hn => hkept n (hns n hn)

instance (a : α) : KeepsNodes (pure a : BuildM α) := ⟨fun _ => rfl⟩

instance (m : BuildM α) (k : α → BuildM β) [KeepsNodes m] [∀ a, KeepsNodes (k a)] :
    KeepsNodes (m >>= k) where
  nodes b := (KeepsNodes.nodes (m := k (m b).1) (m b).2).trans (KeepsNodes.nodes b)

instance (f : α → BuildM β) [∀ a, KeepsNodes (f a)] (l : List α) : KeepsNodes (l.mapM f) := by
  induction l with
  | nil => exact inferInstanceAs (KeepsNodes (pure []))
  | cons a l ih =>
    rw [List.mapM_cons]
    infer_instance

end Rules

namespace Builder

variable {b : Builder}

instance (s : String) : KeepsNodes (appendText s) := ⟨fun _ => rfl⟩

instance (s : String) : KeepsNodes (intern s) := ⟨fun _ => rfl⟩

instance (name : String) : KeepsNodes (ident name) := by unfold ident; infer_instance

instance (line : String) : KeepsNodes (comment line) := by unfold comment; infer_instance

instance (lines : List String) : KeepsNodes (commentGroup lines) :=
  ⟨KeepsNodes.nodes (m := lines.mapM comment)⟩

instance (lines : List String) : KeepsNodes (packageDoc lines) :=
  ⟨KeepsNodes.nodes (m := lines.mapM comment)⟩

instance (lines : List String) : KeepsNodes (Builder.doc lines) :=
  ⟨KeepsNodes.nodes (m := lines.mapM comment)⟩

theorem addType_links {node : TypeNode} (h : b.file.HasAll node.parts) :
    Links b (addType node) fun id b' => b'.file.HasAll [.type id] :=
  links_of_adds .type (File.adds_type b.file node) h

theorem addExpr_links {node : ExprNode} (h : b.file.HasAll node.parts) :
    Links b (addExpr node) fun id b' => b'.file.HasAll [.expr id] :=
  links_of_adds .expr (File.adds_expr b.file node) h

theorem addField_links {node : FieldNode} (h : b.file.HasAll node.parts) :
    Links b (addField node) fun id b' => b'.file.HasAll [.field id] :=
  links_of_adds .field (File.adds_field b.file node) h

theorem signature_links {params results : List FieldId}
    (h : b.file.HasAll ((params ++ results).map .field)) :
    Links b (signature params results) fun id b' => b'.file.HasAll [.signature id] :=
  links_of_adds .signature (File.adds_signature b.file ⟨params, results⟩) h

theorem modifyField_links (id : FieldId) {f : FieldNode → FieldNode}
    (h : ∀ node, (f node).type = node.type) : Links b (modifyField id f) fun _ _ => True := by
  apply links_of_sameNodes
  constructor
  case has =>
    rintro (_ | _ | i | _)
    case field => exact iff_of_eq (congrArg (i.index < ·) Array.size_modify)
    all_goals exact Iff.rfl
  case parts =>
    rintro (_ | _ | i | _)
    case field =>
      change ((b.file.fields.modify id.index f)[i.index]?.map FieldNode.parts).getD [] = _
      rw [Array.getElem?_modify, File.parts]
      by_cases hi : id.index = i.index
      · cases hnode : b.file.fields[i.index]? with
        | none => simp [hi]
        | some node => simp [hi, FieldNode.parts, h]
      · rw [if_neg hi]
    all_goals rfl
  case count =>
    change b.file.exprs.size + _ + (b.file.fields.modify id.index f).size + _ = _
    rw [Array.size_modify]
    rfl
  case decls => rfl

theorem declare_links {make : Option CommentGroupId → DeclNode}
    (h : ∀ doc, b.file.HasAll (make doc).parts) : Links b (declare make) fun _ _ => True := by
  intro hb
  obtain ⟨rank, hrank⟩ := hb.ranked
  refine ⟨⟨⟨rank, hrank.bounded, hrank.present, hrank.decreases⟩, fun d hd => ?_⟩,
    fun n hn => hn, trivial⟩
  rcases List.mem_append.mp hd with hd | hd
  · exact hb.declared d hd
  · obtain rfl := List.mem_singleton.mp hd
    exact h b.pendingDoc

section Methods

variable (name : String) (names lines : List String)

theorem literal_links (kind : LiteralKind) (raw : String) :
    Links b (literal kind raw) fun id b' => b'.file.HasAll [.expr id] :=
  (KeepsNodes.links _).bind fun _ _ _ _ => addExpr_links (List.forall_mem_nil _)

theorem identExpr_links : Links b (identExpr name) fun id b' => b'.file.HasAll [.expr id] :=
  (KeepsNodes.links _).bind fun _ _ _ _ => addExpr_links (List.forall_mem_nil _)

theorem otherExpr_links : Links b (otherExpr name) fun id b' => b'.file.HasAll [.expr id] :=
  (KeepsNodes.links _).bind fun _ _ _ _ => addExpr_links (List.forall_mem_nil _)

theorem selectorExpr_links {base : ExprId} (h : b.file.HasAll [.expr base]) :
    Links b (selectorExpr base name) fun id b' => b'.file.HasAll [.expr id] :=
  links_bind h fun _ _ h => addExpr_links h

theorem generic_links {args : List TypeExprId} (h : b.file.HasAll (args.map .type)) :
    Links b (generic name args) fun id b' => b'.file.HasAll [.type id] :=
  links_bind h fun _ _ h => addType_links h

theorem selectorType_links {base : ExprId} (h : b.file.HasAll [.expr base]) :
    Links b (selectorType base name) fun id b' => b'.file.HasAll [.type id] :=
  links_bind h fun _ _ h => addType_links h

theorem qualified_links (package : String) :
    Links b (qualified package name) fun id b' => b'.file.HasAll [.type id] :=
  (identExpr_links package).bind fun _ _ _ h => selectorType_links name h

theorem array_links {elem : TypeExprId} (h : b.file.HasAll [.type elem]) :
    Links b (array name elem) fun id b' => b'.file.HasAll [.type id] := by
  refine (literal_links .int name).bind fun length b' hkept hlength => addType_links ?_
  exact List.forall_mem_cons.mpr ⟨hlength _ List.mem_cons_self, fun n hn => hkept n (h n hn)⟩

theorem badType_links : Links b badType fun id b' => b'.file.HasAll [.type id] :=
  (KeepsNodes.links _).bind fun _ _ _ _ => addType_links (List.forall_mem_nil _)

theorem field_links {type : TypeExprId} (h : b.file.HasAll [.type type]) :
    Links b (field names type) fun id b' => b'.file.HasAll [.field id] :=
  links_bind h fun _ _ h => addField_links h

theorem taggedField_links {type : TypeExprId} (h : b.file.HasAll [.type type]) (tag : String) :
    Links b (taggedField names type tag) fun id b' => b'.file.HasAll [.field id] := by
  refine (field_links names h).bind fun id b₁ _ hid => links_bind hid fun span b₂ hid => ?_
  refine (modifyField_links id (f := fun f => { f with tag := some span }) fun _ => rfl).bind
    fun _ b₃ hkept _ => links_pure ?_
  exact fun n hn => hkept n (hid n hn)

theorem fieldDoc_links (id : FieldId) : Links b (fieldDoc id lines) fun _ _ => True :=
  (KeepsNodes.links _).bind fun group _ _ _ =>
    (modifyField_links id (f := fun f => { f with doc := some group }) fun _ => rfl).bind
      fun _ _ _ _ => links_pure trivial

theorem typeParam_links (i : Ident) :
    Links b (typeParam i) fun id b' => b'.file.HasAll [.field id] := by
  have hnone : b.file.HasAll (TypeNode.named i []).parts := List.forall_mem_nil _
  exact (addType_links hnone).bind fun _ _ _ h => addField_links h

theorem typeParams_links (waiting : List Ident) :
    Links b (waiting.mapM typeParam) fun ids b' => b'.file.HasAll (ids.map .field) := by
  induction waiting generalizing b with
  | nil => exact links_pure (List.forall_mem_nil _)
  | cons i waiting ih =>
    rw [List.mapM_cons]
    refine (typeParam_links i).bind fun id b₁ _ hid => ih.bind fun ids b₂ hkept hids => ?_
    exact links_pure (List.forall_mem_cons.mpr ⟨hkept _ (hid _ List.mem_cons_self), hids⟩)

theorem mergeParams_links {groups : List ParamGroup}
    (h : ∀ g ∈ groups, b.file.HasAll (g.type.toList.map .type)) (waiting : List Ident) :
    Links b (mergeParams waiting groups) fun ids b' => b'.file.HasAll (ids.map .field) := by
  induction groups generalizing waiting b with
  | nil => exact typeParams_links waiting
  | cons g rest ih =>
    obtain ⟨hg, hrest⟩ := List.forall_mem_cons.mp h
    obtain ⟨idents, type | type⟩ := g
    · exact ih hrest (waiting ++ idents)
    · unfold mergeParams
      refine (addField_links hg).bind fun id b₁ hkept₁ hid => ?_
      have hthere : ∀ g ∈ rest, b₁.file.HasAll (g.type.toList.map .type) :=
        fun g hmem n hn => hkept₁ n (hrest g hmem n hn)
      refine (ih hthere []).bind fun ids b₂ hkept₂ hids => links_pure ?_
      exact List.forall_mem_cons.mpr ⟨hkept₂ _ (hid _ List.mem_cons_self), hids⟩

theorem methodElem_links {signature : SignatureId} (h : b.file.HasAll [.signature signature]) :
    Links b (methodElem name signature) fun node b' => b'.file.HasAll node.parts :=
  links_bind h fun _ _ h => links_pure h

theorem importSpec_links (alias? : Option ImportNameNode) :
    Links b (importSpec alias? name) fun _ _ => True :=
  (KeepsNodes.links _).bind fun _ _ _ _ => declare_links fun _ => List.forall_mem_nil _

theorem typeSpec_links {typeParams : List FieldId} {type : TypeExprId}
    (h : b.file.HasAll (.type type :: typeParams.map .field)) (isAlias : Bool) :
    Links b (typeSpec name typeParams type isAlias) fun _ _ => True :=
  links_bind h fun i _ h => declare_links fun _ => by
    change File.HasAll _ ((SpecNode.typeSpec none i typeParams type isAlias).parts ++ [])
    rw [List.append_nil]
    exact h

theorem valueSpec_links {type : Option TypeExprId} {values : List ExprId}
    (h : b.file.HasAll (type.toList.map .type ++ values.map .expr)) :
    Links b (valueSpec names type values) fun node b' => b'.file.HasAll node.parts :=
  links_bind h fun _ _ h => links_pure h

theorem group_links (kind : GroupKind) {specs : List SpecNode}
    (h : b.file.HasAll (specs.flatMap SpecNode.parts)) :
    Links b (group kind specs) fun _ _ => True :=
  declare_links fun _ => h

theorem values_link (kind : GroupKind) {type : Option TypeExprId} {values : List ExprId}
    (h : b.file.HasAll (type.toList.map .type ++ values.map .expr)) :
    Links b (do let spec ← valueSpec names type values; group kind [spec]) fun _ _ => True :=
  (valueSpec_links names h).bind fun spec _ _ hspec => group_links kind (by
    rw [List.flatMap_singleton]
    exact hspec)

theorem func_links {signature : SignatureId} (h : b.file.HasAll [.signature signature]) :
    Links b (func name signature) fun _ _ => True :=
  links_bind h fun _ _ h => declare_links fun _ => h

theorem method_links (receiverName : String) {receiverType : TypeExprId} {signature : SignatureId}
    (h : b.file.HasAll [.type receiverType, .signature signature]) :
    Links b (method receiverName receiverType name signature) fun _ _ => True := by
  obtain ⟨htype, hsignature⟩ := List.forall_mem_cons.mp h
  refine (field_links [receiverName] (List.forall_mem_singleton.mpr htype)).bind
    fun id b₁ hkept hid => ?_
  have hall : b₁.file.HasAll [.signature signature, .field id] :=
    List.forall_mem_cons.mpr ⟨hkept _ (hsignature _ List.mem_cons_self), hid⟩
  exact links_bind hall fun _ _ hall => declare_links fun _ => hall

end Methods

end Builder

end GoPackages.Source
