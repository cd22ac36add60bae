import GoPackages.Source.Builder

/-!
# How a file grows while it is built

Whatever a builder does, it only adds to the file: text, names and nodes come after those that are
there. Of the nodes only fields are written to later, and they keep their names, their type and
their tag. That a program of the builder does no more than that is found from its parts by instance
resolution.
-/
namespace GoPackages.Source

structure File.Later (f f' : File) : Prop where
  text : ∃ more, f'.text = f.text ++ more
  symbols : ∀ (k : Nat) s, f.symbols.strings[k]? = some s → f'.symbols.strings[k]? = some s
  exprs : ∀ (k : Nat) node, f.exprs[k]? = some node → f'.exprs[k]? = some node
  types : ∀ (k : Nat) node, f.types[k]? = some node → f'.types[k]? = some node
  fields : ∀ (k : Nat) node, f.fields[k]? = some node → ∃ node', f'.fields[k]? = some node' ∧
    node'.names = node.names ∧ node'.type = node.type ∧
      ∀ span, node.tag = some span → node'.tag = some span
  commentGroups : ∀ (k : Nat) group, f.commentGroups[k]? = some group →
    f'.commentGroups[k]? = some group
  decls : ∀ (k : Nat) node, f.decls[k]? = some node → f'.decls[k]? = some node

namespace File.Later

variable {f f' f'' : File}

theorem refl (f : File) : f.Later f where
  text := ⟨"", String.append_empty.symm⟩
  symbols _ _ := id
  exprs _ _ := id
  types _ _ := id
  fields _ node h := ⟨node, h, rfl, rfl, fun _ => id⟩
  commentGroups _ _ := id
  decls _ _ := id

theorem trans (h : f.Later f') (h' : f'.Later f'') : f.Later f'' where
  text := by
    obtain ⟨more, hmore⟩ := h.text
    obtain ⟨more', hmore'⟩ := h'.text
    exact ⟨more ++ more', by rw [hmore', hmore, String.append_assoc]⟩
  symbols k s := h'.symbols k s ∘ h.symbols k s
  exprs k node := h'.exprs k node ∘ h.exprs k node
  types k node := h'.types k node ∘ h.types k node
  fields k node hnode := by
    obtain ⟨node₁, hnode₁, hnames₁, htype₁, htag₁⟩ := h.fields k node hnode
    obtain ⟨node₂, hnode₂, hnames₂, htype₂, htag₂⟩ := h'.fields k node₁ hnode₁
    exact ⟨node₂, hnode₂, hnames₂.trans hnames₁, htype₂.trans htype₁,
      fun span => htag₂ span ∘ htag₁ span⟩
  commentGroups k group := h'.commentGroups k group ∘ h.commentGroups k group
  decls k node := h'.decls k node ∘ h.decls k node

end File.Later

theorem getElem?_push_of_some {α : Type} {a : Array α} {k : Nat} {v : α} (h : a[k]? = some v)
    (w : α) : (a.push w)[k]? = some v := by
  rw [Array.getElem?_push, if_neg (Nat.ne_of_lt (Array.getElem?_eq_some_iff.mp h).1), h]

theorem getElem?_append_of_some {α : Type} {l : List α} {k : Nat} {v : α} (h : l[k]? = some v)
    (l' : List α) : (l ++ l')[k]? = some v := by
  rw [List.getElem?_append_left (List.getElem?_eq_some_iff.mp h).1, h]

namespace Interner

variable {hash : String → UInt64} {t : Interner hash}

theorem strings_intern {k : Nat} {v : String} (h : t.strings[k]? = some v) (s : String) :
    (t.intern s).2.strings[k]? = some v := by
  unfold intern
  split
  · exact h
  · exact getElem?_push_of_some h s

theorem size_intern_le (t : Interner hash) (s : String) : (t.intern s).2.size ≤ t.size + 1 := by
  unfold intern
  split
  · exact Nat.le_succ _
  · exact Nat.le_of_eq (Array.size_push _)

theorem resolve?_intern (h : t.size < UInt32.size) (s : String) :
    (t.intern s).2.resolve? (t.intern s).1 = some s := by
  unfold intern
  split
  next symbol hknown => exact resolve?_of_get? hknown
  next =>
    have hindex : (UInt32.ofNat t.strings.size).toNat = t.strings.size :=
      UInt32.toNat_ofNat_of_lt' h
    rw [resolve?, hindex, Array.getElem?_push_size]

end Interner

/-- A program of the builder that only adds to the file, and leaves the package clause alone. -/
class Appends {α : Type} (m : BuildM α) : Prop where
  later : ∀ b : Builder, b.file.Later (m b).2.file
  name : ∀ b : Builder, (m b).2.file.name = b.file.name

namespace Builder

variable {α β : Type}

instance (a : α) : Appends (pure a : BuildM α) := ⟨fun b => .refl b.file, fun _ => rfl⟩

instance (m : BuildM α) (k : α → BuildM β) [Appends m] [∀ a, Appends (k a)] :
    Appends (m >>= k) where
  later b := (Appends.later b).trans (Appends.later (m := k (m b).1) (m b).2)
  name b := (Appends.name (m := k (m b).1) (m b).2).trans (Appends.name b)

instance (f : α → BuildM β) [∀ a, Appends (f a)] (l : List α) : Appends (l.mapM f) := by
  induction l with
  | nil => exact inferInstanceAs (Appends (pure []))
  | cons a l ih =>
    rw [List.mapM_cons]
    infer_instance

instance (s : String) : Appends (appendText s) where
  later b :=
    { File.Later.refl b.file with
      text := ⟨s ++ "\n", String.append_assoc⟩ }
  name _ := rfl

instance (s : String) : Appends (intern s) where
  later b := { File.Later.refl b.file with symbols := fun _ _ h => Interner.strings_intern h s }
  name _ := rfl

instance (node : TypeNode) : Appends (addType node) where
  later b := { File.Later.refl b.file with types := fun _ _ h => getElem?_push_of_some h node }
  name _ := rfl

instance (node : ExprNode) : Appends (addExpr node) where
  later b := { File.Later.refl b.file with exprs := fun _ _ h => getElem?_push_of_some h node }
  name _ := rfl

instance (node : FieldNode) : Appends (addField node) where
  later b :=
    { File.Later.refl b.file with
      fields := fun _ old h => ⟨old, getElem?_push_of_some h node, rfl, rfl, fun _ => id⟩ }
  name _ := rfl

instance (make : Option CommentGroupId → DeclNode) : Appends (declare make) where
  later b := { File.Later.refl b.file with decls := fun _ _ h => getElem?_append_of_some h _ }
  name _ := rfl

instance (params results : List FieldId) : Appends (signature params results) where
  later b := { File.Later.refl b.file with }
  name _ := rfl

theorem modifyField_later {b : Builder} {id : FieldId} {f : FieldNode → FieldNode}
    (h : ∀ node, b.file.fields[id.index]? = some node → (f node).names = node.names ∧
      (f node).type = node.type ∧ ∀ span, node.tag = some span → (f node).tag = some span) :
    b.file.Later (modifyField id f b).2.file :=
  { File.Later.refl b.file with
    fields := fun k node hnode => by
      change ∃ node', (b.file.fields.modify id.index f)[k]? = some node' ∧ _
      rw [Array.getElem?_modify]
      by_cases hk : id.index = k
      · subst hk
        obtain ⟨hnames, htype, htag⟩ := h node hnode
        exact ⟨f node, by rw [if_pos rfl, hnode]; rfl, hnames, htype, htag⟩
      · exact ⟨node, by rw [if_neg hk, hnode], rfl, rfl, fun _ h => h⟩ }

section Methods

variable (name : String) (lines : List String) (type : TypeExprId)

instance : Appends (ident name) := by unfold ident; infer_instance

instance : Appends (comment name) := by unfold comment; infer_instance

instance : Appends (commentGroup lines) where
  later b := by
    have hlines := Appends.later (m := lines.mapM comment) b
    exact { hlines with
      commentGroups := fun k group h => getElem?_push_of_some (hlines.commentGroups k group h) _ }
  name b := Appends.name (m := lines.mapM comment) b

instance : Appends (packageDoc lines) where
  later b := { Appends.later (m := commentGroup lines) b with }
  name b := Appends.name (m := commentGroup lines) b

instance : Appends (doc lines) where
  later b := Appends.later (m := commentGroup lines) b
  name b := Appends.name (m := commentGroup lines) b

instance (kind : LiteralKind) : Appends (literal kind name) := by unfold literal; infer_instance

instance : Appends (identExpr name) := by unfold identExpr; infer_instance

instance (base : ExprId) : Appends (selectorExpr base name) := by
  unfold selectorExpr; infer_instance

instance : Appends (composite type) := inferInstanceAs (Appends (addExpr _))

instance (op : UnaryOp) (operand : ExprId) : Appends (unary op operand) :=
  inferInstanceAs (Appends (addExpr _))

instance (callee : ExprId) : Appends (call callee) := inferInstanceAs (Appends (addExpr _))

instance : Appends (otherExpr name) := by unfold otherExpr; infer_instance

instance (args : List TypeExprId) : Appends (generic name args) := by
  unfold generic; infer_instance

instance : Appends (named name) := inferInstanceAs (Appends (generic name []))

instance (base : ExprId) : Appends (selectorType base name) := by
  unfold selectorType; infer_instance

instance (package : String) : Appends (qualified package name) := by
  unfold qualified; infer_instance

instance : Appends (pointer type) := inferInstanceAs (Appends (addType _))

instance : Appends (slice type) := inferInstanceAs (Appends (addType _))

instance : Appends (array name type) := by unfold array; infer_instance

instance : Appends (ellipsis type) := inferInstanceAs (Appends (addType _))

instance (value : TypeExprId) : Appends (map type value) := inferInstanceAs (Appends (addType _))

instance (dir : ChanDir) : Appends (chan dir type) := inferInstanceAs (Appends (addType _))

instance (sig : SignatureId) : Appends (funcType sig) := inferInstanceAs (Appends (addType _))

instance (fields : List FieldId) : Appends (structType fields) :=
  inferInstanceAs (Appends (addType _))

instance (elems : List ElemNode) : Appends (interfaceType elems) :=
  inferInstanceAs (Appends (addType _))

instance : Appends (paren type) := inferInstanceAs (Appends (addType _))

instance : Appends badType := by unfold badType; infer_instance

instance : Appends (field lines type) := by unfold field; infer_instance

theorem setTag_later (tag : String) (b : Builder) (span : Span) :
    let b' := (appendText tag (field lines type b).2).2
    b'.file.Later
      (modifyField (field lines type b).1 (fun f => { f with tag := some span }) b').2.file := by
  refine modifyField_later fun node hnode => ⟨rfl, rfl, fun span htag => ?_⟩
  have hnew : (field lines type b).2.file.fields[(field lines type b).1.index]? =
      some { names := ((lines.mapM ident : BuildM _) b).1, type } := Array.getElem?_push_size
  obtain rfl := Option.some.inj (hnode.symm.trans hnew)
  cases htag

instance (tag : String) : Appends (taggedField lines type tag) where
  later b := (Appends.later (m := field lines type) b).trans
    ((Appends.later (m := appendText tag) _).trans (setTag_later lines type tag b _))
  name b := Appends.name (m := field lines type) b

instance (id : FieldId) (group : CommentGroupId) :
    Appends (modifyField id fun f => { f with doc := some group }) where
  later _ := modifyField_later fun _ _ => ⟨rfl, rfl, fun _ h => h⟩
  name _ := rfl

instance (id : FieldId) : Appends (fieldDoc id lines) := by unfold fieldDoc; infer_instance

instance (i : Ident) : Appends (typeParam i) := by unfold typeParam; infer_instance

instance (waiting : List Ident) (groups : List ParamGroup) :
    Appends (mergeParams waiting groups) := by
  induction groups generalizing waiting with
  | nil => unfold mergeParams; infer_instance
  | cons g rest ih =>
    obtain ⟨names, type | type⟩ := g
    · exact ih (waiting ++ names)
    · unfold mergeParams
      infer_instance

instance (groups : List ParamGroup) : Appends (params groups) :=
  inferInstanceAs (Appends (mergeParams [] groups))

instance (sig : SignatureId) : Appends (methodElem name sig) := by
  unfold methodElem; infer_instance

instance (kind : GroupKind) (specs : List SpecNode) : Appends (group kind specs) := by
  unfold group; infer_instance

instance (alias? : Option ImportNameNode) : Appends (importSpec alias? name) := by
  unfold importSpec; infer_instance

instance : Appends (importPackage name) := inferInstanceAs (Appends (importSpec none name))

instance (path : String) : Appends (importAs name path) := by unfold importAs; infer_instance

instance : Appends (importDot name) := by unfold importDot; infer_instance

instance : Appends (importBlank name) := by unfold importBlank; infer_instance

instance (params : List FieldId) (isAlias : Bool) :
    Appends (typeSpec name params type isAlias) := by
  unfold typeSpec; infer_instance

instance : Appends (typeDecl name type) := inferInstanceAs (Appends (typeSpec name [] type false))

instance : Appends (aliasDecl name type) := inferInstanceAs (Appends (typeSpec name [] type true))

instance (params : List FieldId) : Appends (genericTypeDecl name params type) :=
  inferInstanceAs (Appends (typeSpec name params type false))

instance (type : Option TypeExprId) (values : List ExprId) :
    Appends (valueSpec lines type values) := by
  unfold valueSpec; infer_instance

instance (type : Option TypeExprId) (values : List ExprId) :
    Appends (varDecl lines type values) := by
  unfold varDecl; infer_instance

instance (type : Option TypeExprId) (values : List ExprId) :
    Appends (constDecl lines type values) := by
  unfold constDecl; infer_instance

instance (sig : SignatureId) : Appends (func name sig) := by unfold func; infer_instance

instance (receiver : String) (sig : SignatureId) : Appends (method receiver type name sig) := by
  unfold method; infer_instance

end Methods

end Builder

end GoPackages.Source
