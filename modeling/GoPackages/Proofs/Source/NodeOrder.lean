import GoPackages.Proofs.Source.Recovery

/-!
# The order of nodes

The nodes of a file stand in four arenas and refer to each other across them, so that no index
tells which of two nodes was there first. Their order is that of the calls that added them: a call
refers to what earlier calls handed out, so a new node goes above all nodes that are there.
-/
namespace GoPackages.Source

inductive Node where
  | type (id : TypeExprId)
  | expr (id : ExprId)
  | field (id : FieldId)
  | signature (id : SignatureId)
  deriving DecidableEq, Repr

def ElemNode.parts : ElemNode → List Node
  | .method _ signature => [.signature signature]
  | .embedded type => [.type type]
  | .union terms => terms.map fun term => .type term.2

def TypeNode.parts : TypeNode → List Node
  | .named _ args => args.map .type
  | .selector base _ args => .expr base :: args.map .type
  | .pointer elem | .slice elem | .ellipsis elem | .chan _ elem | .paren elem => [.type elem]
  | .array length elem => [.expr length, .type elem]
  | .map key value => [.type key, .type value]
  | .func signature => [.signature signature]
  | .struct fields => fields.map .field
  | .interface elems => elems.flatMap ElemNode.parts
  | .bad _ => []

def ExprNode.parts : ExprNode → List Node
  | .composite type => type.toList.map .type
  | .selector base _ => [.expr base]
  | .call inner | .unary _ inner | .paren inner => [.expr inner]
  | .ident _ | .literal _ _ | .other _ | .bad _ => []

def FieldNode.parts (node : FieldNode) : List Node := [.type node.type]

def SignatureNode.parts (node : SignatureNode) : List Node :=
  (node.params ++ node.results).map .field

def SpecNode.parts : SpecNode → List Node
  | .importSpec _ _ _ => []
  | .valueSpec _ _ type values => type.toList.map .type ++ values.map .expr
  | .typeSpec _ _ typeParams type _ => .type type :: typeParams.map .field

def DeclNode.parts : DeclNode → List Node
  | .group _ _ specs => specs.flatMap SpecNode.parts
  | .func _ receiver _ typeParams signature _ =>
    .signature signature :: (receiver.toList ++ typeParams).map .field

theorem lt_size_push {α : Type} {a : Array α} {v : α} {k : Nat} :
    k < (a.push v).size ↔ k < a.size ∨ k = a.size := by
  rw [Array.size_push]
  omega

theorem getElem?_push_of_ne {α : Type} {a : Array α} {v : α} {k : Nat} (h : k ≠ a.size) :
    (a.push v)[k]? = a[k]? := by
  rw [Array.getElem?_push, if_neg h]

namespace File

def Has (f : File) : Node → Prop
  | .type id => id.index < f.types.size
  | .expr id => id.index < f.exprs.size
  | .field id => id.index < f.fields.size
  | .signature id => id.index < f.signatures.size

instance (f : File) : DecidablePred f.Has := fun n => by
  cases n <;> exact inferInstanceAs (Decidable (_ < _))

def parts (f : File) : Node → List Node
  | .type id => (f.types[id.index]?.map TypeNode.parts).getD []
  | .expr id => (f.exprs[id.index]?.map ExprNode.parts).getD []
  | .field id => (f.fields[id.index]?.map FieldNode.parts).getD []
  | .signature id => (f.signatures[id.index]?.map SignatureNode.parts).getD []

def Refers (f : File) (n m : Node) : Prop := m ∈ f.parts n

instance (f : File) (n m : Node) : Decidable (f.Refers n m) :=
  inferInstanceAs (Decidable (_ ∈ _))

section Parts

variable {f : File}

theorem parts_type {id : TypeExprId} {node : TypeNode} (h : f.types[id.index]? = some node) :
    f.parts (.type id) = node.parts := by
  rw [parts, h, Option.map_some, Option.getD_some]

theorem parts_expr {id : ExprId} {node : ExprNode} (h : f.exprs[id.index]? = some node) :
    f.parts (.expr id) = node.parts := by
  rw [parts, h, Option.map_some, Option.getD_some]

theorem parts_field {id : FieldId} {node : FieldNode} (h : f.fields[id.index]? = some node) :
    f.parts (.field id) = node.parts := by
  rw [parts, h, Option.map_some, Option.getD_some]

theorem parts_signature {id : SignatureId} {node : SignatureNode}
    (h : f.signatures[id.index]? = some node) : f.parts (.signature id) = node.parts := by
  rw [parts, h, Option.map_some, Option.getD_some]

theorem refers_of_mem {n m : Node} {ps : List Node} (h : f.parts n = ps) (hm : m ∈ ps) :
    f.Refers n m := by
  rw [Refers, h]
  exact hm

end Parts

def HasAll (f : File) (ns : List Node) : Prop := ∀ n ∈ ns, f.Has n

/-- A rank of the nodes by which every node stands above those that it refers to. -/
structure RankedBy (f : File) (rank : Node → Nat) : Prop where
  bounded : ∀ n, f.Has n → rank n < f.nodeCount
  present : ∀ n m, f.Refers n m → f.Has m
  decreases : ∀ n m, f.Refers n m → rank m < rank n

/-- What is referred to is there, and stands below. -/
structure Layered (f : File) : Prop where
  ranked : ∃ rank, f.RankedBy rank
  declared : ∀ d ∈ f.decls, f.HasAll d.parts

structure Adds (f : File) (new : Node) (own : List Node) (f' : File) : Prop where
  fresh : ¬f.Has new
  own : f'.parts new = own
  has : ∀ n, f'.Has n ↔ f.Has n ∨ n = new
  parts : ∀ n, n ≠ new → f'.parts n = f.parts n
  count : f'.nodeCount = f.nodeCount + 1
  decls : f'.decls = f.decls

theorem adds_type (f : File) (node : TypeNode) :
    f.Adds (.type ⟨f.types.size⟩) node.parts { f with types := f.types.push node } where
  fresh := Nat.lt_irrefl _
  own := parts_type Array.getElem?_push_size
  has
    | .type ⟨_⟩ => lt_size_push.trans (or_congr_right (by simp))
    | .expr _ | .field _ | .signature _ => (or_iff_left nofun).symm
  parts
    | .type ⟨k⟩, hne => by
      have hk : k ≠ f.types.size := by simpa using hne
      simp only [parts, getElem?_push_of_ne hk]
    | .expr _, _ | .field _, _ | .signature _, _ => rfl
  count := by simp only [nodeCount, Array.size_push]; omega
  decls := rfl

theorem adds_expr (f : File) (node : ExprNode) :
    f.Adds (.expr ⟨f.exprs.size⟩) node.parts { f with exprs := f.exprs.push node } where
  fresh := Nat.lt_irrefl _
  own := parts_expr Array.getElem?_push_size
  has
    | .expr ⟨_⟩ => lt_size_push.trans (or_congr_right (by simp))
    | .type _ | .field _ | .signature _ => (or_iff_left nofun).symm
  parts
    | .expr ⟨k⟩, hne => by
      have hk : k ≠ f.exprs.size := by simpa using hne
      simp only [parts, getElem?_push_of_ne hk]
    | .type _, _ | .field _, _ | .signature _, _ => rfl
  count := by simp only [nodeCount, Array.size_push]; omega
  decls := rfl

theorem adds_field (f : File) (node : FieldNode) :
    f.Adds (.field ⟨f.fields.size⟩) node.parts { f with fields := f.fields.push node } where
  fresh := Nat.lt_irrefl _
  own := parts_field Array.getElem?_push_size
  has
    | .field ⟨_⟩ => lt_size_push.trans (or_congr_right (by simp))
    | .type _ | .expr _ | .signature _ => (or_iff_left nofun).symm
  parts
    | .field ⟨k⟩, hne => by
      have hk : k ≠ f.fields.size := by simpa using hne
      simp only [parts, getElem?_push_of_ne hk]
    | .type _, _ | .expr _, _ | .signature _, _ => rfl
  count := by simp only [nodeCount, Array.size_push]; omega
  decls := rfl

theorem adds_signature (f : File) (node : SignatureNode) :
    f.Adds (.signature ⟨f.signatures.size⟩) node.parts
      { f with signatures := f.signatures.push node } where
  fresh := Nat.lt_irrefl _
  own := parts_signature Array.getElem?_push_size
  has
    | .signature ⟨_⟩ => lt_size_push.trans (or_congr_right (by simp))
    | .type _ | .expr _ | .field _ => (or_iff_left nofun).symm
  parts
    | .signature ⟨k⟩, hne => by
      have hk : k ≠ f.signatures.size := by simpa using hne
      simp only [parts, getElem?_push_of_ne hk]
    | .type _, _ | .expr _, _ | .field _, _ => rfl
  count := by simp only [nodeCount, Array.size_push]; omega
  decls := rfl

variable {f f' : File} {new : Node} {own : List Node}

theorem Layered.add (h : f.Layered) (hadds : f.Adds new own f') (hown : f.HasAll own) :
    f'.Layered := by
  obtain ⟨rank, hrank⟩ := h.ranked
  have hold : ∀ n, f.Has n → f'.Has n := fun n hn => (hadds.has n).mpr (.inl hn)
  have hne : ∀ n, f.Has n → n ≠ new := fun n hn e => hadds.fresh (e ▸ hn)
  refine ⟨⟨fun n => if n = new then f.nodeCount else rank n, ?_, ?_, ?_⟩, ?_⟩
  · intro n hn
    rw [hadds.count]
    rcases (hadds.has n).mp hn with hn | rfl
    · rw [if_neg (hne n hn)]
      exact Nat.lt_succ_of_lt (hrank.bounded n hn)
    · rw [if_pos rfl]
      exact Nat.lt_succ_self _
  · intro n m hm
    by_cases hn : n = new
    · subst hn
      rw [Refers, hadds.own] at hm
      exact hold m (hown m hm)
    · rw [Refers, hadds.parts n hn] at hm
      exact hold m (hrank.present n m hm)
  · intro n m hm
    by_cases hn : n = new
    · subst hn
      rw [Refers, hadds.own] at hm
      have hthere := hown m hm
      simp only [if_neg (hne m hthere), if_true]
      exact hrank.bounded m hthere
    · rw [Refers, hadds.parts n hn] at hm
      simp only [if_neg hn, if_neg (hne m (hrank.present n m hm))]
      exact hrank.decreases n m hm
  · intro d hd n hn
    rw [hadds.decls] at hd
    exact hold n (h.declared d hd n hn)

structure SameNodes (f f' : File) : Prop where
  has : ∀ n, f'.Has n ↔ f.Has n
  parts : ∀ n, f'.parts n = f.parts n
  count : f'.nodeCount = f.nodeCount
  decls : f'.decls = f.decls

theorem SameNodes.layered (hsame : f.SameNodes f') (h : f.Layered) : f'.Layered := by
  obtain ⟨rank, hrank⟩ := h.ranked
  refine ⟨⟨rank, fun n hn => ?_, fun n m hm => ?_, fun n m hm => ?_⟩, fun d hd n hn => ?_⟩
  · rw [hsame.count]
    exact hrank.bounded n ((hsame.has n).mp hn)
  · rw [Refers, hsame.parts] at hm
    exact (hsame.has m).mpr (hrank.present n m hm)
  · rw [Refers, hsame.parts] at hm
    exact hrank.decreases n m hm
  · rw [hsame.decls] at hd
    exact (hsame.has n).mpr (h.declared d hd n hn)

def nodes (f : File) :=
  (f.types, f.exprs, f.fields, f.signatures, f.decls)

theorem sameNodes_of_nodes (h : f'.nodes = f.nodes) : f.SameNodes f' := by
  obtain ⟨htypes, hexprs, hfields, hsignatures, hdecls⟩ :
      f'.types = f.types ∧ f'.exprs = f.exprs ∧ f'.fields = f.fields ∧
        f'.signatures = f.signatures ∧ f'.decls = f.decls := by
    simpa only [nodes, Prod.mk.injEq] using h
  constructor
  case has =>
    intro n
    cases n <;> simp only [Has, htypes, hexprs, hfields, hsignatures]
  case parts =>
    intro n
    cases n <;> simp only [parts, htypes, hexprs, hfields, hsignatures]
  case count => simp only [nodeCount, htypes, hexprs, hfields, hsignatures]
  case decls => exact hdecls

end File

end GoPackages.Source
