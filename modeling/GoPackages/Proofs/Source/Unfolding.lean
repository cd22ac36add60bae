import GoPackages.Proofs.Source.NodeOrder
import GoPackages.Source.Unfold
import Mathlib.Logic.Relation

/-!
# Trees of layered files

The tree of a node is unfolded to a depth that bounds every path without repetitions. In a file
whose references lead down, no path is cut off there: the trees are the same at all greater depths.
-/
namespace GoPackages.Source.File

variable {f : File}

/-- The node has the same tree, cut off at one depth or the other. -/
def SameTree (f : File) (d e : Nat) : Node → Prop
  | .type id => f.typeTree d id = f.typeTree e id
  | .expr id => f.exprTree d id = f.exprTree e id
  | .field id => f.fieldTree d id = f.fieldTree e id
  | .signature id => f.signatureTree d id = f.signatureTree e id

section Layer

variable {d e : Nat}

theorem map_typeTree_eq {ids : List TypeExprId}
    (h : ∀ m ∈ ids.map Node.type, f.SameTree d e m) :
    (ids.map fun id (_ : Unit) => f.typeTree d id) = ids.map fun id _ => f.typeTree e id :=
  List.map_congr_left fun id hid => funext fun _ => h (.type id) (List.mem_map_of_mem hid)

theorem map_fieldTree_eq {ids : List FieldId} (h : ∀ m ∈ ids.map Node.field, f.SameTree d e m) :
    ids.map (f.fieldTree d) = ids.map (f.fieldTree e) :=
  List.map_congr_left fun id hid => h (.field id) (List.mem_map_of_mem hid)

theorem elemTree_eq {elem : ElemNode} (h : ∀ m ∈ elem.parts, f.SameTree d e m) :
    f.elemTree (d + 1) elem = f.elemTree (e + 1) elem := by
  cases elem with
  | method name signature =>
    have hsignature : f.signatureTree d signature = f.signatureTree e signature :=
      h (.signature signature) List.mem_cons_self
    simp only [elemTree, hsignature]
  | embedded type =>
    have htype : f.typeTree d type = f.typeTree e type := h (.type type) List.mem_cons_self
    simp only [elemTree, htype]
  | union terms =>
    simp only [elemTree, InterfaceElem.union.injEq]
    refine List.map_congr_left fun term hterm => ?_
    have htype : f.typeTree d term.2 = f.typeTree e term.2 :=
      h (.type term.2) (List.mem_map_of_mem hterm)
    rw [htype]

theorem typeTree_eq {id : TypeExprId}
    (h : ∀ m ∈ f.parts (.type id), f.SameTree (d + 1) (e + 1) m ∧ f.SameTree d e m) :
    f.typeTree (d + 2) id = f.typeTree (e + 2) id := by
  rw [typeTree, typeTree]
  cases hnode : f.types[id.index]? with
  | none => rfl
  | some node =>
    rw [parts_type hnode] at h
    have hpart : ∀ m ∈ node.parts, f.SameTree (d + 1) (e + 1) m := fun m hm => (h m hm).1
    cases node with
    | named name args => simp only [map_typeTree_eq hpart]
    | selector base name args =>
      obtain ⟨hbase, hargs⟩ := List.forall_mem_cons.mp hpart
      have hbase : f.exprTree (d + 1) base = f.exprTree (e + 1) base := hbase
      simp only [hbase, map_typeTree_eq hargs]
    | pointer elem | slice elem | ellipsis elem | chan dir elem | paren elem =>
      have helem : f.typeTree (d + 1) elem = f.typeTree (e + 1) elem :=
        hpart (.type elem) List.mem_cons_self
      simp only [helem]
    | array length elem =>
      have hlength : f.exprTree (d + 1) length = f.exprTree (e + 1) length :=
        hpart (.expr length) List.mem_cons_self
      have helem : f.typeTree (d + 1) elem = f.typeTree (e + 1) elem :=
        hpart (.type elem) (List.mem_cons_of_mem _ List.mem_cons_self)
      simp only [hlength, helem]
    | map key value =>
      have hkey : f.typeTree (d + 1) key = f.typeTree (e + 1) key :=
        hpart (.type key) List.mem_cons_self
      have hvalue : f.typeTree (d + 1) value = f.typeTree (e + 1) value :=
        hpart (.type value) (List.mem_cons_of_mem _ List.mem_cons_self)
      simp only [hkey, hvalue]
    | func signature =>
      have hsignature : f.signatureTree (d + 1) signature = f.signatureTree (e + 1) signature :=
        hpart (.signature signature) List.mem_cons_self
      simp only [hsignature]
    | struct fields => simp only [map_fieldTree_eq hpart]
    | interface elems =>
      -- the parts are those of the elements, which are one step below the node
      have helems : elems.map (f.elemTree (d + 1)) = elems.map (f.elemTree (e + 1)) :=
        List.map_congr_left fun elem helem => elemTree_eq fun m hm =>
          (h m (List.mem_flatMap.mpr ⟨elem, helem, hm⟩)).2
      simp only [helems]
    | bad span => rfl

theorem exprTree_eq {id : ExprId} (h : ∀ m ∈ f.parts (.expr id), f.SameTree d e m) :
    f.exprTree (d + 1) id = f.exprTree (e + 1) id := by
  rw [exprTree, exprTree]
  cases hnode : f.exprs[id.index]? with
  | none => rfl
  | some node =>
    rw [parts_expr hnode] at h
    cases node with
    | composite type =>
      cases type with
      | none => rfl
      | some type =>
        have htype : f.typeTree d type = f.typeTree e type :=
          h (.type type) List.mem_cons_self
        simp only [Option.map_some, htype]
    | selector base name =>
      have hbase : f.exprTree d base = f.exprTree e base := h (.expr base) List.mem_cons_self
      simp only [hbase]
    | call inner | unary op inner | paren inner =>
      have hinner : f.exprTree d inner = f.exprTree e inner :=
        h (.expr inner) List.mem_cons_self
      simp only [hinner]
    | ident name | literal kind span | other span | bad span => rfl

theorem fieldTree_eq {id : FieldId} (h : ∀ m ∈ f.parts (.field id), f.SameTree d e m) :
    f.fieldTree (d + 1) id = f.fieldTree (e + 1) id := by
  rw [fieldTree, fieldTree]
  cases hnode : f.fields[id.index]? with
  | none => rfl
  | some node =>
    rw [parts_field hnode] at h
    have htype : f.typeTree d node.type = f.typeTree e node.type :=
      h (.type node.type) List.mem_cons_self
    simp only [htype]

theorem signatureTree_eq {id : SignatureId}
    (h : ∀ m ∈ f.parts (.signature id), f.SameTree d e m) :
    f.signatureTree (d + 1) id = f.signatureTree (e + 1) id := by
  rw [signatureTree, signatureTree]
  cases hnode : f.signatures[id.index]? with
  | none => rfl
  | some node =>
    rw [parts_signature hnode, SignatureNode.parts, List.map_append] at h
    obtain ⟨hparams, hresults⟩ := List.forall_mem_append.mp h
    simp only [map_fieldTree_eq hparams, map_fieldTree_eq hresults]

theorem sameTree_of_parts {n : Node}
    (h : ∀ m ∈ f.parts n, f.SameTree (d + 1) (e + 1) m ∧ f.SameTree d e m) :
    f.SameTree (d + 2) (e + 2) n := by
  cases n with
  | type id => exact typeTree_eq h
  | expr id => exact exprTree_eq fun m hm => (h m hm).1
  | field id => exact fieldTree_eq fun m hm => (h m hm).1
  | signature id => exact signatureTree_eq fun m hm => (h m hm).1

end Layer

namespace RankedBy

variable {rank : Node → Nat} (hf : f.RankedBy rank)
include hf

/-- Nothing is cut off below the rank. -/
theorem sameTree {n : Node} {d e : Nat} (hd : 2 * rank n + 2 ≤ d) (he : 2 * rank n + 2 ≤ e) :
    f.SameTree d e n := by
  induction hk : rank n using Nat.strongRecOn generalizing n d e with
  | ind k ih =>
    obtain ⟨d, rfl⟩ : ∃ d', d = d' + 2 := ⟨d - 2, by omega⟩
    obtain ⟨e, rfl⟩ : ∃ e', e = e' + 2 := ⟨e - 2, by omega⟩
    apply sameTree_of_parts
    intro m hm
    have hlt := hf.decreases n m hm
    exact ⟨ih _ (hk ▸ hlt) (by omega) (by omega) rfl, ih _ (hk ▸ hlt) (by omega) (by omega) rfl⟩

theorem sameTree_of_has {n : Node} (hn : f.Has n) {depth : Nat} (h : 2 * f.nodeCount ≤ depth) :
    f.SameTree depth f.depthBound n := by
  have hbounded := hf.bounded n hn
  apply hf.sameTree
  · omega
  · rw [depthBound]
    omega

theorem reached {n m : Node} (h : Relation.TransGen f.Refers n m) : f.Has m ∧ rank m < rank n := by
  induction h with
  | single hm => exact ⟨hf.present _ _ hm, hf.decreases _ _ hm⟩
  | tail _ hm ih => exact ⟨hf.present _ _ hm, Nat.lt_trans (hf.decreases _ _ hm) ih.2⟩

end RankedBy

end GoPackages.Source.File
