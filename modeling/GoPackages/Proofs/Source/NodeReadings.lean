import GoPackages.Analysis.Declaration
import GoPackages.Proofs.Source.LayeredCalls
import GoPackages.Proofs.Source.Unfolding
import Mathlib.Logic.Function.Iterate

/-!
# Reading a file node by node

Types and initializers are read by recursion over the nodes of a file, with nothing in the program
to say that it ends. It ends in built files, where references lead down, and what it reads of a
node is what is read of the tree of the node.
-/
namespace GoPackages.Source

namespace File

variable {f : File}

section Steps

def fieldTypeStep (f : File) (recur : TypeExprId → Analysis RefId) (id : FieldId) :
    Analysis RefId :=
  match f.fields[id.index]? with
  | some node => recur node.type
  | none => throw .badTypeExpression

def argumentsStep (f : File) (recur : TypeExprId → Analysis RefId) :
    List FieldId → Analysis (List Argument)
  | [] => return []
  | id :: rest => do
    let r ← f.fieldTypeStep recur id
    return Argument.ofNames (f.field id).names r ++ (← argumentsStep f recur rest)

def fieldsStep (f : File) (scope : FileScope) (recur : TypeExprId → Analysis RefId) (ty : TypeId) :
    List FieldId → Analysis Unit
  | [] => return
  | id :: rest => do
    let r ← f.fieldTypeStep recur id
    let tag ← scope.readTag (f.field id).tag
    modify (·.withGraph fun g => g.addFields ty
      (StructField.ofNames (f.field id).names (g.refName r) r tag ((f.field id).doc.getD [])))
    fieldsStep f scope recur ty rest

def resolveStep (f : File) (scope : FileScope) (recur : TypeExprId → Analysis RefId)
    (id : TypeExprId) : Analysis RefId :=
  match f.types[id.index]? with
  | none | some (.bad _) => throw .badTypeExpression
  | some (.named name _) => scope.resolveName (f.nameOf name)
  | some (.selector base name _) => scope.resolveQualified (f.expr base) (f.nameOf name)
  | some (.pointer elem) => do
    let inner ← recur elem
    Analysis.ofGraph (·.decorate .pointer inner)
  | some (.array _ elem) | some (.slice elem) => do
    let inner ← recur elem
    Analysis.ofGraph (·.decorate .array inner)
  | some (.chan _ elem) => do
    let inner ← recur elem
    Analysis.ofGraph (·.decorate .channel inner)
  | some (.ellipsis elem) => do
    let inner ← recur elem
    Analysis.ofGraph (·.decorate .ellipsis inner)
  | some (.map key value) => do
    let key ← recur key
    let value ← recur value
    Analysis.ofGraph (·.mapOf (some scope.package) key value)
  | some (.func signature) =>
    match f.signatures[signature.index]? with
    | none => throw .badTypeExpression
    | some node => do
      let arguments ← f.argumentsStep recur node.params
      let results ← f.argumentsStep recur node.results
      let kind := .method { arguments, results }
      let ty ← Analysis.ofGraph (·.addType { name := "", package := some scope.package, kind })
      Analysis.ofGraph (·.fresh (some scope.package) "" ty)
  | some (.interface _) => return TypeGraph.emptyInterface
  | some (.struct fields) => do
    let data := { name := anonymousStructName, package := some scope.package, kind := .struct {} }
    let ty ← Analysis.ofGraph (·.addType data)
    let r ← Analysis.ofGraph (·.fresh (some scope.package) anonymousStructName ty)
    f.fieldsStep scope recur ty fields
    return r
  | some (.paren inner) => recur inner

def inferStep (f : File) (scope : FileScope) (resolve : TypeExprId → Analysis RefId)
    (recur : ExprId → Analysis (Option RefId)) (id : ExprId) : Analysis (Option RefId) :=
  match f.exprs[id.index]? with
  | some (.literal kind _) => return some (← scope.resolveName kind.typeName)
  | some (.ident name) =>
    match identTypeName? (f.nameOf name) with
    | some typeName => return some (← scope.resolveName typeName)
    | none => return none
  | some (.composite (some type)) => return some (← resolve type)
  | some (.unary op operand) =>
    if op = .address then do
      match ← recur operand with
      | some r => return some (← Analysis.ofGraph (·.decorate .pointer r))
      | none => return none
    else if op.keepsType then recur operand
    else return none
  | some (.paren inner) => recur inner
  | _ => return none

def bareName? (f : File) (id : TypeExprId) : Option String :=
  match f.types[id.index]? with
  | some (.named name _) => some (f.nameOf name)
  | _ => none

/-- The names that the instantiation of a receiver type binds. -/
def receiverStep (f : File) (recur : TypeExprId → List String) (id : TypeExprId) : List String :=
  match f.types[id.index]? with
  | some (.pointer elem) => recur elem
  | some (.paren inner) => recur inner
  | some (.named _ args) => args.filterMap f.bareName?
  | _ => []

end Steps

section Lists

variable {scope : FileScope} {recur : TypeExprId → Analysis RefId} {ids : List FieldId}
  (h : ∀ id ∈ ids, f.fieldTypeStep recur id = resolveType scope ((f.field id).type ()))
include h

theorem argumentsStep_eq :
    f.argumentsStep recur ids = resolveArguments scope (ids.map f.field) := by
  induction ids with
  | nil => rfl
  | cons id rest ih =>
    obtain ⟨hid, hrest⟩ := List.forall_mem_cons.mp h
    rw [argumentsStep, hid, ih hrest, List.map_cons]
    cases f.field id
    rw [resolveArguments]

theorem fieldsStep_eq (ty : TypeId) :
    f.fieldsStep scope recur ty ids = resolveFields scope ty (ids.map f.field) := by
  induction ids with
  | nil => rfl
  | cons id rest ih =>
    obtain ⟨hid, hrest⟩ := List.forall_mem_cons.mp h
    rw [fieldsStep, hid, ih hrest, List.map_cons]
    cases f.field id
    rw [resolveFields]

end Lists

namespace RankedBy

variable {rank : Node → Nat} (hf : f.RankedBy rank) {scope : FileScope}
include hf

theorem part_eq {n m : Node} (h : f.Refers n m) : f.SameTree (2 * f.nodeCount) f.depthBound m :=
  hf.sameTree_of_has (hf.present n m h) (Nat.le_refl _)

theorem fieldTypeStep_eq {recur : TypeExprId → Analysis RefId} {id : FieldId}
    (hid : f.Has (.field id))
    (h : ∀ t, f.Refers (.field id) (.type t) → recur t = resolveType scope (f.type t)) :
    f.fieldTypeStep recur id = resolveType scope ((f.field id).type ()) := by
  obtain ⟨node, hnode⟩ : ∃ node, f.fields[id.index]? = some node :=
    ⟨_, Array.getElem?_eq_getElem hid⟩
  have hrefers : f.Refers (.field id) (.type node.type) :=
    refers_of_mem (parts_field hnode) List.mem_cons_self
  have htree : f.typeTree (2 * f.nodeCount) node.type = f.type node.type := hf.part_eq hrefers
  have htype : (f.field id).type () = f.typeTree (2 * f.nodeCount) node.type := by
    rw [field, depthBound, fieldTree, hnode]
  rw [fieldTypeStep, hnode, htype, htree]
  exact h node.type hrefers

theorem signature_eq {id : SignatureId} (hid : f.Has (.signature id)) :
    ∃ node, f.signatures[id.index]? = some node ∧
      (∀ i ∈ node.params ++ node.results, f.Refers (.signature id) (.field i)) ∧
        f.signature id = (node.params.map f.field, node.results.map f.field) := by
  obtain ⟨node, hnode⟩ : ∃ node, f.signatures[id.index]? = some node :=
    ⟨_, Array.getElem?_eq_getElem hid⟩
  have hrefers : ∀ i ∈ node.params ++ node.results, f.Refers (.signature id) (.field i) :=
    fun i hi => refers_of_mem (parts_signature hnode) (List.mem_map_of_mem hi)
  have htrees : ∀ ids, ids ⊆ node.params ++ node.results →
      ids.map (f.fieldTree (2 * f.nodeCount)) = ids.map f.field := fun ids hids =>
    List.map_congr_left fun i hi => hf.part_eq (hrefers i (hids hi))
  refine ⟨node, hnode, hrefers, ?_⟩
  rw [signature, depthBound, signatureTree, hnode, ← htrees _ (List.subset_append_left _ _),
    ← htrees _ (List.subset_append_right _ _)]

theorem resolveStep_eq {recur : TypeExprId → Analysis RefId} {id : TypeExprId}
    (h : ∀ t, Relation.TransGen f.Refers (.type id) (.type t) →
      recur t = resolveType scope (f.type t)) :
    f.resolveStep scope recur id = resolveType scope (f.type id) := by
  rw [resolveStep, type, depthBound, typeTree]
  cases hnode : f.types[id.index]? with
  | none => rfl
  | some node =>
    have hrefers : ∀ m ∈ node.parts, f.Refers (.type id) m :=
      fun m hm => refers_of_mem (parts_type hnode) hm
    have htype : ∀ t, .type t ∈ node.parts →
        recur t = resolveType scope (f.typeTree (2 * f.nodeCount) t) := by
      intro t ht
      have htree : f.typeTree (2 * f.nodeCount) t = f.type t := hf.part_eq (hrefers _ ht)
      rw [htree]
      exact h t (.single (hrefers _ ht))
    cases node with
    | bad span => rfl
    | named name args => rfl
    | selector base name args =>
      have hbase : f.exprTree (2 * f.nodeCount) base = f.expr base :=
        hf.part_eq (hrefers _ List.mem_cons_self)
      simp only [resolveType, hbase]
    | pointer elem | slice elem | ellipsis elem | chan dir elem | paren elem =>
      simp only [resolveType, htype elem List.mem_cons_self]
    | array length elem =>
      simp only [resolveType, htype elem (List.mem_cons_of_mem _ List.mem_cons_self)]
    | map key value =>
      simp only [resolveType, htype key List.mem_cons_self,
        htype value (List.mem_cons_of_mem _ List.mem_cons_self)]
    | func sig =>
      have hsig := hrefers _ List.mem_cons_self
      obtain ⟨node, hnode, hsignature⟩ := hf.signature_eq (hf.present _ _ hsig)
      have htree : f.signatureTree (2 * f.nodeCount) sig = f.signature sig := hf.part_eq hsig
      have hfields : ∀ i ∈ node.params ++ node.results,
          f.fieldTypeStep recur i = resolveType scope ((f.field i).type ()) := by
        intro i hi
        have hfield := hsignature.1 i hi
        exact hf.fieldTypeStep_eq (hf.present _ _ hfield) fun t ht =>
          h t (.tail (.tail (.single hsig) hfield) ht)
      obtain ⟨hparams, hresults⟩ := List.forall_mem_append.mp hfields
      simp only [resolveType, htree, hsignature.2, hnode, argumentsStep_eq hparams,
        argumentsStep_eq hresults]
    | struct fields =>
      have hfields : ∀ i ∈ fields,
          f.fieldTypeStep recur i = resolveType scope ((f.field i).type ()) := by
        intro i hi
        have hfield := hrefers _ (List.mem_map_of_mem hi)
        exact hf.fieldTypeStep_eq (hf.present _ _ hfield) fun t ht =>
          h t (.tail (.single hfield) ht)
      have htrees : fields.map (f.fieldTree (2 * f.nodeCount)) = fields.map f.field :=
        List.map_congr_left fun i hi => hf.part_eq (hrefers _ (List.mem_map_of_mem hi))
      simp only [resolveType, htrees, fieldsStep_eq hfields]
    | interface elems => rfl

theorem inferStep_eq {resolve : TypeExprId → Analysis RefId}
    {recur : ExprId → Analysis (Option RefId)} {id : ExprId}
    (hresolve : ∀ t, f.Refers (.expr id) (.type t) → resolve t = resolveType scope (f.type t))
    (h : ∀ e, f.Refers (.expr id) (.expr e) → recur e = inferType scope (f.expr e)) :
    f.inferStep scope resolve recur id = inferType scope (f.expr id) := by
  rw [inferStep, expr, depthBound, exprTree]
  cases hnode : f.exprs[id.index]? with
  | none => rfl
  | some node =>
    have hrefers : ∀ m ∈ node.parts, f.Refers (.expr id) m :=
      fun m hm => refers_of_mem (parts_expr hnode) hm
    have hexpr : ∀ e, .expr e ∈ node.parts →
        recur e = inferType scope (f.exprTree (2 * f.nodeCount) e) := by
      intro e he
      have htree : f.exprTree (2 * f.nodeCount) e = f.expr e := hf.part_eq (hrefers _ he)
      rw [htree]
      exact h e (hrefers _ he)
    cases node with
    | composite type =>
      cases type with
      | none => rfl
      | some type =>
        have hrefers := hrefers (.type type) List.mem_cons_self
        have htree : f.typeTree (2 * f.nodeCount) type = f.type type := hf.part_eq hrefers
        simp only [Option.map_some, inferType, htree, hresolve type hrefers]
    | unary op operand =>
      simp only [hexpr operand List.mem_cons_self]
      rfl
    | paren inner => simp only [inferType, hexpr inner List.mem_cons_self]
    | ident name | literal kind span | selector base name | call callee | other span
    | bad span => rfl

omit hf in
theorem bareName?_eq (id : TypeExprId) : f.bareName? id =
    match f.type id with
    | .named name _ => some name
    | _ => none := by
  rw [bareName?, type, depthBound, typeTree]
  cases f.types[id.index]? with
  | none => rfl
  | some node => cases node <;> rfl

theorem receiverStep_eq {recur : TypeExprId → List String} {id : TypeExprId}
    (h : ∀ t, f.Refers (.type id) (.type t) → recur t = receiverTypeParams (f.type t)) :
    f.receiverStep recur id = receiverTypeParams (f.type id) := by
  rw [receiverStep, type, depthBound, typeTree]
  cases hnode : f.types[id.index]? with
  | none => rfl
  | some node =>
    have hrefers : ∀ m ∈ node.parts, f.Refers (.type id) m :=
      fun m hm => refers_of_mem (parts_type hnode) hm
    have htree : ∀ t, .type t ∈ node.parts → f.typeTree (2 * f.nodeCount) t = f.type t :=
      fun t ht => hf.part_eq (hrefers _ ht)
    cases node with
    | pointer elem | paren elem =>
      have helem := List.mem_cons_self (a := Node.type elem) (l := [])
      simp only [receiverTypeParams, htree elem helem]
      exact h elem (hrefers _ helem)
    | named name args =>
      simp only [receiverTypeParams, List.filterMap_map]
      refine List.filterMap_congr fun arg harg => ?_
      rw [Function.comp_apply, htree arg (List.mem_map_of_mem harg)]
      exact bareName?_eq arg
    | selector base name args | slice elem | ellipsis elem | chan dir elem | array length elem
    | map key value | func sig | struct fields | interface elems | bad span => rfl

end RankedBy

end File

namespace File.RankedBy

variable {f : File} {rank : Node → Nat} (hf : f.RankedBy rank)

/-- A recursion that only goes down is done after more rounds than the rank of its start, whatever
lies beyond them. -/
theorem iterate_of_rank {ι β : Type} (node : ι → Node) {step : (ι → β) → ι → β} (reading : ι → β)
    (hstep : ∀ i recur, (∀ j, rank (node j) < rank (node i) → recur j = reading j) →
      step recur i = reading i)
    (beyond : ι → β) {rounds : Nat} {i : ι} (hrank : rank (node i) < rounds) :
    step^[rounds] beyond i = reading i := by
  induction rounds generalizing i with
  | zero => exact absurd hrank (Nat.not_lt_zero _)
  | succ rounds ih =>
    rw [Function.iterate_succ_apply']
    apply hstep
    intro j hj
    exact ih (by omega)

variable (scope : FileScope) {rounds : Nat} (hrounds : f.nodeCount ≤ rounds)
include hf hrounds

theorem iterate_resolveStep (beyond : TypeExprId → Analysis RefId) {id : TypeExprId}
    (hid : f.Has (.type id)) :
    (f.resolveStep scope)^[rounds] beyond id = resolveType scope (f.type id) := by
  have hbelow := Nat.lt_of_lt_of_le (hf.bounded _ hid) hrounds
  refine iterate_of_rank .type (fun id => resolveType scope (f.type id)) ?_ beyond hbelow
  intro id recur h
  apply hf.resolveStep_eq
  intro t ht
  exact h t (hf.reached ht).2

theorem iterate_inferStep {resolve : TypeExprId → Analysis RefId}
    (hresolve : ∀ t, f.Has (.type t) → resolve t = resolveType scope (f.type t))
    (beyond : ExprId → Analysis (Option RefId)) {id : ExprId} (hid : f.Has (.expr id)) :
    (f.inferStep scope resolve)^[rounds] beyond id = inferType scope (f.expr id) := by
  have hbelow := Nat.lt_of_lt_of_le (hf.bounded _ hid) hrounds
  refine iterate_of_rank .expr (fun id => inferType scope (f.expr id)) ?_ beyond hbelow
  intro id recur h
  apply hf.inferStep_eq
  · intro t ht
    exact hresolve t (hf.present _ _ ht)
  · intro e he
    exact h e (hf.decreases _ _ he)

theorem iterate_receiverStep (beyond : TypeExprId → List String) {id : TypeExprId}
    (hid : f.Has (.type id)) :
    f.receiverStep^[rounds] beyond id = receiverTypeParams (f.type id) := by
  have hbelow := Nat.lt_of_lt_of_le (hf.bounded _ hid) hrounds
  refine iterate_of_rank .type (fun id => receiverTypeParams (f.type id)) ?_ beyond hbelow
  intro id recur h
  apply hf.receiverStep_eq
  intro t ht
  exact h t (hf.decreases _ _ ht)

end File.RankedBy

/-- In a file that is built by calls which refer to nodes that earlier calls handed out, references
lead down from node to node, and none leads to a node that is not there. So the tree of every node
is finished at its bound, and reading a type, an initializer or a receiver node by node comes to an
end: as many rounds as there are nodes give the reading of the tree, whatever lies beyond them. -/
theorem built_files_are_read_to_the_end (package : String) {calls : List Call}
    (h : HandedOn [] (Builder.start package) calls) :
    let f := ((Builder.start package).after calls).file
    (∃ rank : Node → Nat, ∀ n m, f.Refers n m → f.Has m ∧ rank m < rank n) ∧
      (∀ d ∈ f.decls, f.HasAll d.parts) ∧
      (∀ n, f.Has n → ∀ depth, f.depthBound ≤ depth → f.SameTree depth f.depthBound n) ∧
      ∀ rounds, f.nodeCount ≤ rounds → ∀ (scope : FileScope) (beyond : TypeExprId → Analysis RefId),
        let resolve := (f.resolveStep scope)^[rounds] beyond
        (∀ id, f.Has (.type id) → resolve id = resolveType scope (f.type id)) ∧
        (∀ beyond id, f.Has (.expr id) →
          (f.inferStep scope resolve)^[rounds] beyond id = inferType scope (f.expr id)) ∧
        ∀ beyond id, f.Has (.type id) →
          f.receiverStep^[rounds] beyond id = receiverTypeParams (f.type id) := by
  intro f
  have hlayered : f.Layered :=
    after_layered (start_layered package) (List.forall_mem_nil _) h
  obtain ⟨rank, hf⟩ := hlayered.ranked
  refine ⟨⟨rank, fun n m hm => ⟨hf.present n m hm, hf.decreases n m hm⟩⟩, hlayered.declared,
    fun n hn depth hdepth => ?_, fun rounds hrounds scope beyond => ?_⟩
  · have hbound : 2 * f.nodeCount ≤ depth := Nat.le_trans (Nat.le_succ _) hdepth
    exact hf.sameTree_of_has hn hbound
  · intro resolve
    have hresolve : ∀ id, f.Has (.type id) → resolve id = resolveType scope (f.type id) :=
      fun id hid => hf.iterate_resolveStep scope hrounds beyond hid
    refine ⟨hresolve, fun beyond id hid => ?_, fun beyond id hid => ?_⟩
    · exact hf.iterate_inferStep scope hrounds hresolve beyond hid
    · exact hf.iterate_receiverStep hrounds beyond hid

/-- The address of a struct value; both fields of the struct and a function share one type. -/
def sharedNodes : List Call :=
  [.named "T", .pointer ⟨0⟩, .field ["a", "b"] ⟨1⟩, .field [] ⟨0⟩, .structType [⟨0⟩, ⟨1⟩],
    .signature [⟨0⟩] [⟨1⟩], .funcType ⟨0⟩, .composite ⟨2⟩, .unary .address ⟨0⟩,
    .varDecl ["x"] (some ⟨3⟩) [⟨1⟩]]

theorem sharedNodes_are_read :
    let f := ((Builder.start "p").after sharedNodes).file
    let scope : FileScope := { package := ⟨1⟩, decodeTag := StructTag.decode }
    HandedOn [] (Builder.start "p") sharedNodes ∧
      (∃ rank : Node → Nat, rank (.type ⟨0⟩) < rank (.type ⟨1⟩) ∧
        rank (.type ⟨1⟩) < rank (.field ⟨0⟩) ∧ rank (.field ⟨0⟩) < rank (.signature ⟨0⟩)) ∧
      f.nodeCount = 9 ∧
        let resolve := (f.resolveStep scope)^[9] fun _ => throw .builtinNotFound
        (f.inferStep scope resolve)^[9] (fun _ => throw .builtinNotFound) ⟨1⟩ =
          inferType scope (f.expr ⟨1⟩) := by
  intro f scope
  have hcalls : HandedOn [] (Builder.start "p") sharedNodes := by decide +kernel
  obtain ⟨⟨rank, hrank⟩, -, -, hreading⟩ := built_files_are_read_to_the_end "p" hcalls
  have hcount : f.nodeCount = 9 := by decide +kernel
  refine ⟨hcalls, ⟨rank, ?_, ?_, ?_⟩, hcount, ?_⟩
  · exact (hrank (.type ⟨1⟩) (.type ⟨0⟩) (by decide +kernel)).2
  · exact (hrank (.field ⟨0⟩) (.type ⟨1⟩) (by decide +kernel)).2
  · exact (hrank (.signature ⟨0⟩) (.field ⟨0⟩) (by decide +kernel)).2
  · exact (hreading 9 (Nat.le_of_eq hcount) scope _).2.1 _ ⟨1⟩ (by decide +kernel)

/-- A type that stands in itself, which no builder makes, is never read to the end. -/
theorem circular_asks_beyond (beyond : TypeExprId → List String) (rounds : Nat) :
    ({ types := #[.paren ⟨0⟩] } : File).receiverStep^[rounds] beyond ⟨0⟩ = beyond ⟨0⟩ := by
  induction rounds with
  | zero => rfl
  | succ rounds ih =>
    rw [Function.iterate_succ_apply']
    exact ih

end GoPackages.Source
