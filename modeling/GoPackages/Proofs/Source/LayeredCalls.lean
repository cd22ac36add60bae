import GoPackages.Proofs.Source.LayeredBuilds

/-!
# Calls that refer to earlier ones

From one call to a whole file: if every call is given only nodes that calls before it have handed
out, the nodes of the finished file stand in layers.
-/
namespace GoPackages.Source

open Builder

def Call.nodes : Call → List Node
  | .selectorExpr base _ | .selectorType base _ => [.expr base]
  | .unary _ inner | .call inner => [.expr inner]
  | .composite type | .pointer type | .slice type | .array _ type | .ellipsis type | .chan _ type
  | .paren type | .field _ type | .taggedField _ type _ => [.type type]
  | .generic _ args => args.map .type
  | .map key value => [.type key, .type value]
  | .funcType sig | .methodElem _ sig | .func _ sig => [.signature sig]
  | .structType fields => fields.map .field
  | .interfaceType elems => elems.flatMap ElemNode.parts
  | .fieldDoc id _ => [.field id]
  | .params groups => groups.flatMap fun g => g.type.toList.map .type
  | .signature ins outs => (ins ++ outs).map .field
  | .typeDecl _ type | .aliasDecl _ type => [.type type]
  | .genericTypeDecl _ typeParams type => .type type :: typeParams.map .field
  | .valueSpec _ type values | .varDecl _ type values | .constDecl _ type values =>
    type.toList.map .type ++ values.map .expr
  | .group _ specs => specs.flatMap SpecNode.parts
  | .method _ receiverType _ sig => [.type receiverType, .signature sig]
  | .ident _ | .commentGroup _ | .packageDoc _ | .doc _ | .literal _ _ | .identExpr _
  | .otherExpr _ | .named _ | .qualified _ _ | .badType | .importPackage _ | .importAs _ _
  | .importDot _ | .importBlank _ => []

def Handle.nodes : Handle → List Node
  | .expr id => [.expr id]
  | .type id => [.type id]
  | .field id => [.field id]
  | .fields ids => ids.map .field
  | .signature id => [.signature id]
  | .elem node => node.parts
  | .spec node => node.parts
  | .ident _ | .comments _ | .decl _ => []

section Answers

variable {α : Type} {b : Builder}

theorem answer_links {m : BuildM α} {answer : α → Handle}
    (h : Links b m fun a b' => b'.file.HasAll (answer a).nodes) :
    Links b (do return answer (← m)) fun handle b' => b'.file.HasAll handle.nodes :=
  h.bind fun _ _ _ ha => links_pure ha

theorem commented_links {m : BuildM α} (h : Links b m fun _ _ => True) :
    Links b (Call.commented m) fun handle b' => b'.file.HasAll handle.nodes := by
  intro hb
  obtain ⟨hlayered, hkept, -⟩ := h hb
  exact ⟨hlayered, hkept, List.forall_mem_nil _⟩

theorem declared_links {m : BuildM Unit} (h : Links b m fun _ _ => True) :
    Links b (Call.declared m) fun handle b' => b'.file.HasAll handle.nodes := by
  intro hb
  obtain ⟨hlayered, hkept, -⟩ := h hb
  exact ⟨hlayered, hkept, List.forall_mem_nil _⟩

/-- The step: a call that refers to nodes that are there keeps the layers, and the nodes that it
hands out are there from now on. -/
theorem call_links (c : Call) (h : b.file.HasAll c.nodes) :
    Links b c.run fun handle b' => b'.file.HasAll handle.nodes := by
  cases c with
  | ident name =>
    exact (KeepsNodes.links (ident name)).bind fun _ _ _ _ => links_pure (List.forall_mem_nil _)
  | commentGroup lines =>
    exact (KeepsNodes.links (commentGroup lines)).bind fun _ _ _ _ =>
      links_pure (List.forall_mem_nil _)
  | packageDoc lines => exact commented_links (KeepsNodes.links _)
  | doc lines => exact commented_links (KeepsNodes.links _)
  | fieldDoc id lines => exact commented_links (fieldDoc_links lines id)
  | literal kind raw => exact answer_links (literal_links kind raw)
  | identExpr name => exact answer_links (identExpr_links name)
  | selectorExpr base name => exact answer_links (selectorExpr_links name h)
  | composite type => exact answer_links (addExpr_links h)
  | unary op operand => exact answer_links (addExpr_links h)
  | call callee => exact answer_links (addExpr_links h)
  | otherExpr text => exact answer_links (otherExpr_links text)
  | named name => exact answer_links (generic_links name (List.forall_mem_nil _))
  | generic name args => exact answer_links (generic_links name h)
  | selectorType base name => exact answer_links (selectorType_links name h)
  | qualified package name => exact answer_links (qualified_links name package)
  | pointer elem => exact answer_links (addType_links h)
  | slice elem => exact answer_links (addType_links h)
  | array length elem => exact answer_links (array_links length h)
  | ellipsis elem => exact answer_links (addType_links h)
  | map key value => exact answer_links (addType_links h)
  | chan dir elem => exact answer_links (addType_links h)
  | funcType sig => exact answer_links (addType_links h)
  | structType fields => exact answer_links (addType_links h)
  | interfaceType elems => exact answer_links (addType_links h)
  | paren inner => exact answer_links (addType_links h)
  | badType => exact answer_links badType_links
  | field names type => exact answer_links (field_links names h)
  | taggedField names type tag => exact answer_links (taggedField_links names h tag)
  | params groups =>
    exact answer_links (mergeParams_links (fun g hg => List.forall_mem_flatMap.mp h g hg) [])
  | signature ins outs => exact answer_links (signature_links h)
  | methodElem name sig => exact answer_links (methodElem_links name h)
  | importPackage path => exact declared_links (importSpec_links path none)
  | importAs name path =>
    exact declared_links ((KeepsNodes.links _).bind fun _ _ _ _ => importSpec_links path _)
  | importDot path =>
    exact declared_links ((KeepsNodes.links _).bind fun _ _ _ _ => importSpec_links path _)
  | importBlank path =>
    exact declared_links ((KeepsNodes.links _).bind fun _ _ _ _ => importSpec_links path _)
  | typeDecl name type => exact declared_links (typeSpec_links name h false)
  | aliasDecl name type => exact declared_links (typeSpec_links name h true)
  | genericTypeDecl name typeParams type => exact declared_links (typeSpec_links name h false)
  | valueSpec names type values => exact answer_links (valueSpec_links names h)
  | varDecl names type values => exact declared_links (values_link names .vars h)
  | constDecl names type values => exact declared_links (values_link names .consts h)
  | group kind specs => exact declared_links (group_links kind h)
  | func name sig => exact declared_links (func_links name h)
  | method receiverName receiverType name sig =>
    exact declared_links (method_links name receiverName h)

end Answers

/-- Whatever node a call refers to was given or is handed out by a call before. -/
def HandedOn (given : List Node) (b : Builder) : List Call → Prop
  | [] => True
  | c :: rest => (∀ n ∈ c.nodes, n ∈ given) ∧ HandedOn (given ++ (c.run b).1.nodes) (c.run b).2 rest

instance decidableHandedOn (given : List Node) (b : Builder) (calls : List Call) :
    Decidable (HandedOn given b calls) :=
  match calls with
  | [] => .isTrue trivial
  | c :: rest =>
    have := decidableHandedOn (given ++ (c.run b).1.nodes) (c.run b).2 rest
    inferInstanceAs (Decidable (_ ∧ _))

/-- The run: the layers are kept by calls that hand on what they were handed. -/
theorem after_layered {calls : List Call} {given : List Node} {b : Builder} (hb : b.file.Layered)
    (hgiven : b.file.HasAll given) (h : HandedOn given b calls) :
    (b.after calls).file.Layered := by
  induction calls generalizing given b with
  | nil => exact hb
  | cons c rest ih =>
    obtain ⟨hnodes, hrest⟩ := h
    obtain ⟨hlayered, hkept, hhandle⟩ := call_links c (fun n hn => hgiven n (hnodes n hn)) hb
    have hall : (c.run b).2.file.HasAll (given ++ (c.run b).1.nodes) :=
      List.forall_mem_append.mpr ⟨fun n hn => hkept n (hgiven n hn), hhandle⟩
    exact ih hlayered hall hrest

theorem start_layered (package : String) : (Builder.start package).file.Layered := by
  have hparts : ∀ n, (Builder.start package).file.parts n = [] := by
    rintro (_ | _ | _ | _) <;> rfl
  refine ⟨⟨fun _ => 0, ?_, fun n m hm => ?_, fun n m hm => ?_⟩, List.forall_mem_nil _⟩
  · rintro (_ | _ | _ | _) hn <;> exact absurd hn (Nat.not_lt_zero _)
  · rw [File.Refers, hparts] at hm
    cases hm
  · rw [File.Refers, hparts] at hm
    cases hm

end GoPackages.Source
