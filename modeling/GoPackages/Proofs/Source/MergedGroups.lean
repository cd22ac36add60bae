import GoPackages.Source.Builder

/-!
# What merging a parameter list adds

Merging walks over the groups with the names that wait for a type. A group with a type takes them
and becomes a field at once; what waits at the end becomes types, each with a field behind the
others. All that this adds to a file is said by one equation, so that nothing else has to follow
the walk.
-/
namespace GoPackages.Source

/-- The names that wait for a type behind some groups. -/
def waitingBehind (waiting : List Ident) (groups : List ParamGroup) : List Ident :=
  groups.foldl (fun w g => if g.type.isSome then [] else w ++ g.names) waiting

def typedFields (waiting : List Ident) : List ParamGroup → List FieldNode
  | [] => []
  | ⟨names, some type⟩ :: rest => { names := waiting ++ names, type } :: typedFields [] rest
  | ⟨names, none⟩ :: rest => typedFields (waiting ++ names) rest

def bareFields (start count : Nat) : List FieldNode :=
  (List.range' start count).map fun k => { names := [], type := ⟨k⟩ }

@[simp] theorem length_bareFields (start count : Nat) :
    (bareFields start count).length = count := by
  simp [bareFields]

theorem waitingBehind_typed (waiting names : List Ident) (type : TypeExprId)
    (rest : List ParamGroup) :
    waitingBehind waiting (⟨names, some type⟩ :: rest) = waitingBehind [] rest := rfl

theorem waitingBehind_untyped (waiting names : List Ident) (rest : List ParamGroup) :
    waitingBehind waiting (⟨names, none⟩ :: rest) = waitingBehind (waiting ++ names) rest := rfl

namespace Builder

def fieldsFrom (start count : Nat) : List FieldId := (List.range' start count).map FieldId.mk

theorem fieldsFrom_succ (start count : Nat) :
    fieldsFrom start (count + 1) = ⟨start⟩ :: fieldsFrom (start + 1) count := by
  rw [fieldsFrom, List.range'_succ, List.map_cons]
  rfl

def extend (b : Builder) (fields : List FieldNode) (types : List TypeNode) : Builder :=
  { b with file :=
    { b.file with
      fields := b.file.fields ++ fields.toArray
      types := b.file.types ++ types.toArray } }

theorem extend_nil (b : Builder) : b.extend [] [] = b := by simp [extend]

theorem extend_extend (b : Builder) (fields fields' : List FieldNode)
    (types types' : List TypeNode) :
    (b.extend fields types).extend fields' types' =
      b.extend (fields ++ fields') (types ++ types') := by
  simp [extend, Array.append_assoc]

@[simp] theorem size_fields_extend (b : Builder) (fields : List FieldNode)
    (types : List TypeNode) :
    (b.extend fields types).file.fields.size = b.file.fields.size + fields.length := by
  simp [extend]

@[simp] theorem size_types_extend (b : Builder) (fields : List FieldNode)
    (types : List TypeNode) :
    (b.extend fields types).file.types.size = b.file.types.size + types.length := by
  simp [extend]

theorem addField_eq (node : FieldNode) (b : Builder) :
    addField node b = (⟨b.file.fields.size⟩, b.extend [node] []) := by
  have hfields : b.file.fields ++ [node].toArray = b.file.fields.push node := by simp
  have htypes : b.file.types ++ ([] : List TypeNode).toArray = b.file.types := by simp
  rw [extend, hfields, htypes]
  rfl

theorem addType_eq (node : TypeNode) (b : Builder) :
    addType node b = (⟨b.file.types.size⟩, b.extend [] [node]) := by
  have hfields : b.file.fields ++ ([] : List FieldNode).toArray = b.file.fields := by simp
  have htypes : b.file.types ++ [node].toArray = b.file.types.push node := by simp
  rw [extend, hfields, htypes]
  rfl

theorem typeParam_eq (name : Ident) (b : Builder) :
    typeParam name b = (⟨b.file.fields.size⟩,
      b.extend [{ names := [], type := ⟨b.file.types.size⟩ }] [.named name []]) := by
  have hstep : typeParam name b =
      addField { names := [], type := (addType (.named name []) b).1 }
        (addType (.named name []) b).2 := rfl
  rw [hstep, addType_eq, addField_eq, extend_extend, size_fields_extend]
  rfl

theorem typeParams_eq (names : List Ident) (b : Builder) :
    (names.mapM typeParam : BuildM _) b = (fieldsFrom b.file.fields.size names.length,
      b.extend (bareFields b.file.types.size names.length) (names.map (.named · []))) := by
  induction names generalizing b with
  | nil => exact Prod.ext rfl (extend_nil b).symm
  | cons name names ih =>
    have hstep : ((name :: names).mapM typeParam : BuildM _) b =
        ((typeParam name b).1 :: ((names.mapM typeParam : BuildM _) (typeParam name b).2).1,
          ((names.mapM typeParam : BuildM _) (typeParam name b).2).2) := by
      rw [List.mapM_cons]
      rfl
    rw [hstep, ih, typeParam_eq]
    simp only [size_fields_extend, size_types_extend, extend_extend, List.length_cons,
      List.length_nil, List.map_cons, fieldsFrom_succ, bareFields, List.range'_succ,
      List.singleton_append]

theorem mergeParams_eq (waiting : List Ident) (groups : List ParamGroup) (b : Builder) :
    let typed := typedFields waiting groups
    let trailing := waitingBehind waiting groups
    mergeParams waiting groups b =
      (fieldsFrom b.file.fields.size (typed.length + trailing.length),
        b.extend (typed ++ bareFields b.file.types.size trailing.length)
          (trailing.map (.named · []))) := by
  induction groups generalizing waiting b with
  | nil =>
    intro typed trailing
    have hcount : typed.length + trailing.length = waiting.length := Nat.zero_add _
    rw [hcount]
    exact typeParams_eq waiting b
  | cons g rest ih =>
    obtain ⟨names, type | type⟩ := g
    · exact ih (waiting ++ names) b
    · intro typed trailing
      have hstep : mergeParams waiting (⟨names, some type⟩ :: rest) b =
          (⟨b.file.fields.size⟩ ::
              (mergeParams [] rest (addField { names := waiting ++ names, type } b).2).1,
            (mergeParams [] rest (addField { names := waiting ++ names, type } b).2).2) := rfl
      rw [hstep, ih, addField_eq]
      simp only [size_fields_extend, size_types_extend, extend_extend, List.length_cons,
        List.length_nil, List.nil_append, List.singleton_append, Nat.add_zero]
      have hcount : typed.length + trailing.length =
          (typedFields [] rest).length + (waitingBehind [] rest).length + 1 := by
        simp only [typed, trailing, typedFields, waitingBehind_typed, List.length_cons]
        omega
      rw [hcount, fieldsFrom_succ]
      rfl

end Builder

end GoPackages.Source
