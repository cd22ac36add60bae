import Mathlib.Data.List.DropRight
import GoPackages.Proofs.Source.ParameterLists

/-!
# The names of a parameter list

When a parameter list is merged, names wait for the next type, and those that wait at the end become
types. What waits and what has become of the names before it are together all names so far, in their
order. That is the invariant of the walk over the groups. It follows that no name gets lost, comes
twice or passes a type, and that new types are made only of the names behind the last type.
-/
namespace GoPackages.Source

/-- The names behind the last group with a type. -/
def ParamGroup.trailingNames (groups : List ParamGroup) : List Ident :=
  (groups.rtakeWhile (·.type.isNone)).flatMap ParamGroup.names

open ParamGroup (trailingNames)

theorem names_bareFields (start : Nat) (names : List Ident) :
    (bareFields start names.length).map FieldNode.names = names.map fun _ => [] := by
  simp [bareFields, Function.comp_def]

theorem types_bareFields (start count : Nat) :
    (bareFields start count).map (fun node => some node.type) =
      (List.range' start count).map fun k => some ⟨k⟩ := by
  rw [bareFields, List.map_map]
  rfl

theorem waitingBehind_eq_trailingNames (groups : List ParamGroup) :
    waitingBehind [] groups = trailingNames groups := by
  induction groups using List.reverseRecOn with
  | nil => rfl
  | append_singleton groups g ih =>
    have hlast : waitingBehind [] (groups ++ [g]) =
        if g.type.isSome then [] else waitingBehind [] groups ++ g.names := by
      rw [waitingBehind, List.foldl_append]
      rfl
    rw [hlast, ih, trailingNames, trailingNames, List.rtakeWhile_concat]
    cases hg : g.type with
    | none => simp
    | some type => simp

/-- The invariant: nothing is lost, and everything keeps its place. -/
theorem names_typedFields (waiting : List Ident) (groups : List ParamGroup) :
    (typedFields waiting groups).flatMap FieldNode.names ++ waitingBehind waiting groups =
      waiting ++ groups.flatMap ParamGroup.names := by
  induction groups generalizing waiting with
  | nil => simp [typedFields, waitingBehind]
  | cons g rest ih =>
    obtain ⟨names, type | type⟩ := g
    · rw [typedFields, waitingBehind_untyped, ih, List.flatMap_cons, List.append_assoc]
    · rw [typedFields, waitingBehind_typed, List.flatMap_cons, List.append_assoc, ih,
        List.flatMap_cons, List.nil_append, List.append_assoc]

theorem names_typedFields_trailing (groups : List ParamGroup) :
    (typedFields [] groups).flatMap FieldNode.names ++ trailingNames groups =
      groups.flatMap ParamGroup.names := by
  rw [← waitingBehind_eq_trailingNames]
  exact names_typedFields [] groups

theorem types_typedFields (waiting : List Ident) (groups : List ParamGroup) :
    (typedFields waiting groups).map FieldNode.type = groups.filterMap ParamGroup.type := by
  induction groups generalizing waiting with
  | nil => rfl
  | cons g rest ih =>
    obtain ⟨names, type | type⟩ := g
    · exact ih (waiting ++ names)
    · exact congrArg (type :: ·) (ih [])

theorem length_typedFields (waiting : List Ident) (groups : List ParamGroup) :
    (typedFields waiting groups).length = (groups.filterMap ParamGroup.type).length := by
  rw [← types_typedFields waiting, List.length_map]

theorem typedFields_append (waiting names : List Ident) (type : TypeExprId)
    (front back : List ParamGroup) :
    typedFields waiting (front ++ ⟨names, some type⟩ :: back) =
      typedFields waiting front ++
        { names := waitingBehind waiting front ++ names, type } :: typedFields [] back := by
  induction front generalizing waiting with
  | nil => rfl
  | cons g rest ih =>
    obtain ⟨names', type' | type'⟩ := g
    · exact ih (waiting ++ names')
    · exact congrArg (_ :: ·) (ih [])

theorem getElem?_typedFields (names : List Ident) (type : TypeExprId)
    (front back : List ParamGroup) :
    (typedFields [] (front ++ ⟨names, some type⟩ :: back))[
        (front.filterMap ParamGroup.type).length]? =
      some { names := trailingNames front ++ names, type } := by
  rw [typedFields_append, waitingBehind_eq_trailingNames, ← length_typedFields []]
  simp

def paramFields (start : Nat) (groups : List ParamGroup) : List FieldNode :=
  typedFields [] groups ++ bareFields start (trailingNames groups).length

theorem length_paramFields (start : Nat) (groups : List ParamGroup) :
    (paramFields start groups).length =
      (groups.filterMap ParamGroup.type).length + (trailingNames groups).length := by
  rw [paramFields, List.length_append, length_typedFields, length_bareFields]

theorem params_eq (groups : List ParamGroup) (b : Builder) :
    Builder.params groups b =
      (Builder.fieldsFrom b.file.fields.size (paramFields b.file.types.size groups).length,
        b.extend (paramFields b.file.types.size groups)
          ((trailingNames groups).map (.named · []))) := by
  have hmerged := Builder.mergeParams_eq [] groups b
  rw [waitingBehind_eq_trailingNames] at hmerged
  rw [length_paramFields, ← length_typedFields []]
  exact hmerged

def TypeNode.bareName? : TypeNode → Option Ident
  | .named name [] => some name
  | _ => none

namespace File

def declared (f : File) (id : FieldId) : List Ident := f.fields[id.index]?.elim [] FieldNode.names

def fieldType? (f : File) (id : FieldId) : Option TypeExprId :=
  f.fields[id.index]?.map FieldNode.type

def typeName? (f : File) (id : FieldId) : Option Ident :=
  (f.fieldType? id).bind fun ty => f.types[ty.index]?.bind TypeNode.bareName?

end File

theorem getElem?_fieldsFrom {start count k : Nat} (h : k < count) :
    (Builder.fieldsFrom start count)[k]? = some ⟨start + k⟩ := by
  simp [Builder.fieldsFrom, h]

theorem map_fieldsFrom {β : Type} {f : FieldId → β} {g : FieldNode → β} {start : Nat}
    {fields : List FieldNode}
    (h : ∀ (k : Nat) node, fields[k]? = some node → f ⟨start + k⟩ = g node) :
    (Builder.fieldsFrom start fields.length).map f = fields.map g := by
  apply List.ext_getElem
  · simp [Builder.fieldsFrom]
  · intro k hk hk'
    rw [List.length_map] at hk'
    simpa [Builder.fieldsFrom] using h k fields[k] (List.getElem?_eq_getElem hk')

theorem map_take_and_drop {α β γ : Type} {f : α → γ} {g : β → γ} {l : List α} {front back : List β}
    (h : l.map f = (front ++ back).map g) :
    (l.take front.length).map f = front.map g ∧ (l.drop front.length).map f = back.map g := by
  have hlength : front.length = (front.map g).length := (List.length_map g).symm
  rw [List.map_take, List.map_drop, h, List.map_append, hlength]
  exact ⟨List.take_left, List.drop_left⟩

section Later

variable {last : File} {b : Builder} {fields : List FieldNode} {types : List TypeNode}
  (hlast : (b.extend fields types).file.Later last)
include hlast

theorem field_of_extend {k : Nat} {node : FieldNode} (h : fields[k]? = some node) :
    ∃ node', last.fields[b.file.fields.size + k]? = some node' ∧ node'.names = node.names ∧
      node'.type = node.type := by
  have hadded : (b.extend fields types).file.fields[b.file.fields.size + k]? = some node := by
    simpa [Builder.extend, Array.getElem?_append_right] using h
  obtain ⟨node', hnode', hnames, htype, -⟩ := hlast.fields _ node hadded
  exact ⟨node', hnode', hnames, htype⟩

theorem declared_of_extend {k : Nat} {node : FieldNode} (h : fields[k]? = some node) :
    last.declared ⟨b.file.fields.size + k⟩ = node.names := by
  obtain ⟨node', hnode', hnames, -⟩ := field_of_extend hlast h
  rw [File.declared, hnode']
  exact hnames

theorem fieldType?_of_extend {k : Nat} {node : FieldNode} (h : fields[k]? = some node) :
    last.fieldType? ⟨b.file.fields.size + k⟩ = some node.type := by
  obtain ⟨node', hnode', -, htype⟩ := field_of_extend hlast h
  rw [File.fieldType?, hnode', Option.map_some, htype]

theorem declared_row :
    (Builder.fieldsFrom b.file.fields.size fields.length).map last.declared =
      fields.map FieldNode.names :=
  map_fieldsFrom fun _ _ => declared_of_extend hlast

theorem fieldTypes_row :
    (Builder.fieldsFrom b.file.fields.size fields.length).map last.fieldType? =
      fields.map fun node => some node.type :=
  map_fieldsFrom fun _ _ => fieldType?_of_extend hlast

theorem type_of_extend {k : Nat} {node : TypeNode} (h : types[k]? = some node) :
    last.types[b.file.types.size + k]? = some node := by
  apply hlast.types
  simpa [Builder.extend, Array.getElem?_append_right] using h

omit hlast in
theorem typeNames_of_extend {names : List Ident} {ids : List FieldId}
    (hlast : (b.extend fields (names.map (.named · []))).file.Later last)
    (hids : ids.map last.fieldType? =
      (List.range' b.file.types.size names.length).map fun k => some ⟨k⟩) :
    ids.map last.typeName? = names.map some := by
  have hlength : ids.length = names.length := by simpa using congrArg List.length hids
  apply List.ext_getElem
  · simpa using hlength
  · intro k hk hk'
    rw [List.length_map] at hk hk'
    have htype : last.fieldType? ids[k] = some ⟨b.file.types.size + k⟩ := by
      simpa [hk, hk'] using congrArg (·[k]?) hids
    have hnode : last.types[b.file.types.size + k]? = some (.named names[k] []) :=
      type_of_extend hlast (by simp [hk'])
    rw [List.getElem_map, List.getElem_map, File.typeName?, htype, Option.bind_some, hnode]
    rfl

end Later

section Params

variable {last : File} {groups : List ParamGroup} {b : Builder}
  (hlast : (b.extend (paramFields b.file.types.size groups)
    ((trailingNames groups).map (.named · []))).file.Later last)
include hlast

theorem typedFields_read :
    let ids := Builder.fieldsFrom b.file.fields.size (paramFields b.file.types.size groups).length
    let typed := ids.take (groups.filterMap ParamGroup.type).length
    typed.map last.declared = (typedFields [] groups).map FieldNode.names ∧
      typed.map last.fieldType? = (groups.filterMap ParamGroup.type).map some := by
  intro ids typed
  have hcount := length_typedFields [] groups
  have hnames := (map_take_and_drop (declared_row hlast)).1
  have htypes := (map_take_and_drop (fieldTypes_row hlast)).1
  have hsome := congrArg (List.map some) (types_typedFields [] groups)
  rw [List.map_map] at hsome
  rw [hcount] at hnames htypes
  exact ⟨hnames, htypes.trans hsome⟩

theorem bareFields_read :
    let trailing := trailingNames groups
    let ids := Builder.fieldsFrom b.file.fields.size (paramFields b.file.types.size groups).length
    let bare := ids.drop (groups.filterMap ParamGroup.type).length
    bare.map last.declared = trailing.map (fun _ => []) ∧
      bare.map last.typeName? = trailing.map some ∧
      bare.map last.fieldType? =
        (List.range' b.file.types.size trailing.length).map (fun k => some ⟨k⟩) := by
  intro trailing ids bare
  have hcount := length_typedFields [] groups
  have hnames := (map_take_and_drop (declared_row hlast)).2
  have htypes := (map_take_and_drop (fieldTypes_row hlast)).2
  rw [hcount, names_bareFields] at hnames
  rw [hcount, types_bareFields] at htypes
  exact ⟨hnames, typeNames_of_extend hlast htypes, htypes⟩

theorem typedField_read {names : List Ident} {type : TypeExprId} {front back : List ParamGroup}
    (hgroups : groups = front ++ ⟨names, some type⟩ :: back) :
    let ids := Builder.fieldsFrom b.file.fields.size (paramFields b.file.types.size groups).length
    ∃ id, ids[(front.filterMap ParamGroup.type).length]? = some id ∧
      last.fieldType? id = some type ∧ last.declared id = trailingNames front ++ names := by
  intro ids
  have hnode : (paramFields b.file.types.size groups)[
      (front.filterMap ParamGroup.type).length]? =
      some { names := trailingNames front ++ names, type } := by
    rw [hgroups]
    exact getElem?_append_of_some (getElem?_typedFields names type front back) _
  exact ⟨_, getElem?_fieldsFrom (List.getElem?_eq_some_iff.mp hnode).1,
    fieldType?_of_extend hlast hnode, declared_of_extend hlast hnode⟩

end Params

/-- Merging the groups of a parameter list loses nothing. Every group with a type has one new field,
in order, with that type, and what the fields declare, together with the types that the last fields
are made of, are the names of the groups in their order. A group with a type declares the names that
come between it and the type before it. New types are made of the names behind the last type only,
one for each. -/
theorem parameter_names_are_conserved (groups : List ParamGroup) (b : Builder)
    (calls : List Call) :
    let ids := (Builder.params groups b).1
    let built := (Builder.params groups b).2
    let file := (built.after calls).file
    let types := groups.filterMap ParamGroup.type
    let trailing := trailingNames groups
    let typed := ids.take types.length
    let bare := ids.drop types.length
    ids = Builder.fieldsFrom b.file.fields.size (types.length + trailing.length) ∧
      typed.flatMap file.declared ++ bare.filterMap file.typeName? =
        groups.flatMap ParamGroup.names ∧
      typed.map file.fieldType? = types.map some ∧
      (∀ front names type back, groups = front ++ ⟨names, some type⟩ :: back →
        ∃ id, ids[(front.filterMap ParamGroup.type).length]? = some id ∧
          file.fieldType? id = some type ∧ file.declared id = trailingNames front ++ names) ∧
      bare.map file.declared = trailing.map (fun _ => []) ∧
      bare.map file.typeName? = trailing.map some ∧
      bare.map file.fieldType? =
        (List.range' b.file.types.size trailing.length).map (fun k => some ⟨k⟩) ∧
      built.file.types = b.file.types ++ (trailing.map (.named · [])).toArray := by
  intro ids built file types trailing typed bare
  have hids : ids = Builder.fieldsFrom b.file.fields.size
      (paramFields b.file.types.size groups).length := congrArg Prod.fst (params_eq groups b)
  have hbuilt : built = b.extend (paramFields b.file.types.size groups)
      (trailing.map (.named · [])) := congrArg Prod.snd (params_eq groups b)
  have hlast : (b.extend (paramFields b.file.types.size groups)
      (trailing.map (.named · []))).file.Later file := hbuilt ▸ Builder.after_later built calls
  obtain ⟨htypedNames, htypedTypes⟩ := typedFields_read hlast
  obtain ⟨hbareNames, hbareTypes, hbareNew⟩ := bareFields_read hlast
  rw [← hids] at htypedNames htypedTypes hbareNames hbareTypes hbareNew
  have htrailing : bare.filterMap file.typeName? = trailing := by
    simpa [List.filterMap_map] using congrArg (List.filterMap id) hbareTypes
  have hall : typed.flatMap file.declared ++ bare.filterMap file.typeName? =
      groups.flatMap ParamGroup.names := by
    rw [htrailing, List.flatMap_def, htypedNames, ← List.flatMap_def]
    exact names_typedFields_trailing groups
  refine ⟨?_, hall, htypedTypes, ?_, hbareNames, hbareTypes, hbareNew,
    congrArg (·.file.types) hbuilt⟩
  · rw [hids, length_paramFields]
  · intro front names type back hgroups
    rw [hids]
    exact typedField_read hlast hgroups

/-- In the list `(int, int *T, int)` two names wait for the pointer, and the last one is a type. -/
theorem intAroundPointer_is_conserved :
    let b := intAndPointer.1
    let int := intAndPointer.2.1
    let pointer := intAndPointer.2.2
    let groups : List ParamGroup :=
      [⟨[int], none⟩] ++ ⟨[int], some pointer⟩ :: [⟨[int], none⟩]
    let ids := (Builder.params groups b).1
    let file := (Builder.params groups b).2.file
    (∃ id, ids[0]? = some id ∧ file.fieldType? id = some pointer ∧
        file.declared id = [int, int]) ∧
      (ids.drop 1).map file.typeName? = [some int] ∧
      file.types = b.file.types ++ #[.named int []] := by
  intro b int pointer groups ids file
  obtain ⟨-, -, -, hgroup, -, hbare, -, htypes⟩ := parameter_names_are_conserved groups b []
  exact ⟨hgroup [⟨[int], none⟩] [int] pointer [⟨[int], none⟩] rfl, hbare, htypes⟩

end GoPackages.Source
