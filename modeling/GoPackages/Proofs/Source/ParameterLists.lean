import GoPackages.Proofs.Source.MergedGroups
import GoPackages.Proofs.Source.Recovery

/-!
# Parameter lists

A parameter list comes as groups, of which some are names alone. Such names wait for the next type
and are declared with it, and what waits at the end is read as types. In a list of types there is
nothing to wait for, as all its names are types; it is read as it was written exactly where no
group of names stands before a type.
-/
namespace GoPackages.Source

/-- A parameter of a list: a type with the names that it declares, or a name that is its type. -/
inductive Parameter where
  | typed (names : List Ident) (type : TypeExprId)
  | bare (name : Ident)
  deriving DecidableEq, Repr

def Parameter.names : Parameter → List Ident
  | .typed names _ => names
  | .bare _ => []

/-- The field has the names of the parameter and its type, which for a bare name is a node of its
own. -/
def File.Holds (f : File) (id : FieldId) : Parameter → Prop
  | .typed names type => ∃ node, f.fields[id.index]? = some node ∧
    node.names = names ∧ node.type = type
  | .bare name => ∃ node, f.fields[id.index]? = some node ∧
    node.names = [] ∧ f.types[node.type.index]? = some (.named name [])

theorem File.Holds.names_eq {f : File} {id : FieldId} {p : Parameter} (h : f.Holds id p)
    {node : FieldNode} (hnode : f.fields[id.index]? = some node) : node.names = p.names := by
  cases p with
  | typed names type =>
    obtain ⟨node', hnode', hnames, -⟩ := h
    obtain rfl := Option.some.inj (hnode.symm.trans hnode')
    exact hnames
  | bare name =>
    obtain ⟨node', hnode', hnames, -⟩ := h
    obtain rfl := Option.some.inj (hnode.symm.trans hnode')
    exact hnames

theorem File.Holds.exists_node {f : File} {id : FieldId} {p : Parameter} (h : f.Holds id p) :
    ∃ node, f.fields[id.index]? = some node := by
  cases p with
  | typed names type => exact h.imp fun _ => And.left
  | bare name => exact h.imp fun _ => And.left

namespace ParamGroup

/-- The group as it is written in a list of types, where every name is a type. -/
def asTypes : ParamGroup → List Parameter
  | ⟨_, some type⟩ => [.typed [] type]
  | ⟨names, none⟩ => names.map .bare

/-- No type comes after names. -/
def NamesTrail (groups : List ParamGroup) : Prop :=
  groups.Pairwise fun g later => later.type.isSome → g.names = []

instance (groups : List ParamGroup) : Decidable (NamesTrail groups) :=
  inferInstanceAs (Decidable (groups.Pairwise _))

end ParamGroup

open ParamGroup (NamesTrail asTypes)

/-- The parameters that are read from the groups behind some waiting names. -/
def parametersOf (waiting : List Ident) : List ParamGroup → List Parameter
  | [] => waiting.map .bare
  | ⟨names, some type⟩ :: rest => .typed (waiting ++ names) type :: parametersOf [] rest
  | ⟨names, none⟩ :: rest => parametersOf (waiting ++ names) rest

theorem length_parametersOf (waiting : List Ident) (groups : List ParamGroup) :
    (parametersOf waiting groups).length =
      (typedFields waiting groups).length + (waitingBehind waiting groups).length := by
  induction groups generalizing waiting with
  | nil => simp [parametersOf, typedFields, waitingBehind]
  | cons g rest ih =>
    obtain ⟨names, type | type⟩ := g
    · exact ih (waiting ++ names)
    · rw [parametersOf, typedFields, waitingBehind_typed, List.length_cons, List.length_cons, ih]
      omega

/-- Names are types as long as no type comes after them. -/
theorem parametersOf_eq_asTypes {groups : List ParamGroup}
    (h : ∀ g ∈ groups, g.type.isSome → g.names = []) {waiting : List Ident}
    (hw : waiting = [] ∨ ∀ g ∈ groups, g.type = none) (htrail : NamesTrail groups) :
    parametersOf waiting groups = waiting.map .bare ++ groups.flatMap asTypes := by
  induction groups generalizing waiting with
  | nil => simp [parametersOf]
  | cons g rest ih =>
    obtain ⟨hg, hrest⟩ := List.forall_mem_cons.mp h
    obtain ⟨hlater, hkept⟩ := List.pairwise_cons.mp htrail
    obtain ⟨names, type | type⟩ := g
    · have hnone : waiting ++ names = [] ∨ ∀ g ∈ rest, g.type = none := by
        by_cases hall : ∀ g ∈ rest, g.type = none
        · exact .inr hall
        · push Not at hall
          obtain ⟨later, hmem, htyped⟩ := hall
          have hnames := hlater later hmem (Option.isSome_iff_ne_none.mpr htyped)
          have hwaiting := hw.resolve_right fun hw =>
            htyped (hw later (List.mem_cons_of_mem _ hmem))
          exact .inl (List.append_eq_nil_iff.mpr ⟨hwaiting, hnames⟩)
      rw [parametersOf, ih hrest hnone hkept, List.map_append, List.flatMap_cons,
        List.append_assoc]
      rfl
    · have hwaiting := hw.resolve_right fun hw => nomatch hw _ List.mem_cons_self
      obtain rfl := hg rfl
      subst hwaiting
      rw [parametersOf, ih hrest (.inl rfl) hkept]
      rfl

theorem namesTrail_of_unnamed {groups : List ParamGroup} {waiting : List Ident}
    (h : ∀ p ∈ parametersOf waiting groups, p.names = []) :
    (waiting = [] ∨ ∀ g ∈ groups, g.type = none) ∧ NamesTrail groups := by
  induction groups generalizing waiting with
  | nil => exact ⟨.inr (List.forall_mem_nil _), List.Pairwise.nil⟩
  | cons g rest ih =>
    obtain ⟨names, type | type⟩ := g
    · obtain ⟨hw, htrail⟩ := ih h
      refine ⟨?_, List.pairwise_cons.mpr ⟨fun later hmem htyped => ?_, htrail⟩⟩
      · rcases hw with hnil | hnone
        · exact .inl (List.append_eq_nil_iff.mp hnil).1
        · exact .inr (List.forall_mem_cons.mpr ⟨rfl, hnone⟩)
      · rcases hw with hnil | hnone
        · exact (List.append_eq_nil_iff.mp hnil).2
        · rw [hnone later hmem] at htyped
          cases htyped
    · obtain ⟨hnames, hrest⟩ := List.forall_mem_cons.mp h
      obtain ⟨hwaiting, hnone⟩ := List.append_eq_nil_iff.mp hnames
      exact ⟨.inl hwaiting, List.pairwise_cons.mpr ⟨fun _ _ _ => hnone, (ih hrest).2⟩⟩

namespace Builder

variable {last : File} {b : Builder}

theorem addField_holds {names : List Ident} {type : TypeExprId}
    (hlast : (addField { names, type } b).2.file.Later last) :
    last.Holds (addField { names, type } b).1 (.typed names type) := by
  obtain ⟨node, hnode, hnames, htype, -⟩ :=
    hlast.fields b.file.fields.size { names, type } Array.getElem?_push_size
  exact ⟨node, hnode, hnames, htype⟩

theorem typeParam_holds {name : Ident} (hlast : (typeParam name b).2.file.Later last) :
    last.Holds (typeParam name b).1 (.bare name) := by
  have htyped := addField_holds (b := (addType (.named name []) b).2) hlast
  obtain ⟨node, hnode, hnames, htype⟩ := htyped
  have hadded := (Appends.later (m := addField _) _).trans hlast
  refine ⟨node, hnode, hnames, ?_⟩
  rw [htype]
  exact hadded.types b.file.types.size (.named name []) Array.getElem?_push_size

theorem typeParams_hold {names : List Ident}
    (hlast : ((names.mapM typeParam : BuildM _) b).2.file.Later last) :
    List.Forall₂ last.Holds ((names.mapM typeParam : BuildM _) b).1 (names.map .bare) := by
  induction names generalizing b with
  | nil => exact .nil
  | cons name names ih =>
    rw [List.mapM_cons] at hlast ⊢
    have hrest := ih (b := (typeParam name b).2) hlast
    have hlater := Appends.later (m := names.mapM typeParam) (typeParam name b).2
    exact .cons (typeParam_holds (hlater.trans hlast)) hrest

/-- The fields that are returned hold what is read from the groups, one after the other, now and
in every later file. -/
theorem mergeParams_holds {groups : List ParamGroup} {waiting : List Ident}
    (hlast : (mergeParams waiting groups b).2.file.Later last) :
    List.Forall₂ last.Holds (mergeParams waiting groups b).1 (parametersOf waiting groups) := by
  induction groups generalizing waiting b with
  | nil => exact typeParams_hold hlast
  | cons g rest ih =>
    obtain ⟨names, type | type⟩ := g
    · exact ih hlast
    · unfold mergeParams at hlast ⊢
      have hrest := ih (b := (addField { names := waiting ++ names, type } b).2) hlast
      have hlater := Appends.later (m := mergeParams [] rest)
        (addField { names := waiting ++ names, type } b).2
      exact .cons (addField_holds (hlater.trans hlast)) hrest

theorem mergeParams_ids (waiting : List Ident) (groups : List ParamGroup) (b : Builder) :
    (mergeParams waiting groups b).1 =
      fieldsFrom b.file.fields.size (parametersOf waiting groups).length := by
  rw [mergeParams_eq, length_parametersOf]

end Builder

theorem forall_names_iff {f : File} {ids : List FieldId} {ps : List Parameter}
    (h : List.Forall₂ f.Holds ids ps) :
    (∀ id ∈ ids, ∀ node, f.fields[id.index]? = some node → node.names = []) ↔
      ∀ p ∈ ps, p.names = [] := by
  induction h with
  | nil => simp
  | cons hp _ ih =>
    rw [List.forall_mem_cons, List.forall_mem_cons, ih]
    refine and_congr_left' ⟨fun hfield => ?_, fun hnames node hnode => ?_⟩
    · obtain ⟨node, hnode⟩ := hp.exists_node
      exact (hp.names_eq hnode).symm.trans (hfield node hnode)
    · exact (hp.names_eq hnode).trans hnames

theorem names_asTypes {groups : List ParamGroup} :
    ∀ p ∈ groups.flatMap asTypes, p.names = [] := by
  rw [List.forall_mem_flatMap]
  rintro ⟨names, type | type⟩ -
  · exact List.forall_mem_map.mpr fun _ _ => rfl
  · exact List.forall_mem_singleton.mpr rfl

/-- In a list of types, where no type has names of its own, every parameter has one new field
without names, in order, exactly where no name stands before a type; and exactly there no name of
a type has become the name of a parameter. The fields are as they are in every file that is built
further. -/
theorem lists_of_types_are_kept_iff {groups : List ParamGroup}
    (h : ∀ g ∈ groups, g.type.isSome → g.names = []) (b : Builder) (calls : List Call) :
    let ids := (Builder.params groups b).1
    let file := ((Builder.params groups b).2.after calls).file
    (∃ count, ids = Builder.fieldsFrom b.file.fields.size count) ∧
      (List.Forall₂ file.Holds ids (groups.flatMap asTypes) ↔ NamesTrail groups) ∧
      ((∀ id ∈ ids, ∀ node, file.fields[id.index]? = some node → node.names = []) ↔
        NamesTrail groups) := by
  intro ids file
  have hheld : List.Forall₂ file.Holds ids (parametersOf [] groups) :=
    Builder.mergeParams_holds (Builder.after_later _ calls)
  have hunnamed : (∀ p ∈ parametersOf [] groups, p.names = []) ↔ NamesTrail groups := by
    constructor
    · intro hnames
      exact (namesTrail_of_unnamed hnames).2
    · intro htrail
      rw [parametersOf_eq_asTypes h (.inl rfl) htrail]
      exact names_asTypes
  refine ⟨⟨_, Builder.mergeParams_ids [] groups b⟩, ?_, ?_⟩
  · constructor
    · intro hasTypes
      have hfields := (forall_names_iff hasTypes).mpr names_asTypes
      exact hunnamed.mp ((forall_names_iff hheld).mp hfields)
    · intro htrail
      rw [parametersOf_eq_asTypes h (.inl rfl) htrail] at hheld
      exact hheld
  · exact (forall_names_iff hheld).trans hunnamed

def intAndPointer : Builder × Ident × TypeExprId :=
  let (int, b) := (Builder.ident "int").run (Builder.start "p")
  let (t, b) := (Builder.named "T").run b
  let (pointer, b) := (Builder.pointer t).run b
  (b, int, pointer)

/-- The list `(*T, int)`. -/
theorem pointerThenInt_is_kept :
    let b := intAndPointer.1
    let groups : List ParamGroup :=
      [⟨[], some intAndPointer.2.2⟩, ⟨[intAndPointer.2.1], none⟩]
    (∀ g ∈ groups, g.type.isSome → g.names = []) ∧ NamesTrail groups ∧
      List.Forall₂ (Builder.params groups b).2.file.Holds (Builder.params groups b).1
        (groups.flatMap asTypes) := by
  intro b groups
  have hunnamed : ∀ g ∈ groups, g.type.isSome → g.names = [] := by decide
  have htrail : NamesTrail groups := by decide
  exact ⟨hunnamed, htrail, (lists_of_types_are_kept_iff hunnamed b []).2.1.mpr htrail⟩

/-- In the list `(int, *T)` the first type has become the name of the second one. -/
theorem intThenPointer_is_merged :
    let b := intAndPointer.1
    let groups : List ParamGroup :=
      [⟨[intAndPointer.2.1], none⟩, ⟨[], some intAndPointer.2.2⟩]
    (∀ g ∈ groups, g.type.isSome → g.names = []) ∧
      ¬List.Forall₂ (Builder.params groups b).2.file.Holds (Builder.params groups b).1
        (groups.flatMap asTypes) ∧
      (Builder.params groups b).2.file.fields =
        #[{ names := [intAndPointer.2.1], type := intAndPointer.2.2 }] := by
  intro b groups
  refine ⟨by decide, fun h => ?_, rfl⟩
  exact absurd h.length_eq (by decide)

end GoPackages.Source
