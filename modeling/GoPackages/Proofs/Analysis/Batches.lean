import Mathlib.Algebra.GroupWithZero.Nat
import GoPackages.Proofs.Analysis.Conservative
import GoPackages.Proofs.StructTag.FirstOfKey

/-!
# One field declaration after the other

Every declaration of a list gives a batch of members, one for each of its names, which share what
the declaration says once. The batches come in the order of the declarations. Reading may add
whatever a type needs, but the members that are stored so far stay as they are.
-/
namespace GoPackages

open Source (Field)

/-- The declarations are read in turn, each with its batch of members. -/
inductive InTurn {β : Type} (step : Field → List β → Registry → Registry → Prop) :
    List Field → List β → Registry → Registry → Prop where
  | nil {reg : Registry} : InTurn step [] [] reg reg
  | cons {field : Field} {fields : List Field} {batch members : List β}
      {reg mid reg' : Registry} : step field batch reg mid → InTurn step fields members mid reg' →
      InTurn step (field :: fields) (batch ++ members) reg reg'

/-- The names of the members of a declaration. Without names there is a single member. -/
def memberNames (field : Field) (alone : String) : List String :=
  if field.names = [] then [alone] else field.names

theorem length_memberNames (field : Field) (alone : String) :
    (memberNames field alone).length = max 1 field.names.length := by
  unfold memberNames
  cases hnames : field.names with
  | nil => simp
  | cons name rest => simp

theorem InTurn.length_eq {β : Type} {step : Field → List β → Registry → Registry → Prop}
    (hstep : ∀ field batch reg reg', step field batch reg reg' →
      batch.length = max 1 field.names.length)
    {fields : List Field} {members : List β} {reg reg' : Registry}
    (h : InTurn step fields members reg reg') :
    members.length = (fields.map fun field => max 1 field.names.length).sum := by
  induction h with
  | nil => rfl
  | cons hbatch _ ih =>
    rw [List.length_append, hstep _ _ _ _ hbatch, ih]
    rfl

structure ArgumentBatch (field : Field) (r : RefId) (batch : List Argument) : Prop where
  names : batch.map (·.name) = memberNames field ""
  shared : ∀ argument ∈ batch, argument.type = r

def ArgumentRead (scope : FileScope) (field : Field) (batch : List Argument)
    (reg reg' : Registry) : Prop :=
  ∃ r, resolveType scope (field.type ()) reg = .ok r reg' ∧ ArgumentBatch field r batch

theorem argumentBatch_ofNames (field : Field) (r : RefId) :
    ArgumentBatch field r (Argument.ofNames field.names r) := by
  unfold Argument.ofNames
  cases hnames : field.names with
  | nil => exact ⟨by simp [memberNames, hnames], by simp⟩
  | cons name rest => exact ⟨by simp [memberNames, hnames, Function.comp_def], by simp⟩

/-- The arguments of a parameter or result list: for each name one, of one reference for all names
of a declaration. -/
structure ArgumentsRead (scope : FileScope) (fields : List Field) (arguments : List Argument)
    (reg reg' : Registry) : Prop where
  inTurn : InTurn (ArgumentRead scope) fields arguments reg reg'
  count : arguments.length = (fields.map fun field => max 1 field.names.length).sum

theorem resolveArguments_cons (scope : FileScope) (field : Field) (rest : List Field) :
    resolveArguments scope (field :: rest) = (do
      let r ← resolveType scope (field.type ())
      return Argument.ofNames field.names r ++ (← resolveArguments scope rest)) := by
  obtain ⟨names, type, tag, doc⟩ := field
  rfl

theorem resolveArguments_inTurn {scope : FileScope} (fields : List Field) {reg reg' : Registry}
    {arguments : List Argument} (h : resolveArguments scope fields reg = .ok arguments reg') :
    InTurn (ArgumentRead scope) fields arguments reg reg' := by
  induction fields generalizing reg arguments with
  | nil =>
    cases h
    exact .nil
  | cons field rest ih =>
    rw [resolveArguments_cons] at h
    obtain ⟨r, mid, hread, h⟩ := bind_ok h
    obtain ⟨others, _, hrest, h⟩ := bind_ok h
    cases h
    exact .cons ⟨r, hread, argumentBatch_ofNames field r⟩ (ih hrest)

theorem resolveArguments_read {scope : FileScope} {fields : List Field} {reg reg' : Registry}
    {arguments : List Argument} (h : resolveArguments scope fields reg = .ok arguments reg') :
    ArgumentsRead scope fields arguments reg reg' := by
  have hturn := resolveArguments_inTurn fields h
  refine ⟨hturn, hturn.length_eq ?_⟩
  rintro field batch _ _ ⟨r, -, hbatch⟩
  rw [← length_memberNames field "", ← hbatch.names, List.length_map]

structure FieldBatch (field : Field) (typeName : String) (r : RefId) (tag : Tag)
    (batch : List StructField) : Prop where
  names : batch.map (·.name) = memberNames field typeName
  shared : ∀ f ∈ batch, f.type = r ∧ f.tag = tag ∧ f.doc = field.doc.getD []
  embedded : ∀ f ∈ batch, f.embedded = field.names.isEmpty

theorem fieldBatch_ofNames (field : Field) (typeName : String) (r : RefId) (tag : Tag) :
    FieldBatch field typeName r tag
      (StructField.ofNames field.names typeName r tag (field.doc.getD [])) := by
  unfold StructField.ofNames
  cases hnames : field.names with
  | nil => exact ⟨by simp [memberNames, hnames], by simp, by simp [hnames]⟩
  | cons name rest =>
    exact ⟨by simp [memberNames, hnames, Function.comp_def], by simp, by simp [hnames]⟩

/-- The type of the declaration is read and then its tag, and the batch is stored behind the fields
that the struct type has. An embedded field has the name of its type. -/
def FieldRead (scope : FileScope) (ty : TypeId) (field : Field) (batch : List StructField)
    (reg reg' : Registry) : Prop :=
  ∃ r tag mid, resolveType scope (field.type ()) reg = .ok r mid ∧ TagRead scope field.tag tag ∧
    FieldBatch field (mid.graph.refName r) r tag batch ∧
    reg' = mid.withGraph (·.addFields ty batch)

inductive FieldFails (scope : FileScope) (field : Field) (reg : Registry) :
    Error → Registry → Prop where
  | type {e : Error} {reg' : Registry} : resolveType scope (field.type ()) reg = .error e reg' →
      FieldFails scope field reg e reg'
  | tag {e : Error} {r : RefId} {reg' : Registry} :
      resolveType scope (field.type ()) reg = .ok r reg' → TagFails scope field.tag e →
      FieldFails scope field reg e reg'

inductive FieldsEnd (scope : FileScope) (mid : Registry) :
    List Field → EStateM.Result Error Registry Unit → Prop where
  | all : FieldsEnd scope mid [] (.ok () mid)
  | failed {field : Field} {rest : List Field} {e : Error} {reg' : Registry} :
      FieldFails scope field mid e reg' → FieldsEnd scope mid (field :: rest) (.error e reg')

variable {scope : FileScope} {ty : TypeId} {fields before rest : List Field}
  {stored : List StructField} {reg mid reg' : Registry}

theorem resolveFields_cons (scope : FileScope) (ty : TypeId) (field : Field) (rest : List Field) :
    resolveFields scope ty (field :: rest) = (do
      let r ← resolveType scope (field.type ())
      let tag ← scope.readTag field.tag
      modify (·.withGraph fun g =>
        g.addFields ty (StructField.ofNames field.names (g.refName r) r tag (field.doc.getD [])))
      resolveFields scope ty rest) := by
  obtain ⟨names, type, tag, doc⟩ := field
  rfl

/-- One declaration of a struct either gives its batch or ends the list. -/
theorem resolveFields_step (scope : FileScope) (ty : TypeId) (field : Field) (rest : List Field)
    (reg : Registry) :
    (∃ batch mid, FieldRead scope ty field batch reg mid ∧
      resolveFields scope ty (field :: rest) reg = resolveFields scope ty rest mid) ∨
    ∃ e reg', FieldFails scope field reg e reg' ∧
      resolveFields scope ty (field :: rest) reg = .error e reg' := by
  rw [resolveFields_cons]
  cases htype : resolveType scope (field.type ()) reg with
  | error e reg' => exact .inr ⟨e, reg', .type htype, bind_eq_of_error htype⟩
  | ok r mid =>
    rcases readTag_reads_or_refuses scope field.tag mid with ⟨tag, htag, hread⟩ | ⟨e, htag, hread⟩
    · have hbatch := fieldBatch_ofNames field (mid.graph.refName r) r tag
      refine .inl ⟨_, _, ⟨r, tag, mid, htype, htag, hbatch, rfl⟩, ?_⟩
      exact (bind_eq_of_ok htype).trans (bind_eq_of_ok hread)
    · refine .inr ⟨e, mid, .tag htype htag, ?_⟩
      exact (bind_eq_of_ok htype).trans (bind_eq_of_error hread)

/-- The declarations in front are read in turn, up to the end of the list or to the first one that
fails. -/
theorem resolveFields_end (scope : FileScope) (ty : TypeId) (fields : List Field)
    (reg : Registry) : ∃ before rest stored mid, fields = before ++ rest ∧
      InTurn (FieldRead scope ty) before stored reg mid ∧
      FieldsEnd scope mid rest (resolveFields scope ty fields reg) := by
  induction fields generalizing reg with
  | nil => exact ⟨[], [], [], reg, rfl, .nil, .all⟩
  | cons field fields ih =>
    -- The list is cut where a declaration fails: those after it are never looked at.
    rcases resolveFields_step scope ty field fields reg with
      ⟨batch, mid, hread, hnext⟩ | ⟨e, reg', hfails, herror⟩
    · obtain ⟨before, rest, stored, last, hsplit, hturn, hend⟩ := ih mid
      refine ⟨field :: before, rest, batch ++ stored, last, ?_, .cons hread hturn, ?_⟩
      · rw [hsplit, List.cons_append]
      · rwa [hnext]
    · refine ⟨[], field :: fields, [], reg, rfl, .nil, ?_⟩
      rw [herror]
      exact .failed hfails

theorem FieldRead.length_eq {field : Field} {batch : List StructField}
    (h : FieldRead scope ty field batch reg reg') :
    batch.length = max 1 field.names.length := by
  obtain ⟨r, tag, mid, -, -, hbatch, -⟩ := h
  rw [← length_memberNames field (mid.graph.refName r), ← hbatch.names, List.length_map]

theorem Conserves.fieldsAdded (h : Conserves scope reg mid) (ty : TypeId) :
    reg.FieldsAdded mid ty [] := by
  intro data s hd hk
  rw [TypeGraph.typeAt?_of_prefix h.types hd, List.append_nil, ← hk]

theorem FieldRead.fieldsAdded {field : Field} {batch : List StructField}
    (h : FieldRead scope ty field batch reg reg') : reg.FieldsAdded reg' ty batch := by
  obtain ⟨r, tag, mid, hread, -, -, rfl⟩ := h
  have hconserves := (resolveType_conserving _ reg (.refl scope reg)).of_ok hread
  exact (hconserves.fieldsAdded ty).trans (fieldsAdded_addFields mid ty batch)

theorem InTurn.fieldsAdded (h : InTurn (FieldRead scope ty) fields stored reg reg') :
    reg.FieldsAdded reg' ty stored := by
  induction h with
  | nil => exact (Conserves.refl scope _).fieldsAdded ty
  | cons hread _ ih => exact hread.fieldsAdded.trans ih

theorem InTurn.refs_prefix (h : InTurn (FieldRead scope ty) fields stored reg reg') :
    reg.graph.refs.toList <+: reg'.graph.refs.toList := by
  induction h with
  | nil => exact List.prefix_rfl
  | @cons _ _ _ _ start _ _ hbatch _ ih =>
    obtain ⟨r, tag, mid, hread, -, -, rfl⟩ := hbatch
    have hconserves := (resolveType_conserving _ start (.refl scope start)).of_ok hread
    exact hconserves.refs.trans ih

/-- A declaration that fails stores nothing. -/
theorem FieldsEnd.fieldsAdded {m : Analysis Unit} (h : FieldsEnd scope mid rest (m reg)) :
    mid.FieldsAdded (stateAfter m reg) ty [] := by
  unfold stateAfter
  cases hm : m reg with
  | ok _ reg' =>
    rw [hm] at h
    cases h
    exact (Conserves.refl scope _).fieldsAdded ty
  | error e reg' =>
    rw [hm] at h
    obtain _ | hfails := h
    obtain hread | ⟨hread, -⟩ := hfails
    · exact ((resolveType_conserving _ mid (.refl scope mid)).of_error hread).fieldsAdded ty
    · exact ((resolveType_conserving _ mid (.refl scope mid)).of_ok hread).fieldsAdded ty

end GoPackages
