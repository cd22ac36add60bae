import GoPackages.Proofs.Analysis.TypeSpecs

/-!
# Failures that do not depend on the registry

What can be read in one registry can be read in every other one: a type expression fails for
how it is written, or for a qualifier that its file has not. Only an alias may be refused for
what the registry holds.
-/
namespace GoPackages

open Source (TypeExpr Field Expr InterfaceElem TypeSpec ValueSpec FuncDecl GroupKind)

def Succeeds {α : Type} (m : Analysis α) (reg : Registry) : Prop :=
  After m reg (fun _ _ => True) fun _ => False

/-- Where the first step succeeds in some registry, the second one succeeds in all. -/
def Carries {α β : Type} (m : Analysis α) (m' : Analysis β) : Prop :=
  ∀ reg reg', Succeeds m reg → Succeeds m' reg'

section Rules

variable {α β γ δ : Type} {m : Analysis α} {m' : Analysis β}

theorem Succeeds.eq_ok {reg : Registry} (h : Succeeds m reg) : ∃ a reg', m reg = .ok a reg' := by
  unfold Succeeds After at h
  cases hm : m reg with
  | ok a reg' => exact ⟨a, reg', rfl⟩
  | error e reg' => rw [hm] at h; exact h.elim

theorem succeeds_of_ok {reg reg' : Registry} {a : α} (h : m reg = .ok a reg') : Succeeds m reg := by
  rw [Succeeds, After, h]
  trivial

theorem succeeds_bind {k : α → Analysis γ} {reg : Registry} :
    Succeeds (m >>= k) reg ↔ After m reg (fun a mid => Succeeds (k a) mid) fun _ => False :=
  after_bind m k

def Total (m : Analysis α) : Prop := ∀ reg, Succeeds m reg

theorem Total.bind {k : α → Analysis γ} (h : Total m) (hk : ∀ a, Total (k a)) :
    Total (m >>= k) :=
  fun reg => succeeds_bind.mpr ((h reg).mono (fun a mid _ => hk a mid) fun _ h => h)

theorem Carries.of_total (h : Total m') : Carries m m' := fun _ reg' _ => h reg'

theorem Carries.bind {k : α → Analysis γ} {k' : β → Analysis δ} (h : Carries m m')
    (hk : ∀ a a', Carries (k a) (k' a')) : Carries (m >>= k) (m' >>= k') := by
  intro reg reg' hs
  obtain ⟨a, mid, hm, hs⟩ : ∃ a mid, m reg = .ok a mid ∧ Succeeds (k a) mid := by
    have hafter := succeeds_bind.mp hs
    obtain ⟨a, mid, hm⟩ := Succeeds.eq_ok (m := m) (hafter.mono (fun _ _ _ => trivial) fun _ h => h)
    exact ⟨a, mid, hm, hafter.of_ok hm⟩
  have hm' := h reg reg' (succeeds_of_ok hm)
  exact succeeds_bind.mpr (hm'.mono (fun a' mid' _ => hk a a' mid mid' hs) fun _ h => h)

theorem Carries.bind_total {k : α → Analysis γ} {k' : β → Analysis δ} {good : α → Prop}
    {good' : β → Prop} (hm : ∀ reg, After m reg (fun a _ => good a) fun _ => False)
    (hm' : ∀ reg, After m' reg (fun a _ => good' a) fun _ => False)
    (hk : ∀ a a', good a → good' a' → Carries (k a) (k' a')) :
    Carries (m >>= k) (m' >>= k') := by
  intro reg reg' hs
  have hafter := After.and (hm reg) (succeeds_bind.mp hs)
  obtain ⟨a, mid, heq⟩ :=
    Succeeds.eq_ok (m := m) (hafter.mono (fun _ _ _ => trivial) fun _ h => h.1)
  obtain ⟨ha, hs⟩ := hafter.of_ok heq
  refine succeeds_bind.mpr ((hm' reg').mono (fun a' mid' ha' => ?_) fun _ h => h)
  exact hk a a' ha ha' mid mid' hs

theorem total_pure (a : α) : Total (pure a : Analysis α) := fun _ => trivial

theorem total_ofRegistry (f : Registry → α × Registry) : Total (Analysis.ofRegistry f) :=
  fun _ => trivial

theorem total_ofGraph (f : TypeGraph → α × TypeGraph) : Total (Analysis.ofGraph f) :=
  fun _ => trivial

theorem total_modify (f : Registry → Registry) : Total (modify f : Analysis PUnit) :=
  fun _ => trivial

theorem carries_throw (e : Error) : Carries (throw e : Analysis α) m' := fun _ _ h => h.elim

end Rules

structure SameImports (scope scope' : FileScope) : Prop where
  aliases : scope'.aliases = scope.aliases
  decodeTag : scope'.decodeTag = scope.decodeTag

section Types

variable {scope scope' : FileScope}

theorem resolveName_carries (scope scope' : FileScope) (name : String) :
    Carries (scope.resolveName name) (scope'.resolveName name) := by
  unfold FileScope.resolveName
  by_cases h : name = "" ∨ name = "_"
  · rw [if_pos h]
    exact carries_throw _
  · rw [if_neg h, if_neg h]
    refine .of_total (Total.bind (fun _ => trivial) fun reg => ?_)
    split
    · exact total_pure _
    · exact (total_ofRegistry _).bind fun _ => total_pure _

theorem resolveQualified_carries (h : SameImports scope scope') (base : Expr) (name : String) :
    Carries (scope.resolveQualified base name) (scope'.resolveQualified base name) := by
  unfold FileScope.resolveQualified
  cases base with
  | ident qualifier =>
    dsimp only
    rw [h.aliases]
    cases scope.aliases.get? qualifier with
    | none => exact carries_throw _
    | some pkg => exact .of_total ((total_ofRegistry _).bind fun _ => total_pure _)
  | _ => exact carries_throw _

theorem readTag_carries (h : SameImports scope scope') (tag : Option String) :
    Carries (scope.readTag tag) (scope'.readTag tag) := by
  unfold FileScope.readTag
  cases tag with
  | none => exact .of_total (total_pure _)
  | some literal =>
    dsimp only
    rw [h.decodeTag]
    split
    · exact .of_total (total_pure _)
    · exact carries_throw _

mutual

theorem resolveType_carries (h : SameImports scope scope') (type : TypeExpr) :
    Carries (resolveType scope type) (resolveType scope' type) := by
  cases type with
  | named name args => exact resolveName_carries scope scope' name
  | selector base name args => exact resolveQualified_carries h (base ()) name
  | pointer elem | array _ elem | slice elem | chan _ elem | ellipsis elem =>
    exact (resolveType_carries h (elem ())).bind fun _ _ => .of_total (total_ofGraph _)
  | map key value =>
    refine (resolveType_carries h (key ())).bind fun _ _ => ?_
    exact (resolveType_carries h (value ())).bind fun _ _ => .of_total (total_ofGraph _)
  | func params results =>
    refine (resolveArguments_carries h params).bind fun _ _ => ?_
    refine (resolveArguments_carries h results).bind fun _ _ => .of_total ?_
    exact (total_ofGraph _).bind fun _ => total_ofGraph _
  | interface elems => exact .of_total (total_pure _)
  | struct fields =>
    refine (Carries.of_total (total_ofGraph _)).bind fun _ _ => ?_
    refine (Carries.of_total (total_ofGraph _)).bind fun _ _ => ?_
    exact (resolveFields_carries h _ _ fields).bind fun _ _ => .of_total (total_pure _)
  | paren inner => exact resolveType_carries h (inner ())
  | bad => exact carries_throw _
termination_by structural type

theorem resolveArguments_carries (h : SameImports scope scope') (fields : List Field) :
    Carries (resolveArguments scope fields) (resolveArguments scope' fields) := by
  match fields with
  | [] => exact .of_total (total_pure _)
  | ⟨names, type, _, _⟩ :: rest =>
    refine (resolveType_carries h (type ())).bind fun _ _ => ?_
    exact (resolveArguments_carries h rest).bind fun _ _ => .of_total (total_pure _)
termination_by structural fields

theorem resolveFields_carries (h : SameImports scope scope') (ty ty' : TypeId)
    (fields : List Field) :
    Carries (resolveFields scope ty fields) (resolveFields scope' ty' fields) := by
  match fields with
  | [] => exact .of_total (total_pure _)
  | ⟨names, type, tag, doc⟩ :: rest =>
    refine (resolveType_carries h (type ())).bind fun _ _ => ?_
    refine (readTag_carries h tag).bind fun _ _ => ?_
    exact (Carries.of_total (total_modify _)).bind fun _ _ => resolveFields_carries h ty ty' rest
termination_by structural fields

end

theorem resolveMethod_carries (h : SameImports scope scope') (name : String) (doc : Doc)
    (receiver receiver' : Option Argument) (params results : List Field) :
    Carries (resolveMethod scope name doc receiver params results)
      (resolveMethod scope' name doc receiver' params results) :=
  (resolveArguments_carries h params).bind fun _ _ =>
    (resolveArguments_carries h results).bind fun _ _ => .of_total (total_ofGraph _)

theorem declareElems_carries (h : SameImports scope scope') (ty ty' : TypeId)
    (elems : List InterfaceElem) :
    Carries (declareElems scope ty elems) (declareElems scope' ty' elems) := by
  induction elems with
  | nil => exact .of_total (total_pure _)
  | cons elem rest ih =>
    cases elem with
    | embedded | union => exact carries_throw _
    | method name params results =>
      refine (resolveMethod_carries h name [] none none params results).bind fun _ _ => ?_
      exact (Carries.of_total (total_modify _)).bind fun _ _ => ih

theorem inferType_carries (h : SameImports scope scope') (e : Expr) :
    Carries (inferType scope e) (inferType scope' e) := by
  cases e with
  | literal kind text =>
    exact (resolveName_carries scope scope' kind.typeName).bind fun _ _ => .of_total (total_pure _)
  | ident name =>
    unfold inferType
    split
    · exact (resolveName_carries scope scope' _).bind fun _ _ => .of_total (total_pure _)
    · exact .of_total (total_pure _)
  | composite type =>
    cases type with
    | none => exact .of_total (total_pure _)
    | some type =>
      exact (resolveType_carries h (type ())).bind fun _ _ => .of_total (total_pure _)
  | unary op operand =>
    unfold inferType
    split
    · refine (inferType_carries h (operand ())).bind fun _ o => .of_total ?_
      cases o with
      | none => exact total_pure _
      | some r => exact (total_ofGraph _).bind fun _ => total_pure _
    · split
      · exact inferType_carries h (operand ())
      · exact .of_total (total_pure _)
  | paren inner => exact inferType_carries h (inner ())
  | selector | call | other | bad => exact .of_total (total_pure _)
termination_by structural e

end Types

section Declarations

theorem withTypeParams_imports (scope : FileScope) (names : List String) (reg : Registry) :
    After (scope.withTypeParams names) reg (fun inner _ => SameImports scope inner)
      fun _ => False :=
  After.bind (newTypeParams_total scope reg names) (fun _ _ _ => ⟨rfl, rfl⟩) fun _ h => h

theorem SameImports.between {scope inner inner' : FileScope} (h : SameImports scope inner)
    (h' : SameImports scope inner') : SameImports inner inner' :=
  ⟨h'.aliases.trans h.aliases.symm, h'.decodeTag.trans h.decodeTag.symm⟩

theorem declareTypeSpec_carries (scope : FileScope) (groupDoc : Option Doc) {spec : TypeSpec}
    (ha : spec.isAlias = false) :
    Carries (declareTypeSpec scope groupDoc spec) (declareTypeSpec scope groupDoc spec) := by
  rw [declareTypeSpec_eq_fill scope groupDoc ha]
  refine .bind_total (withTypeParams_imports scope _) (withTypeParams_imports scope _) ?_
  intro inner inner' hi hi'
  have hsame := hi.between hi'
  refine (Carries.of_total (total_ofRegistry _)).bind fun ty ty' => ?_
  unfold fill
  cases spec.type with
  | struct fields => exact resolveFields_carries hsame ty ty' fields
  | interface elems => exact declareElems_carries hsame ty ty' elems
  | _ => exact .of_total (total_pure _)

theorem declareTypeSpec_carries_alias (scope : FileScope) (groupDoc : Option Doc)
    {spec : TypeSpec} (ha : spec.isAlias = true) :
    Carries (declareTypeSpec scope groupDoc spec) (resolveType scope spec.type) := by
  intro reg reg' hs
  unfold declareTypeSpec at hs
  simp only [ha, if_true] at hs
  have hafter := After.and (withTypeParams_imports scope _ reg) (succeeds_bind.mp hs)
  obtain ⟨inner, mid, heq⟩ := Succeeds.eq_ok (hafter.mono (fun _ _ _ => trivial) fun _ h => h.1)
  obtain ⟨hi, hs⟩ := hafter.of_ok heq
  have hread := succeeds_bind.mp hs
  refine resolveType_carries (hi.between ⟨rfl, rfl⟩) spec.type mid reg' ?_
  exact hread.mono (fun _ _ _ => trivial) fun _ h => h

theorem declareNames_carries (scope : FileScope) (kind : GroupKind) (doc : Doc)
    {declared declared' : Option RefId} (hd : declared.isSome = declared'.isSome)
    (source : ValueSpec) (index : Nat) (names : List String) :
    Carries (declareNames scope kind doc declared source index names)
      (declareNames scope kind doc declared' source index names) := by
  have hvalue : ∀ index, Carries (valueType scope declared source index)
      (valueType scope declared' source index) := by
    intro index
    cases declared with
    | some r =>
      obtain ⟨r', rfl⟩ := Option.isSome_iff_exists.mp hd.symm
      exact .of_total (total_pure _)
    | none =>
      obtain rfl : declared' = none :=
        Option.isNone_iff_eq_none.mp (Option.isSome_eq_false_iff.mp hd.symm)
      unfold valueType
      dsimp only
      split
      · exact inferType_carries ⟨rfl, rfl⟩ _
      · exact .of_total (total_pure _)
  induction names generalizing index with
  | nil => exact .of_total (total_pure _)
  | cons name rest ih =>
    rw [declareNames, declareNames]
    by_cases hb : name = "_"
    · simp only [hb, ne_eq, not_true, if_false]
      exact ih (index + 1)
    · simp only [hb, ne_eq, not_false_iff, if_true]
      refine (hvalue index).bind fun _ _ => ?_
      exact (Carries.of_total (total_modify _)).bind fun _ _ => ih (index + 1)

theorem declareValueSpec_carries (scope : FileScope) (kind : GroupKind) (groupDoc : Option Doc)
    (spec source : ValueSpec) : Carries (declareValueSpec scope kind groupDoc spec source)
      (declareValueSpec scope kind groupDoc spec source) := by
  unfold declareValueSpec
  cases source.type with
  | none => exact declareNames_carries scope kind _ rfl source 0 spec.names
  | some type =>
    simp only [Option.mapM_some, bind_map_left]
    refine (resolveType_carries ⟨rfl, rfl⟩ type).bind fun r r' => ?_
    have hd : (some r).isSome = (some r').isSome := rfl
    exact declareNames_carries scope kind _ hd source 0 spec.names

theorem declareFunc_carries (scope : FileScope) (decl : FuncDecl) :
    Carries (declareFunc scope decl) (declareFunc scope decl) := by
  unfold declareFunc
  refine .bind_total (withTypeParams_imports scope _) (withTypeParams_imports scope _) ?_
  intro inner inner' hi hi'
  have hsame := hi.between hi'
  have hreceiver : Carries (decl.receiver.mapM (resolveReceiver inner))
      (decl.receiver.mapM (resolveReceiver inner')) := by
    cases decl.receiver with
    | none => exact .of_total (total_pure _)
    | some field =>
      refine ((resolveType_carries hsame (field.type ())).bind fun _ _ => ?_).bind fun _ _ => ?_
      · exact .of_total (total_pure _)
      · exact .of_total (total_pure _)
  refine hreceiver.bind fun receiver receiver' => ?_
  refine (resolveMethod_carries hsame _ _ _ _ _ _).bind fun _ _ => .of_total ?_
  cases receiver' with
  | none => exact total_modify _
  | some owner => exact total_modify _

end Declarations

end GoPackages
