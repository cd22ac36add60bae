import GoPackages.Proofs.Analysis.Resolve

/-!
# Members and initializers

Methods, type parameters, interface elements and the initializers of values, read through the
types that they are written with.
-/
namespace GoPackages

open Source (TypeExpr Field Expr InterfaceElem)
open Registry (Extends)

/-- The address of a value without an evident type has none either. -/
def AddressOf (g : TypeGraph) : Option RefId → Option RefId → Prop
  | some inner, some r => g.entryAt? r = some (.decorated .pointer inner)
  | none, o => o = none
  | some _, none => False

def InitDenotes (g : TypeGraph) (lo : Nat) (m : Meaning) (e : Expr) (o : Option RefId) : Prop :=
  match e with
  | .literal kind _ => ∃ r, o = some r ∧ m.bare kind.typeName r
  | .ident name =>
    match identTypeName? name with
    | some typeName => ∃ r, o = some r ∧ m.bare typeName r
    | none => o = none
  | .composite (some type) => ∃ r, o = some r ∧ Denotes g lo m (type ()) r
  | .unary op operand =>
    if op = .address then ∃ inner, InitDenotes g lo m (operand ()) inner ∧ AddressOf g inner o
    else if op.keepsType then InitDenotes g lo m (operand ()) o
    else o = none
  | .paren inner => InitDenotes g lo m (inner ()) o
  | .composite none | .selector _ _ | .call _ | .other _ | .bad => o = none
termination_by structural e

theorem InitDenotes.mono {g g' : TypeGraph} {lo lo' : Nat} {m m' : Meaning}
    (hk : TypeGraph.Keeps lo g g') (hl : lo' ≤ lo) (hm : m.Refines m') (e : Expr)
    (o : Option RefId) (h : InitDenotes g lo m e o) : InitDenotes g' lo' m' e o := by
  cases e with
  | ident name =>
    unfold InitDenotes at h ⊢
    split
    next t ht =>
      rw [ht] at h
      obtain ⟨r, ho, hr⟩ := h
      exact ⟨r, ho, hm.bare _ r hr⟩
    next ht =>
      rw [ht] at h
      exact h
  | literal kind text =>
    obtain ⟨r, ho, hr⟩ := h
    exact ⟨r, ho, hm.bare _ r hr⟩
  | composite type =>
    cases type with
    | none => exact h
    | some type =>
      obtain ⟨r, ho, hd⟩ := h
      exact ⟨r, ho, hd.mono hk hl hm⟩
  | selector | call | other | bad => exact h
  | unary op operand =>
    unfold InitDenotes at h ⊢
    split
    next hop =>
      rw [if_pos hop] at h
      obtain ⟨inner, hi, ha⟩ := h
      refine ⟨inner, InitDenotes.mono hk hl hm (operand ()) inner hi, ?_⟩
      cases inner with
      | none => exact ha
      | some inner =>
        cases o with
        | none => exact ha
        | some r => exact hk.decorated r _ inner ha
    next hop =>
      rw [if_neg hop] at h
      split
      next ht =>
        rw [if_pos ht] at h
        exact InitDenotes.mono hk hl hm (operand ()) o h
      next ht =>
        rw [if_neg ht] at h
        exact h
  | paren inner => exact InitDenotes.mono hk hl hm (inner ()) o h
termination_by structural e

theorem inferType_reads {scope : FileScope} {reg : Registry} (hr : reg.Sound)
    (hs : scope.Sound reg) (e : Expr) :
    Reads scope reg.Unmade reg (inferType scope e) fun o reg' =>
      (∀ r, o = some r → reg'.graph.HasRef r) ∧
        InitDenotes reg'.graph reg.graph.typeCount (scope.meaning reg') e o := by
  cases e with
  | ident name =>
    cases ht : identTypeName? name with
    | some t =>
      simp only [inferType, InitDenotes, ht]
      refine Reads.bind hr hs (resolveName_reads hr hs _ t) ?_
      rintro r mid _ _ _ ⟨href, hm⟩
      exact reads_pure ⟨fun s hs => Option.some.inj hs ▸ href, r, rfl, hm⟩
    | none =>
      simp only [inferType, InitDenotes, ht]
      exact reads_pure ⟨fun _ h => (by cases h), rfl⟩
  | literal kind text =>
    refine Reads.bind hr hs (resolveName_reads hr hs _ kind.typeName) ?_
    rintro r mid _ _ _ ⟨href, hm⟩
    exact reads_pure ⟨fun s hs => Option.some.inj hs ▸ href, r, rfl, hm⟩
  | composite type =>
    cases type with
    | none => exact reads_pure ⟨fun _ h => (by cases h), rfl⟩
    | some type =>
      refine Reads.bind hr hs (resolveType_reads hr hs (type ())) ?_
      rintro r mid _ _ _ ⟨href, hd⟩
      exact reads_pure ⟨fun s hs => Option.some.inj hs ▸ href, r, rfl, hd⟩
  | selector | call | other | bad => exact reads_pure ⟨fun _ h => (by cases h), rfl⟩
  | unary op operand =>
    unfold inferType InitDenotes
    split
    next =>
      refine Reads.bind hr hs (inferType_reads hr hs (operand ())) ?_
      rintro inner mid he hmr hms ⟨href, hi⟩
      cases inner with
      | none => exact reads_pure ⟨fun _ h => (by cases h), none, hi, rfl⟩
      | some inner =>
        have hx : Extends scope.package mid.Unmade mid _ :=
          Registry.extends_decorate mid .pointer (href inner rfl)
        refine Reads.later he (Reads.after_ofGraph hx (reads_pure ⟨?_, some inner, ?_, ?_⟩))
        · exact fun s hs => Option.some.inj hs ▸ hasRef_addRef mid.graph _
        · exact hi.mono hx.keeps_all le_rfl (scope.meaning_refines hx.refs)
        · exact TypeGraph.entryAt?_addRef_self mid.graph _
    next =>
      split
      next => exact inferType_reads hr hs (operand ())
      next => exact reads_pure ⟨fun _ h => (by cases h), rfl⟩
  | paren inner => exact inferType_reads hr hs (inner ())
termination_by structural e

structure SignatureDenotes (g : TypeGraph) (lo : Nat) (m : Meaning) (receiver : Option Argument)
    (params results : List Field) (ty : TypeId) (t : MethodType) : Prop where
  kind : g.kind? ty = some (.method t)
  made : lo ≤ ty.index
  receiver : t.receiver = receiver
  arguments : ArgumentsDenote g lo m params t.arguments
  results : ArgumentsDenote g lo m results t.results

theorem SignatureDenotes.mono {g g' : TypeGraph} {lo lo' : Nat} {m m' : Meaning}
    {receiver params results ty t} (h : SignatureDenotes g lo m receiver params results ty t)
    (hk : TypeGraph.Keeps lo g g') (hl : lo' ≤ lo) (hm : m.Refines m') :
    SignatureDenotes g' lo' m' receiver params results ty t where
  kind := hk.kinds ty _ h.made h.kind
  made := Nat.le_trans hl h.made
  receiver := h.receiver
  arguments := h.arguments.mono hk hl hm
  results := h.results.mono hk hl hm

theorem resolveMethod_reads {scope : FileScope} {reg : Registry} (hr : reg.Sound)
    (hs : scope.Sound reg) (name : String) (doc : Doc) (receiver : Option Argument)
    (params results : List Field) :
    Reads scope reg.Unmade reg (resolveMethod scope name doc receiver params results)
      fun ty reg' => ∃ data t, reg'.graph.typeAt? ty = some data ∧ data.name = name ∧
        SignatureDenotes reg'.graph reg.graph.typeCount (scope.meaning reg') receiver params
          results ty t := by
  refine Reads.bind hr hs (resolveArguments_reads hr hs params) ?_
  intro as mid he hmr hms ha
  refine Reads.later he (Reads.bind hmr hms (resolveArguments_reads hmr hms results) ?_)
  intro rs mid' he' _ _ hrs
  let t : MethodType := { doc, receiver, arguments := as, results := rs }
  let data : TypeData := { name, package := some scope.package, kind := .method t }
  have hx : Extends scope.package mid'.Unmade mid' (mid'.onGraph (·.addType data)).2 :=
    Registry.extends_addType mid' data
  have hty := TypeGraph.typeAt?_addType_self mid'.graph data
  refine Reads.later he' ⟨hx, data, t, hty, rfl, Registry.kind?_of_typeAt? hty, ?_, rfl, ?_, ?_⟩
  · exact Nat.le_trans he.typeCount he'.typeCount
  · exact hx.argumentsDenote le_rfl (he'.argumentsDenote le_rfl ha)
  · exact hx.argumentsDenote he.typeCount hrs

def ElemsDenote (g : TypeGraph) (lo : Nat) (m : Meaning) :
    List InterfaceElem → List (String × TypeId) → Prop
  | [], methods => methods = []
  | .method name params results :: rest, methods => ∃ ty t others,
      methods = (name, ty) :: others ∧
      SignatureDenotes g lo m none params results ty t ∧ ElemsDenote g lo m rest others
  | .embedded _ :: _, _ | .union _ :: _, _ => False

theorem ElemsDenote.mono {g g' : TypeGraph} {lo lo' : Nat} {m m' : Meaning}
    (hk : TypeGraph.Keeps lo g g') (hl : lo' ≤ lo) (hm : m.Refines m') {elems methods}
    (h : ElemsDenote g lo m elems methods) : ElemsDenote g' lo' m' elems methods := by
  induction elems generalizing methods with
  | nil => exact h
  | cons elem rest ih =>
    cases elem with
    | method name params results =>
      obtain ⟨ty, t, others, he, hd, ho⟩ := h
      exact ⟨ty, t, others, he, hd.mono hk hl hm, ih ho⟩
    | embedded | union => exact h

def Registry.MethodsAdded (reg reg' : Registry) (ty : TypeId)
    (methods : List (String × TypeId)) : Prop :=
  ∀ data t, reg.graph.typeAt? ty = some data → data.kind = .interface t →
    reg'.graph.typeAt? ty =
      some { data with kind := .interface { t with methods := t.methods.insertAll methods } }

theorem methodsAdded_addInterfaceMethod (reg : Registry) (ty : TypeId) (name : String)
    (method : TypeId) : reg.MethodsAdded
      (reg.withGraph fun g => (g.addInterfaceMethod ty name method).2) ty [(name, method)] := by
  intro data t hd hk
  unfold TypeGraph.typeAt? at hd ⊢
  simp [Registry.withGraph, TypeGraph.addInterfaceMethod, TypeGraph.modifyInterface,
    TypeGraph.modifyType, Array.getElem?_modify, hd, hk, OrderedMap.insertAll]

theorem Registry.MethodsAdded.trans {reg mid reg' : Registry} {ty : TypeId}
    {methods methods' : List (String × TypeId)} (h : reg.MethodsAdded mid ty methods)
    (h' : mid.MethodsAdded reg' ty methods') : reg.MethodsAdded reg' ty (methods ++ methods') := by
  intro data t hd hk
  have := h' _ _ (h data t hd hk) rfl
  simpa [OrderedMap.insertAll, List.foldl_append] using this

theorem Registry.Extends.methodsAdded {pkg : PackageId} {reg mid reg' : Registry} {ty : TypeId}
    {methods : List (String × TypeId)} (he : Extends pkg reg.Unmade reg mid)
    (ht : reg.graph.HasType ty) (h : mid.MethodsAdded reg' ty methods) :
    reg.MethodsAdded reg' ty methods :=
  fun data t hd hk => h data t (he.types ty data (fun hn => hn ht) hd) hk

theorem declareElems_reads {scope : FileScope} {reg : Registry} (hr : reg.Sound)
    (hs : scope.Sound reg) {ty : TypeId} (ht : reg.graph.HasType ty)
    (elems : List InterfaceElem) :
    Reads scope (fun t => t = ty ∨ reg.Unmade t) reg (declareElems scope ty elems)
      fun _ reg' => ∃ methods, reg.MethodsAdded reg' ty methods ∧
        ElemsDenote reg'.graph reg.graph.typeCount (scope.meaning reg') elems methods := by
  induction elems generalizing reg with
  | nil =>
    refine reads_pure ⟨[], fun data t hd hk => ?_, rfl⟩
    rw [hd]
    exact congrArg some (by rw [OrderedMap.insertAll, List.foldl_nil, ← hk])
  | cons elem rest ih =>
    cases elem with
    | embedded | union => exact reads_throw _
    | method name params results =>
      refine Reads.bind_within hr hs (resolveMethod_reads hr hs name [] none params results)
        (fun _ => .inr) ?_
      rintro method mid he hmr hms ⟨data, t, _, _, hd⟩
      have hadd : Extends scope.package (Eq ty) mid
          (mid.withGraph fun g => (g.addInterfaceMethod ty name method).2) :=
        Registry.extends_addInterfaceMethod mid rfl name method
      refine Reads.after_modify (hadd.weaken fun _ h => .inl h.symm) ?_
      have hmade : ∀ t, reg.graph.HasType t →
          (mid.withGraph fun g => (g.addInterfaceMethod ty name method).2).graph.HasType t :=
        fun t h => hadd.hasType (he.hasType h)
      refine Reads.filling hmade
        (Reads.mono (ih (hadd.sound hmr) (hms.extended hadd) (hmade ty ht)) ?_)
      rintro _ reg' hrest ⟨others, hadded, hothers⟩
      have hkeep := hadd.keeps_filling ht fun t _ heq => heq.symm
      have hkeep' := hrest.keeps_filling ht fun t hmade hf => hf.resolve_right fun hn => hn hmade
      refine ⟨(name, method) :: others, ?_, method, t, others, rfl, ?_, ?_⟩
      · exact he.methodsAdded ht
          ((methodsAdded_addInterfaceMethod mid ty name method).trans hadded)
      · have hmid := hd.mono hkeep le_rfl (scope.meaning_refines hadd.refs)
        exact hmid.mono hkeep' le_rfl (scope.meaning_refines hrest.refs)
      · exact hothers.mono (.refl _ _) (Nat.le_trans he.typeCount hadd.typeCount) (.refl _)

/-- Every type parameter has a named entry of its own that no table holds. -/
def TypeParamsMade (reg : Registry) (params : List (String × RefId)) : Prop :=
  ∀ n r, (n, r) ∈ params → (∃ e, reg.graph.entryAt? r = some (.named e)) ∧
    ∀ q m, reg.ref? q m ≠ some r

theorem TypeParamsMade.extended {pkg : PackageId} {free : TypeId → Prop} {reg reg' : Registry}
    {params} (h : TypeParamsMade reg params) (he : Extends pkg free reg reg') :
    TypeParamsMade reg' params := by
  intro n r hm
  obtain ⟨⟨e, hentry⟩, htable⟩ := h n r hm
  refine ⟨⟨e, he.entries r _ hentry⟩, fun q m hr => ?_⟩
  rcases he.placed q m r hr with hold | ⟨hnew, _⟩
  · exact htable q m hold
  · exact hnew (TypeGraph.hasRef_of_entryAt? hentry)

theorem newTypeParams_reads {scope : FileScope} {reg : Registry} (hr : reg.Sound)
    (hs : scope.Sound reg) (names : List String) :
    Reads scope reg.Unmade reg (scope.newTypeParams names) fun params reg' =>
      params.map Prod.fst = names ∧ TypeParamsMade reg' params := by
  induction names generalizing reg with
  | nil => exact reads_pure ⟨rfl, fun _ _ h => (by cases h)⟩
  | cons name names ih =>
    let data : TypeData := { name, package := some scope.package, kind := .base }
    have hadd : Extends scope.package reg.Unmade reg (reg.onGraph (·.addType data)).2 :=
      Registry.extends_addType reg data
    have hfresh := extends_addType_opened reg scope.package data name reg.Unmade
    have hx := hadd.trans hfresh
    obtain ⟨-, ⟨e, hentry, -⟩, -⟩ := opened_holds reg scope.package data name
    refine Reads.after_ofGraph hadd (Reads.after_ofGraph hfresh ?_)
    have hmade : TypeParamsMade (opened reg scope.package data name).2
        [(name, (opened reg scope.package data name).1)] := by
      intro n r hm
      obtain ⟨rfl, rfl⟩ := Prod.mk.inj (List.mem_singleton.mp hm)
      refine ⟨⟨e, hentry⟩, fun q m hq => ?_⟩
      have hold : reg.ref? q m = some (opened reg scope.package data n).1 := hq
      exact Nat.lt_irrefl _ (hr.refs q m _ hold)
    refine Reads.later hx (Reads.bind (hx.sound hr) (hs.extended hx)
      (ih (hx.sound hr) (hs.extended hx)) ?_)
    rintro params reg' he _ _ ⟨hnames, hrest⟩
    refine reads_pure ⟨congrArg (name :: ·) hnames, fun n r hm => ?_⟩
    rcases List.mem_cons.mp hm with heq | hm
    · exact hmade.extended he n r (List.mem_singleton.mpr heq)
    · exact hrest n r hm

theorem withTypeParams_reads {scope : FileScope} {reg : Registry} (hr : reg.Sound)
    (hs : scope.Sound reg) (names : List String) :
    Reads scope reg.Unmade reg (scope.withTypeParams names) fun inner reg' =>
      inner.Sound reg' ∧ ∃ params, inner = { scope with typeParams := params } ∧
        params.map Prod.fst = names ∧ TypeParamsMade reg' params := by
  refine Reads.bind hr hs (newTypeParams_reads hr hs names) ?_
  rintro params reg' he _ hms ⟨hnames, hmade⟩
  refine reads_pure ⟨⟨hms.package, hms.aliases, fun n r hl => ?_⟩, params, rfl, hnames, hmade⟩
  obtain ⟨front, back, heq, -⟩ := List.lookup_eq_some_iff.mp hl
  have hparams : params = front ++ (n, r) :: back := heq
  obtain ⟨⟨e, he⟩, -⟩ := hmade n r (hparams ▸ List.mem_append_right front List.mem_cons_self)
  exact TypeGraph.hasRef_of_entryAt? he

end GoPackages
