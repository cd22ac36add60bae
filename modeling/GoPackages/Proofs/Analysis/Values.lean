import GoPackages.Proofs.Analysis.TypeSpecs

/-!
# What value and function declarations leave behind

Values are listed one after the other, each after its type was read. A function is read as a
whole, and then it is listed or goes to the name behind its receiver.
-/
namespace GoPackages

open Source (TypeExpr Field ValueSpec GroupKind FuncDecl)
open Registry (Extends)

/-- One name that a line declares, with the line that its type comes from. -/
structure ValuePlace where
  source : ValueSpec
  index : Nat
  name : String

def placesFrom (source : ValueSpec) (index : Nat) : List String → List ValuePlace
  | [] => []
  | name :: rest =>
    if name = "_" then placesFrom source (index + 1) rest
    else ⟨source, index, name⟩ :: placesFrom source (index + 1) rest

/-- The type of a value: the declared one, or else that of its initializer or the first one. -/
def ValueDenotes (g : TypeGraph) (m : Meaning) (source : ValueSpec) (index : Nat)
    (o : Option RefId) : Prop :=
  match source.type with
  | some type => ∃ r, o = some r ∧ Denotes g 0 m type r
  | none =>
    match source.values[index]?.or source.values.head? with
    | some e => InitDenotes g 0 m e o
    | none => o = none

def PlaceDenotes (g : TypeGraph) (m : Meaning) (place : ValuePlace) (v : Variable) : Prop :=
  v.name = place.name ∧ ValueDenotes g m place.source place.index v.type

theorem PlaceDenotes.mono {g g' : TypeGraph} {m m' : Meaning} (hk : TypeGraph.Keeps 0 g g')
    (hm : m.Refines m') {place : ValuePlace} {v : Variable} (h : PlaceDenotes g m place v) :
    PlaceDenotes g' m' place v := by
  refine ⟨h.1, ?_⟩
  have hv := h.2
  unfold ValueDenotes at hv ⊢
  split
  next type ht =>
    rw [ht] at hv
    obtain ⟨r, ho, hd⟩ := hv
    exact ⟨r, ho, hd.mono hk (Nat.le_refl _) hm⟩
  next ht =>
    rw [ht] at hv
    split
    next e he =>
      rw [he] at hv
      exact hv.mono hk (Nat.le_refl _) hm
    next he =>
      rw [he] at hv
      exact hv

def listValue (reg : Registry) (pkg : PackageId) (kind : GroupKind) (v : Variable) : Registry :=
  reg.modifyPackage pkg fun p =>
    if kind = .consts then p.declareConstant v else p.declareVariable v

theorem listValue_refs (kind : GroupKind) (v : Variable) (p : Package) :
    (if kind = .consts then p.declareConstant v else p.declareVariable v).refs = p.refs := by
  split <;> rfl

inductive ValuesRead (pkg : PackageId) (kind : GroupKind) :
    Registry → List Variable → Registry → Prop where
  | nil (reg : Registry) : ValuesRead pkg kind reg [] reg
  | cons {reg mid reg' v vs} : Extends pkg reg.Unmade reg mid →
      ValuesRead pkg kind (listValue mid pkg kind v) vs reg' →
      ValuesRead pkg kind reg (v :: vs) reg'

section

variable {scope : FileScope} {reg reg' : Registry} {pkg : PackageId} {kind : GroupKind}
  {vs : List Variable}

theorem FileScope.Sound.modifyPackage (hs : scope.Sound reg) (q : PackageId)
    (f : Package → Package) : scope.Sound (reg.modifyPackage q f) where
  package := by
    obtain ⟨p, hp⟩ := hs.package
    exact ⟨_, Registry.package?_modifyPackage_of_some hp f⟩
  aliases qualifier q' hq := by
    obtain ⟨p, hp⟩ := hs.aliases qualifier q' hq
    exact ⟨_, Registry.package?_modifyPackage_of_some hp f⟩
  typeParams := hs.typeParams

theorem ValuesRead.keeps (h : ValuesRead pkg kind reg vs reg') :
    TypeGraph.Keeps 0 reg.graph reg'.graph := by
  induction h with
  | nil reg => exact .refl 0 _
  | cons he _ ih => exact he.keeps_all.trans ih

theorem ValuesRead.refs (h : ValuesRead pkg kind reg vs reg') (q : PackageId) (n : String)
    (r : RefId) (hr : reg.ref? q n = some r) : reg'.ref? q n = some r := by
  induction h with
  | nil reg => exact hr
  | @cons reg mid reg' v vs he _ ih =>
    exact ih ((Registry.ref?_modifyPackage (listValue_refs kind v) q n).trans (he.refs q n r hr))

theorem valueType_reads (hr : reg.Sound) (hs : scope.Sound reg) {source : ValueSpec}
    {declared : Option RefId}
    (hd : match source.type with
      | some type => ∃ r, declared = some r ∧ Denotes reg.graph 0 (scope.meaning reg) type r
      | none => declared = none) (index : Nat) :
    Reads scope reg.Unmade reg (valueType scope declared source index) fun o reg' =>
      ValueDenotes reg'.graph (scope.meaning reg') source index o := by
  unfold valueType ValueDenotes
  cases ht : source.type with
  | some type =>
    rw [ht] at hd
    obtain ⟨r, rfl, hd⟩ := hd
    exact reads_pure ⟨r, rfl, hd⟩
  | none =>
    rw [ht] at hd
    subst hd
    dsimp only
    cases source.values[index]?.or source.values.head? with
    | none => exact reads_pure rfl
    | some e =>
      refine (inferType_reads hr hs e).mono ?_
      rintro o reg' _ ⟨_, hi⟩
      exact hi.mono (.refl _ _) (Nat.zero_le _) (.refl _)

/-- What a failure among values leaves: some were listed, and then there was only reading. -/
def ValuesBroken (pkg : PackageId) (kind : GroupKind) (reg reg' : Registry) : Prop :=
  ∃ vs mid, ValuesRead pkg kind reg vs mid ∧ Extends pkg mid.Unmade mid reg'

theorem declareNames_reads (hr : reg.Sound) (hs : scope.Sound reg) (kind : GroupKind)
    (doc : Doc) {source : ValueSpec} {declared : Option RefId}
    (hd : match source.type with
      | some type => ∃ r, declared = some r ∧ Denotes reg.graph 0 (scope.meaning reg) type r
      | none => declared = none) (index : Nat) (names : List String) :
    After (declareNames scope kind doc declared source index names) reg
      (fun _ reg' => ∃ vs, ValuesRead scope.package kind reg vs reg' ∧
        List.Forall₂ (PlaceDenotes reg'.graph (scope.meaning reg'))
          (placesFrom source index names) vs)
      (ValuesBroken scope.package kind reg) := by
  induction names generalizing reg index with
  | nil => exact ⟨[], .nil reg, .nil⟩
  | cons name rest ih =>
    rw [declareNames]
    by_cases hb : name = "_"
    · rw [placesFrom, if_pos hb]
      simp only [hb, ne_eq, not_true, if_false]
      exact ih hr hs hd (index + 1)
    · rw [placesFrom, if_neg hb]
      simp only [hb, ne_eq, not_false_iff, if_true]
      refine After.bind (valueType_reads hr hs hd index) ?_ fun _ h => ⟨[], reg, .nil reg, h⟩
      rintro type mid ⟨he, hv⟩
      let v : Variable := { name, type, doc }
      have hr' := (he.sound hr).modifyPackage (listValue_refs kind v) (q := scope.package)
      have hrefs := (ValuesRead.cons he (.nil (listValue mid scope.package kind v))).refs
      have hkeep : TypeGraph.Keeps 0 reg.graph (listValue mid scope.package kind v).graph :=
        he.keeps_all
      have hd' : match source.type with
          | some type => ∃ r, declared = some r ∧ Denotes mid.graph 0
              (scope.meaning (listValue mid scope.package kind v)) type r
          | none => declared = none := by
        split at hd
        next type =>
          obtain ⟨r, hdecl, hd⟩ := hd
          exact ⟨r, hdecl, hd.mono hkeep le_rfl (scope.meaning_refines hrefs)⟩
        next => exact hd
      refine After.mono (ih hr' ((hs.extended he).modifyPackage _ _) hd' (index + 1)) ?_ ?_
      · rintro _ reg' ⟨vs, hvs, hplaces⟩
        refine ⟨v :: vs, .cons he hvs, .cons ?_ hplaces⟩
        refine PlaceDenotes.mono hvs.keeps (scope.meaning_refines fun q n r hq => ?_) ⟨rfl, hv⟩
        exact hvs.refs q n r ((Registry.ref?_modifyPackage (listValue_refs kind v) q n).trans hq)
      · rintro reg' ⟨vs, mid', hvs, hx⟩
        exact ⟨v :: vs, mid', .cons he hvs, hx⟩

theorem declareValueSpec_reads (hr : reg.Sound) (hs : scope.Sound reg) (kind : GroupKind)
    (groupDoc : Option Doc) (spec source : ValueSpec) :
    After (declareValueSpec scope kind groupDoc spec source) reg
      (fun _ reg' => ∃ mid vs, Extends scope.package reg.Unmade reg mid ∧
        ValuesRead scope.package kind mid vs reg' ∧
        List.Forall₂ (PlaceDenotes reg'.graph (scope.meaning reg'))
          (placesFrom source 0 spec.names) vs)
      (fun reg' => ∃ mid, Extends scope.package reg.Unmade reg mid ∧
        ValuesBroken scope.package kind mid reg') := by
  unfold declareValueSpec
  have hdecl : Reads scope reg.Unmade reg (source.type.mapM (resolveType scope))
      fun declared mid => match source.type with
        | some type => ∃ r, declared = some r ∧ Denotes mid.graph 0 (scope.meaning mid) type r
        | none => declared = none := by
    cases source.type with
    | none => exact reads_pure rfl
    | some type =>
      refine Reads.bind hr hs (resolveType_reads hr hs type) ?_
      rintro r mid _ _ _ ⟨_, hd⟩
      exact reads_pure ⟨r, rfl, hd.mono (.refl _ _) (Nat.zero_le _) (.refl _)⟩
  refine After.bind hdecl ?_ fun reg' h => ⟨reg', h, [], reg', .nil reg', .refl ..⟩
  rintro declared mid ⟨he, hd⟩
  refine After.mono (declareNames_reads (he.sound hr) (hs.extended he) kind _ hd 0 spec.names) ?_ ?_
  · rintro _ reg' ⟨vs, hvs, hplaces⟩
    exact ⟨mid, vs, he, hvs, hplaces⟩
  · intro reg' h
    exact ⟨mid, he, h⟩

def ReceiverDenotes (g : TypeGraph) (lo : Nat) (m : Meaning) :
    Option Field → Option Argument → Prop
  | none, o => o = none
  | some field, o => ∃ r, o = some ⟨field.names.headD "", r⟩ ∧ Denotes g lo m (field.type ()) r

structure FuncRead (scope : FileScope) (decl : FuncDecl) (reg mid : Registry)
    (params : List (String × RefId)) (ty : TypeId) (t : MethodType) : Prop where
  read : Extends scope.package reg.Unmade reg mid
  names : params.map Prod.fst = typeParamNames decl
  made : TypeParamsMade mid params
  named : ∃ data, mid.graph.typeAt? ty = some data ∧ data.name = decl.name
  receiver : ReceiverDenotes mid.graph reg.graph.typeCount
    (FileScope.meaning { scope with typeParams := params } mid) decl.receiver t.receiver
  owner : ∀ a, t.receiver = some a → mid.graph.HasRef a.type
  signature : SignatureDenotes mid.graph reg.graph.typeCount
    (FileScope.meaning { scope with typeParams := params } mid) t.receiver decl.params
    decl.results ty t

def attach (pkg : PackageId) (name : String) (ty : TypeId) (receiver : Option Argument)
    (reg : Registry) : Registry :=
  match receiver with
  | some owner => reg.withGraph fun g => (g.addMethod owner.type ty).2
  | none => reg.modifyPackage pkg (·.declareFunction name ty)

theorem resolveReceiver_reads (hr : reg.Sound) (hs : scope.Sound reg) (field : Field) :
    Reads scope reg.Unmade reg (resolveReceiver scope field) fun a mid =>
      a.name = field.names.headD "" ∧ mid.graph.HasRef a.type ∧
        Denotes mid.graph reg.graph.typeCount (scope.meaning mid) (field.type ()) a.type := by
  refine Reads.bind hr hs (resolveType_reads hr hs (field.type ())) ?_
  intro r mid _ _ _ h
  exact reads_pure ⟨rfl, h⟩

theorem receiver_reads (hr : reg.Sound) (hs : scope.Sound reg) (field : Option Field) :
    Reads scope reg.Unmade reg (field.mapM (resolveReceiver scope)) fun receiver mid =>
      (∀ a, receiver = some a → mid.graph.HasRef a.type) ∧
        ReceiverDenotes mid.graph reg.graph.typeCount (scope.meaning mid) field receiver := by
  cases field with
  | none => exact reads_pure ⟨fun _ h => (by cases h), rfl⟩
  | some field =>
    refine Reads.bind hr hs (resolveReceiver_reads hr hs field) ?_
    rintro a mid _ _ _ ⟨hn, href, hd⟩
    obtain ⟨name, r⟩ := a
    obtain rfl : name = _ := hn
    exact reads_pure ⟨fun _ h => Option.some.inj h ▸ href, r, rfl, hd⟩

theorem ReceiverDenotes.mono {g g' : TypeGraph} {lo lo' : Nat} {m m' : Meaning}
    (hk : TypeGraph.Keeps lo g g') (hl : lo' ≤ lo) (hm : m.Refines m') {field receiver}
    (h : ReceiverDenotes g lo m field receiver) : ReceiverDenotes g' lo' m' field receiver := by
  cases field with
  | none => exact h
  | some field =>
    obtain ⟨r, ho, hd⟩ := h
    exact ⟨r, ho, hd.mono hk hl hm⟩

def funcBody (scope : FileScope) (decl : FuncDecl) : Analysis Unit := do
  let receiver ← decl.receiver.mapM (resolveReceiver scope)
  let method ← resolveMethod scope decl.name (decl.doc.getD []) receiver decl.params decl.results
  match receiver with
  | some owner => modify (·.withGraph fun g => (g.addMethod owner.type method).2)
  | none => modify (·.modifyPackage scope.package (·.declareFunction decl.name method))

theorem declareFunc_eq_body (scope : FileScope) (decl : FuncDecl) : declareFunc scope decl =
    (scope.withTypeParams (typeParamNames decl) >>= fun inner => funcBody inner decl) := rfl

theorem funcBody_reads {mid₁ : Registry} (he₁ : Extends scope.package reg.Unmade reg mid₁)
    (hr₁ : mid₁.Sound) {params : List (String × RefId)} {decl : FuncDecl}
    (hs₁ : FileScope.Sound { scope with typeParams := params } mid₁)
    (hnames : params.map Prod.fst = typeParamNames decl) (hmade : TypeParamsMade mid₁ params) :
    After (funcBody { scope with typeParams := params } decl) mid₁
      (fun _ reg' => ∃ mid ty t, Extends scope.package mid₁.Unmade mid₁ mid ∧
        FuncRead scope decl reg mid params ty t ∧
        reg' = attach scope.package decl.name ty t.receiver mid)
      (Extends scope.package mid₁.Unmade mid₁) := by
  refine After.bind (receiver_reads hr₁ hs₁ decl.receiver) ?_ fun _ h => h
  rintro receiver mid₂ ⟨he₂, howner, hrecv⟩
  have hr₂ := he₂.sound hr₁
  have hx₂ := he₁.then_new he₂ fun _ hn => hn
  refine After.bind (resolveMethod_reads hr₂ (hs₁.extended he₂) decl.name (decl.doc.getD [])
    receiver decl.params decl.results) ?_ fun _ h => he₂.then_new h fun _ hn => hn
  rintro ty mid ⟨he, data, t, hty, hname, hsig⟩
  have hle := Nat.le_trans he₁.typeCount he₂.typeCount
  have hread : FuncRead scope decl reg mid params ty t := by
    refine ⟨hx₂.then_new he fun _ hn => hn, hnames, (hmade.extended he₂).extended he,
      ⟨data, hty, hname⟩, ?_, ?_, ?_⟩
    · rw [hsig.receiver]
      exact hrecv.mono he.keeps_all he₁.typeCount (FileScope.meaning_refines _ he.refs)
    · intro a ha
      exact he.hasRef (howner a (hsig.receiver.symm.trans ha))
    · rw [hsig.receiver]
      exact hsig.mono (.refl _ _) hle (.refl _)
  have hx := he₂.then_new he fun _ hn => hn
  cases receiver with
  | some owner => exact ⟨mid, ty, t, hx, hread, by rw [hsig.receiver]; rfl⟩
  | none => exact ⟨mid, ty, t, hx, hread, by rw [hsig.receiver]; rfl⟩

theorem declareFunc_reads (hr : reg.Sound) (hs : scope.Sound reg) (decl : FuncDecl) :
    After (declareFunc scope decl) reg
      (fun _ reg' => ∃ mid params ty t, FuncRead scope decl reg mid params ty t ∧
        reg' = attach scope.package decl.name ty t.receiver mid)
      (Extends scope.package reg.Unmade reg) := by
  refine After.bind (withTypeParams_total hr hs _) ?_ fun _ h => h.elim
  rintro inner mid₁ ⟨he₁, hs₁, params, rfl, hnames, hmade⟩
  refine (funcBody_reads he₁ (he₁.sound hr) hs₁ hnames hmade).mono ?_ fun _ h =>
    he₁.then_new h fun _ hn => hn
  rintro _ reg' ⟨mid, ty, t, -, hread, heq⟩
  exact ⟨mid, params, ty, t, hread, heq⟩

end

end GoPackages
