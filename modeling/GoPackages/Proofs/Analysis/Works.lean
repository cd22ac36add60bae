import GoPackages.Proofs.Registry.Edits

/-!
# Analysis works by edits

Every function of the analysis moves the registry by edits on what exists, whether it
succeeds or not. What it returns exists in the registry that it leaves behind.
-/
namespace GoPackages

open Source (TypeExpr Field Expr InterfaceElem TypeSpec ValueSpec FuncDecl GroupKind)
open Registry (Edit Edits Retains WellFormed)

theorem FileScope.Sound.retained {scope : FileScope} {reg reg' : Registry} (hs : scope.Sound reg)
    (h : Retains reg reg') : scope.Sound reg' where
  package := h.packages _ hs.package
  aliases qualifier q hq := h.packages q (hs.aliases qualifier q hq)
  typeParams n r hr := h.refs r (hs.typeParams n r hr)

/-- What a step of analysis does: it makes edits, and its answer is good. -/
def Works {α : Type} (reg : Registry) (m : Analysis α) (good : α → Registry → Prop) : Prop :=
  After m reg (fun a reg' => Edits reg reg' ∧ good a reg') (Edits reg)

section Rules

variable {α β : Type} {reg : Registry} {m : Analysis α} {good : α → Registry → Prop}

theorem Works.bind {k : α → Analysis β} {good' : β → Registry → Prop} (hr : reg.WellFormed)
    (h : Works reg m good)
    (hk : ∀ a mid, Retains reg mid → mid.WellFormed → good a mid → Works mid (k a) good') :
    Works reg (m >>= k) good' := by
  refine After.bind h (fun a mid ⟨he, ha⟩ => ?_) fun _ he => he
  obtain ⟨hkeep, hmid⟩ := he.wellFormed hr
  exact After.mono (hk a mid hkeep hmid ha) (fun b reg' ⟨he', hb⟩ => ⟨he.trans he', hb⟩)
    fun _ he' => he.trans he'

theorem works_pure {a : α} (ha : good a reg) : Works reg (pure a) good := ⟨.refl, ha⟩

theorem works_throw (e : Error) : Works reg (throw e) good := .refl

theorem Works.after_get {k : Registry → Analysis α} (hk : Works reg (k reg) good) :
    Works reg (get >>= k) good := hk

theorem works_ofGraph {f : TypeGraph → α × TypeGraph} (he : Edit reg (reg.onGraph f).2)
    (ha : good (reg.onGraph f).1 (reg.onGraph f).2) : Works reg (Analysis.ofGraph f) good :=
  ⟨.single he, ha⟩

theorem works_modify {f : Registry → Registry} (he : Edits reg (f reg)) :
    Works reg (modify f) fun _ _ => True := ⟨he, trivial⟩

end Rules

section Types

variable {scope : FileScope} {reg : Registry}

theorem works_ensureRef (hr : reg.WellFormed) {q : PackageId} (hq : reg.Registered q)
    (name : String) : Works reg (Analysis.ofRegistry (·.ensureRef q name)) fun found reg' =>
      reg'.graph.HasRef found.1 := by
  exact ⟨.single (.ensureRef hq name),
    Registry.hasRef_ensureRef (fun _ _ _ h => hr.hasRef_of_ref? h) q name⟩

theorem resolveName_works (hr : reg.WellFormed) (hs : scope.Sound reg) (name : String) :
    Works reg (scope.resolveName name) fun r reg' => reg'.graph.HasRef r := by
  unfold FileScope.resolveName
  split
  · exact works_throw _
  · refine Works.after_get ?_
    split
    next r hk =>
      exact works_pure (FileScope.known?_hasRef (fun _ _ _ h => hr.hasRef_of_ref? h) hs hk)
    next =>
      refine Works.bind hr (works_ensureRef hr hs.package name) ?_
      exact fun _ _ _ _ href => works_pure href

theorem resolveQualified_works (hr : reg.WellFormed) (hs : scope.Sound reg) (base : Expr)
    (name : String) :
    Works reg (scope.resolveQualified base name) fun r reg' => reg'.graph.HasRef r := by
  unfold FileScope.resolveQualified
  split
  next qualifier =>
    split
    next q hq =>
      refine Works.bind hr (works_ensureRef hr (hs.aliases qualifier q hq) name) ?_
      exact fun _ _ _ _ href => works_pure href
    next => exact works_throw _
  next => exact works_throw _

theorem works_opened (hr : reg.WellFormed) {q : PackageId} (hq : reg.Registered q)
    {data : TypeData} (hd : reg.TypeFits data) (hl : data.kind.interfaces = []) (name : String)
    {α : Type} {k : TypeId → RefId → Analysis α} {good : α → Registry → Prop}
    (hk : ∀ ty r mid, Retains reg mid → mid.WellFormed → mid.graph.HasRef r →
      mid.graph.form? ty = some data.kind.form →
      (mid.graph.typeAt? ty).map TypeData.name = some data.name → Works mid (k ty r) good) :
    Works reg (do
      let ty ← Analysis.ofGraph (·.addType data)
      let r ← Analysis.ofGraph (·.fresh (some q) name ty)
      k ty r) good := by
  have htype := TypeGraph.typeAt?_addType_self reg.graph data
  have hmake : Works reg (Analysis.ofGraph (·.addType data)) fun ty mid =>
      mid.graph.typeAt? ty = some data := works_ofGraph (.addType hd hl) htype
  refine Works.bind hr hmake fun ty mid hkeep hmid hty => ?_
  have hhas := TypeGraph.hasType_of_typeAt? hty
  have hfresh : Works mid (Analysis.ofGraph (·.fresh (some q) name ty)) fun r mid' =>
      mid'.graph.HasRef r ∧ mid'.graph.typeAt? ty = some data :=
    works_ofGraph (.fresh (hkeep.packages q hq) hhas name) ⟨hasRef_addRef mid.graph _, hty⟩
  refine Works.bind hmid hfresh fun r mid' hkeep' hmid' ⟨href, hty'⟩ => ?_
  refine hk ty r mid' (hkeep.trans hkeep') hmid' href ?_ ?_
  · exact Option.map_eq_some_iff.mpr ⟨data, hty', rfl⟩
  · exact Option.map_eq_some_iff.mpr ⟨data, hty', rfl⟩

theorem decorate_works (hr : reg.WellFormed) {m : Analysis RefId} (d : Decorator)
    (h : Works reg m fun r reg' => reg'.graph.HasRef r) :
    Works reg (do let inner ← m; Analysis.ofGraph (·.decorate d inner))
      fun r reg' => reg'.graph.HasRef r := by
  refine Works.bind hr h fun inner mid _ _ hinner => ?_
  exact works_ofGraph (.decorate hinner d) (hasRef_addRef mid.graph _)

theorem mapOf_works (hr : reg.WellFormed) {q : PackageId} (hq : reg.Registered q)
    {key value : RefId} (hkey : reg.graph.HasRef key) (hvalue : reg.graph.HasRef value) :
    Works reg (Analysis.ofGraph (·.mapOf (some q) key value))
      fun r reg' => reg'.graph.HasRef r := by
  let data : TypeData :=
    { name := "map[" ++ reg.graph.refName key ++ "]" ++ reg.graph.refName value
      package := some q, kind := .map ⟨key, value⟩ }
  have hfits : reg.TypeFits data :=
    ⟨fun p hp => Option.some.inj hp ▸ hq, ⟨hkey, hvalue⟩, fun _ h => (by cases h)⟩
  let mid : Registry := (reg.onGraph (·.addType data)).2
  have hmade : mid.graph.typeAt? reg.nextType = some data :=
    TypeGraph.typeAt?_addType_self reg.graph data
  have hadd : Edit reg mid := .addType hfits rfl
  have hnamed : Edit mid (mid.onGraph (·.fresh (some q) data.name reg.nextType)).2 :=
    .fresh ((hadd.wellFormed hr).1.packages q hq) (TypeGraph.hasType_of_typeAt? hmade) data.name
  exact ⟨.tail (.single hadd) hnamed, hasRef_addRef mid.graph _⟩

theorem ofNames_hasRef {g : TypeGraph} {r : RefId} (hr : g.HasRef r) (names : List String) :
    ∀ a ∈ Argument.ofNames names r, g.HasRef a.type := by
  unfold Argument.ofNames
  split
  · exact fun a ha => List.mem_singleton.mp ha ▸ hr
  · intro a ha
    obtain ⟨name, -, rfl⟩ := List.mem_map.mp ha
    exact hr

theorem fieldsOfNames_hasRef {g : TypeGraph} {r : RefId} (hr : g.HasRef r) (names : List String)
    (typeName : String) (tag : Tag) (doc : Doc) :
    ∀ f ∈ StructField.ofNames names typeName r tag doc, g.HasRef f.type := by
  unfold StructField.ofNames
  split
  · exact fun f hf => List.mem_singleton.mp hf ▸ hr
  · intro f hf
    obtain ⟨name, -, rfl⟩ := List.mem_map.mp hf
    exact hr

theorem readTag_works (scope : FileScope) (reg : Registry) (tag : Option String) :
    Works reg (scope.readTag tag) fun _ _ => True := by
  unfold FileScope.readTag
  split
  · exact works_pure trivial
  · dsimp only
    split
    · exact works_pure trivial
    · exact works_throw _

end Types

mutual

theorem resolveType_works {scope : FileScope} {reg : Registry} (hr : reg.WellFormed)
    (hs : scope.Sound reg) (type : TypeExpr) :
    Works reg (resolveType scope type) fun r reg' => reg'.graph.HasRef r := by
  cases type with
  | named name args => exact resolveName_works hr hs name
  | selector base name args => exact resolveQualified_works hr hs (base ()) name
  | pointer elem | array _ elem | slice elem | chan _ elem | ellipsis elem =>
    exact decorate_works hr _ (resolveType_works hr hs (elem ()))
  | map key value =>
    refine Works.bind hr (resolveType_works hr hs (key ())) fun k mid hkeep hmid hk => ?_
    have hs₁ := hs.retained hkeep
    refine Works.bind hmid (resolveType_works hmid hs₁ (value ())) fun v mid' hkeep' hmid' hv => ?_
    exact mapOf_works hmid' (hs₁.retained hkeep').package (hkeep'.refs k hk) hv
  | func params results =>
    refine Works.bind hr (resolveArguments_works hr hs params) fun as mid hkeep hmid ha => ?_
    have hs₁ := hs.retained hkeep
    refine Works.bind hmid (resolveArguments_works hmid hs₁ results)
      fun rs mid' hkeep' hmid' hrs => ?_
    have hq := (hs₁.retained hkeep').package
    refine works_opened hmid' hq ⟨?_, ?_, fun _ h => (by cases h)⟩ rfl "" (k := fun _ r => pure r)
      fun _ _ _ _ _ href _ _ => works_pure href
    · exact fun p hp => Option.some.inj hp ▸ hq
    · exact ⟨fun _ h => (by cases h), fun a hmem => hkeep'.refs _ (ha a hmem), hrs⟩
  | interface elems => exact works_pure hr.emptyInterface
  | struct fields =>
    refine works_opened hr hs.package ⟨?_, ?_, fun _ h => (by cases h)⟩ rfl anonymousStructName
      fun ty r mid hkeep hmid href _ _ => ?_
    · exact fun p hp => Option.some.inj hp ▸ hs.package
    · exact ⟨fun _ h => (by cases h), fun _ h => (by cases h)⟩
    · refine Works.bind hmid (resolveFields_works hmid (hs.retained hkeep) ty fields) ?_
      exact fun _ _ hkeep' _ _ => works_pure (hkeep'.refs r href)
  | paren inner => exact resolveType_works hr hs (inner ())
  | bad => exact works_throw _
termination_by structural type

theorem resolveArguments_works {scope : FileScope} {reg : Registry} (hr : reg.WellFormed)
    (hs : scope.Sound reg) (fields : List Field) :
    Works reg (resolveArguments scope fields) fun as reg' =>
      ∀ a ∈ as, reg'.graph.HasRef a.type := by
  match fields with
  | [] => exact works_pure fun _ h => by cases h
  | ⟨names, type, _, _⟩ :: rest =>
    refine Works.bind hr (resolveType_works hr hs (type ())) fun r mid hkeep hmid href => ?_
    refine Works.bind hmid (resolveArguments_works hmid (hs.retained hkeep) rest) ?_
    intro others mid' hkeep' _ hothers
    refine works_pure fun a hmem => ?_
    rcases List.mem_append.mp hmem with hmem | hmem
    · exact hkeep'.refs _ (ofNames_hasRef href names a hmem)
    · exact hothers a hmem
termination_by structural fields

theorem resolveFields_works {scope : FileScope} {reg : Registry} (hr : reg.WellFormed)
    (hs : scope.Sound reg) (ty : TypeId) (fields : List Field) :
    Works reg (resolveFields scope ty fields) fun _ _ => True := by
  match fields with
  | [] => exact works_pure trivial
  | ⟨names, type, tag, doc⟩ :: rest =>
    refine Works.bind hr (resolveType_works hr hs (type ())) fun r mid hkeep hmid href => ?_
    refine Works.bind hmid (readTag_works scope mid tag) fun tag' mid' hkeep' hmid' _ => ?_
    have hown := fieldsOfNames_hasRef (hkeep'.refs r href) names (mid'.graph.refName r) tag'
      (doc.getD [])
    refine Works.bind hmid' (works_modify (.single (.addFields hown ty))) ?_
    intro _ mid'' hkeep'' hmid'' _
    exact resolveFields_works hmid'' ((hs.retained (hkeep.trans hkeep')).retained hkeep'') ty rest
termination_by structural fields

end

section Declarations

variable {scope : FileScope} {reg : Registry}

theorem newTypeParams_works (hr : reg.WellFormed) (hs : scope.Sound reg) (names : List String) :
    Works reg (scope.newTypeParams names) fun params reg' =>
      ∀ n r, (n, r) ∈ params → reg'.graph.HasRef r := by
  induction names generalizing reg with
  | nil => exact works_pure fun _ _ h => by cases h
  | cons name names ih =>
    have hfits : reg.TypeFits { name, package := some scope.package, kind := .base } :=
      ⟨fun p hp => Option.some.inj hp ▸ hs.package, trivial, fun _ h => (by cases h)⟩
    refine works_opened hr hs.package hfits rfl name fun ty r mid hkeep hmid href _ _ => ?_
    refine Works.bind hmid (ih hmid (hs.retained hkeep)) fun params mid' hkeep' _ hparams => ?_
    refine works_pure fun n s hmem => ?_
    rcases List.mem_cons.mp hmem with heq | hmem
    · obtain ⟨rfl, rfl⟩ := Prod.mk.inj heq
      exact hkeep'.refs s href
    · exact hparams n s hmem

theorem withTypeParams_works (hr : reg.WellFormed) (hs : scope.Sound reg) (names : List String) :
    Works reg (scope.withTypeParams names) fun inner reg' =>
      inner.Sound reg' ∧ inner.package = scope.package := by
  refine Works.bind hr (newTypeParams_works hr hs names) fun params mid hkeep _ hparams => ?_
  have hs' := hs.retained hkeep
  refine works_pure ⟨⟨hs'.package, hs'.aliases, fun n r hl => ?_⟩, rfl⟩
  obtain ⟨front, back, heq, -⟩ := List.lookup_eq_some_iff.mp hl
  have hmem : params = front ++ (n, r) :: back := heq
  exact hparams n r (hmem ▸ List.mem_append_right front List.mem_cons_self)

theorem resolveMethod_works (hr : reg.WellFormed) (hs : scope.Sound reg) (name : String)
    (doc : Doc) {receiver : Option Argument}
    (hrecv : ∀ a, receiver = some a → reg.graph.HasRef a.type) (params results : List Field) :
    Works reg (resolveMethod scope name doc receiver params results) fun ty reg' =>
      reg'.graph.form? ty = some .method ∧
        (reg'.graph.typeAt? ty).map TypeData.name = some name := by
  refine Works.bind hr (resolveArguments_works hr hs params) fun as mid hkeep hmid ha => ?_
  have hs₁ := hs.retained hkeep
  refine Works.bind hmid (resolveArguments_works hmid hs₁ results)
    fun rs mid' hkeep' hmid' hrs => ?_
  have hq := (hs₁.retained hkeep').package
  refine works_ofGraph (.addType ⟨?_, ⟨?_, ?_, hrs⟩, fun _ h => (by cases h)⟩ rfl) ⟨?_, ?_⟩
  · exact fun p hp => Option.some.inj hp ▸ hq
  · exact fun a h => hkeep'.refs _ (hkeep.refs _ (hrecv a h))
  · exact fun a h => hkeep'.refs _ (ha a h)
  · exact Option.map_eq_some_iff.mpr ⟨_, TypeGraph.typeAt?_addType_self _ _, rfl⟩
  · exact Option.map_eq_some_iff.mpr ⟨_, TypeGraph.typeAt?_addType_self _ _, rfl⟩

theorem declareElems_works (hr : reg.WellFormed) (hs : scope.Sound reg) (ty : TypeId)
    (elems : List InterfaceElem) : Works reg (declareElems scope ty elems) fun _ _ => True := by
  induction elems generalizing reg with
  | nil => exact works_pure trivial
  | cons elem rest ih =>
    cases elem with
    | embedded | union => exact works_throw _
    | method name params results =>
      refine Works.bind hr (resolveMethod_works hr hs name [] (fun _ h => (by cases h)) params
        results) fun method mid hkeep hmid ⟨hform, hname⟩ => ?_
      refine Works.bind hmid (works_modify (.single (.addInterfaceMethod hform hname ty))) ?_
      exact fun _ mid' hkeep' hmid' _ => ih hmid' ((hs.retained hkeep).retained hkeep')

/-- A declaration of a type in four edits. -/
theorem declare_edits (hr : reg.WellFormed) {q : PackageId} (hq : reg.Registered q)
    (kind : TypeKind) (hk : reg.graph.KindFits kind) (hl : kind.interfaces = []) (name : String) :
    Edits reg (reg.declare q name kind).2 := by
  have hmake : Edit reg (reg.onGraph (·.addType { name, package := some q, kind })).2 :=
    .addType ⟨fun p hp => Option.some.inj hp ▸ hq, hk, fun _ h => (by cases h)⟩ hl
  obtain ⟨hkeep₁, hr₁⟩ := hmake.wellFormed hr
  have hensure := works_ensureRef hr₁ (hkeep₁.packages q hq) name
  obtain ⟨hkeep₂, hr₂⟩ := hensure.1.wellFormed hr₁
  have hty : (reg.introduce q name kind).2.graph.form? reg.nextType = some kind.form :=
    Option.map_eq_some_iff.mpr ⟨_, Registry.introduce_typeAt? reg q name kind, rfl⟩
  have hbind : Edit (reg.introduce q name kind).2 _ :=
    .bind hensure.2 (Registry.hasType_of_form? hty)
  obtain ⟨hkeep₃, -⟩ := hbind.wellFormed hr₂
  rw [Registry.declare_eq]
  refine Relation.ReflTransGen.tail (Relation.ReflTransGen.tail
    (Relation.ReflTransGen.head hmake hensure.1) hbind) ?_
  exact .listType (hkeep₃.form? hty) q name

theorem declareKind_works (hr : reg.WellFormed) (hs : scope.Sound reg) (name : String)
    {kind : TypeKind} (hk : reg.graph.KindFits kind) (hl : kind.interfaces = []) :
    Works reg (declareKind scope name kind) fun _ _ => True :=
  ⟨declare_edits hr hs.package _ hk hl name, trivial⟩

theorem declareAlias_works (hr : reg.WellFormed) (hs : scope.Sound reg) (name : String)
    (type : TypeExpr) : Works reg (declareAlias scope name type) fun _ _ => True := by
  refine Works.bind hr (resolveType_works hr hs type) fun target mid _ hmid htarget => ?_
  refine Works.after_get ?_
  split
  next => exact ⟨.single (.register htarget _ name), trivial⟩
  next existing _ =>
    split
    next => exact works_throw _
    next graph hg =>
      have halias : Edit mid { mid with graph } := .aliasTo htarget hg
      have htarget' := (halias.wellFormed hmid).1.refs target htarget
      exact ⟨.tail (.single halias) (.register htarget' _ name), trivial⟩

theorem declareTypeSpec_works (hr : reg.WellFormed) (hs : scope.Sound reg) (doc : Option Doc)
    (spec : TypeSpec) : Works reg (declareTypeSpec scope doc spec) fun _ _ => True := by
  refine Works.bind hr (withTypeParams_works hr hs _) fun inner mid _ hmid ⟨hs', _⟩ => ?_
  split
  · exact declareAlias_works hmid hs' spec.name spec.type
  · split
    next fields _ =>
      refine Works.bind hmid (declareKind_works hmid hs' spec.name ?_ rfl) ?_
      · exact ⟨fun _ h => (by cases h), fun _ h => (by cases h)⟩
      · exact fun ty mid' hkeep hmid' _ => resolveFields_works hmid' (hs'.retained hkeep) ty fields
    next elems _ =>
      refine Works.bind hmid (declareKind_works hmid hs' spec.name ?_ rfl) ?_
      · exact fun _ _ h => by cases h
      · exact fun ty mid' hkeep hmid' _ => declareElems_works hmid' (hs'.retained hkeep) ty elems
    next =>
      exact ⟨declare_edits hmid hs'.package .base trivial rfl spec.name, trivial⟩

theorem inferType_works {scope : FileScope} {reg : Registry} (hr : reg.WellFormed)
    (hs : scope.Sound reg) (e : Expr) : Works reg (inferType scope e) fun o reg' =>
      ∀ r, o = some r → reg'.graph.HasRef r := by
  have hnone : Works reg (pure none) fun (o : Option RefId) reg' =>
      ∀ r, o = some r → reg'.graph.HasRef r := works_pure fun _ h => by cases h
  have hsome : ∀ {m : Analysis RefId}, (Works reg m fun r reg' => reg'.graph.HasRef r) →
      Works reg (some <$> m) fun o reg' => ∀ r, o = some r → reg'.graph.HasRef r := by
    intro m h
    rw [map_eq_pure_bind]
    refine Works.bind hr h fun r mid _ _ href => works_pure fun s hs => ?_
    exact Option.some.inj hs ▸ href
  cases e with
  | literal kind text =>
    unfold inferType
    rw [← map_eq_pure_bind]
    exact hsome (resolveName_works hr hs kind.typeName)
  | ident name =>
    unfold inferType
    split
    next t ht =>
      rw [← map_eq_pure_bind]
      exact hsome (resolveName_works hr hs t)
    next => exact hnone
  | composite type =>
    cases type with
    | none => exact hnone
    | some type =>
      unfold inferType
      rw [← map_eq_pure_bind]
      exact hsome (resolveType_works hr hs (type ()))
  | unary op operand =>
    unfold inferType
    split
    next =>
      refine Works.bind hr (inferType_works hr hs (operand ())) fun o mid _ hmid ho => ?_
      cases o with
      | none => exact works_pure fun _ h => by cases h
      | some inner =>
        have hpointer : Works mid (Analysis.ofGraph (·.decorate .pointer inner)) fun r reg' =>
            reg'.graph.HasRef r :=
          works_ofGraph (.decorate (ho inner rfl) .pointer) (hasRef_addRef mid.graph _)
        refine Works.bind hmid hpointer ?_
        exact fun r _ _ _ href => works_pure fun s hs => Option.some.inj hs ▸ href
    next =>
      split
      · exact inferType_works hr hs (operand ())
      · exact hnone
  | paren inner => exact inferType_works hr hs (inner ())
  | selector | call | other | bad => exact hnone
termination_by structural e

theorem valueType_works (hr : reg.WellFormed) (hs : scope.Sound reg) {declared : Option RefId}
    (hd : ∀ r, declared = some r → reg.graph.HasRef r) (source : ValueSpec) (index : Nat) :
    Works reg (valueType scope declared source index) fun o reg' =>
      ∀ r, o = some r → reg'.graph.HasRef r := by
  unfold valueType
  split
  next r => exact works_pure hd
  next =>
    split
    next e _ => exact inferType_works hr hs e
    next => exact works_pure fun _ h => by cases h

theorem declareNames_works (hr : reg.WellFormed) (hs : scope.Sound reg) (kind : GroupKind)
    (doc : Doc) {declared : Option RefId} (hd : ∀ r, declared = some r → reg.graph.HasRef r)
    (source : ValueSpec) (index : Nat) (names : List String) :
    Works reg (declareNames scope kind doc declared source index names) fun _ _ => True := by
  induction names generalizing reg index with
  | nil => exact works_pure trivial
  | cons name rest ih =>
    rw [declareNames]
    by_cases hb : name = "_"
    · simp only [hb, ne_eq, not_true, if_false]
      exact ih hr hs hd (index + 1)
    · simp only [hb, ne_eq, not_false_iff, if_true]
      refine Works.bind hr (valueType_works hr hs hd source index) ?_
      intro type mid hkeep hmid htype
      have hlist : Edit mid (listValue mid scope.package kind { name, type, doc }) :=
        .listValue htype _ kind
      refine Works.bind hmid (works_modify (.single hlist)) fun _ mid' hkeep' hmid' _ => ?_
      have hall := hkeep.trans hkeep'
      exact ih hmid' (hs.retained hall) (fun r h => hall.refs r (hd r h)) (index + 1)

theorem mapM_works {α : Type} {m : α → Analysis RefId} (hr : reg.WellFormed) (o : Option α)
    (h : ∀ a, Works reg (m a) fun r reg' => reg'.graph.HasRef r) :
    Works reg (o.mapM m) fun found reg' => ∀ r, found = some r → reg'.graph.HasRef r := by
  cases o with
  | none => exact works_pure fun _ h => by cases h
  | some a =>
    refine Works.bind hr (h a) fun r mid _ _ href => works_pure fun s hs => ?_
    exact Option.some.inj hs ▸ href

theorem declareValueSpec_works (hr : reg.WellFormed) (hs : scope.Sound reg) (kind : GroupKind)
    (doc : Option Doc) (spec source : ValueSpec) :
    Works reg (declareValueSpec scope kind doc spec source) fun _ _ => True := by
  refine Works.bind hr (mapM_works hr source.type fun type => resolveType_works hr hs type) ?_
  intro declared mid hkeep hmid hd
  exact declareNames_works hmid (hs.retained hkeep) kind _ hd source 0 spec.names

theorem receiver_works (hr : reg.WellFormed) (hs : scope.Sound reg) (receiver : Option Field) :
    Works reg (receiver.mapM (resolveReceiver scope)) fun o reg' =>
      ∀ a, o = some a → reg'.graph.HasRef a.type := by
  cases receiver with
  | none => exact works_pure fun _ h => by cases h
  | some field =>
    have hone : Works reg (resolveReceiver scope field) fun a reg' => reg'.graph.HasRef a.type :=
      Works.bind hr (resolveType_works hr hs (field.type ())) fun _ _ _ _ href => works_pure href
    refine Works.bind hr hone fun a mid _ _ href => works_pure fun b hb => ?_
    exact Option.some.inj hb ▸ href

theorem declareFunc_works (hr : reg.WellFormed) (hs : scope.Sound reg) (decl : FuncDecl) :
    Works reg (declareFunc scope decl) fun _ _ => True := by
  refine Works.bind hr (withTypeParams_works hr hs _) fun inner mid _ hmid ⟨hs₁, _⟩ => ?_
  refine Works.bind hmid (receiver_works hmid hs₁ decl.receiver) ?_
  intro receiver mid' hkeep hmid' hrecv
  refine Works.bind hmid' (resolveMethod_works hmid' (hs₁.retained hkeep) decl.name _ hrecv
    decl.params decl.results) fun method mid'' _ hmid'' ⟨hform, _⟩ => ?_
  split
  next owner => exact works_modify (.single (.addMethod hform owner.type))
  next => exact works_modify (.single (.listFunction hform _ decl.name))

end Declarations

end GoPackages
