import GoPackages.Proofs.Analysis.Phases

/-!
# Declarations in progress

A declaration reads type expressions, and names are looked up while it does. The registry at such a
moment is on a course from where the declaration began, and the end of the declaration is on a
course from where the type expression was read.
-/
namespace GoPackages

open Source (TypeExpr Field InterfaceElem TypeSpec ValueSpec FuncDecl GroupKind)

namespace Registry

/-- What an action reads, in which scope, and from which registry on. -/
inductive Action.Begins (reg : Registry) : Action → FileScope → Phase → Registry → Prop where
  | aliased {scope inner : FileScope} {doc : Option Doc} {spec : TypeSpec}
      {opened : Registry} : spec.isAlias = true →
      scope.withTypeParams (Source.declaredNames spec.typeParams) reg = .ok inner opened →
      Begins reg (.typeSpec scope doc spec) inner (.type spec.type) opened
  | struct {scope inner : FileScope} {doc : Option Doc} {spec : TypeSpec}
      {fields : List Field} {opened : Registry} : spec.isAlias = false →
      scope.withTypeParams (Source.declaredNames spec.typeParams) reg = .ok inner opened →
      spec.type = .struct fields →
      Begins reg (.typeSpec scope doc spec) inner (.fields opened.nextType fields)
        (opened.declare scope.package spec.name (kindOf ((spec.doc.or doc).getD []) spec.type)).2
  | interface {scope inner : FileScope} {doc : Option Doc} {spec : TypeSpec}
      {elems : List InterfaceElem} {opened : Registry} : spec.isAlias = false →
      scope.withTypeParams (Source.declaredNames spec.typeParams) reg = .ok inner opened →
      spec.type = .interface elems →
      Begins reg (.typeSpec scope doc spec) inner (.elems opened.nextType elems)
        (opened.declare scope.package spec.name (kindOf ((spec.doc.or doc).getD []) spec.type)).2
  | declaredType {scope : FileScope} {kind : GroupKind} {doc : Option Doc}
      {spec source : ValueSpec} {type : TypeExpr} : source.type = some type →
      Begins reg (.valueSpec scope kind doc spec source) scope (.type type) reg
  | names {scope : FileScope} {kind : GroupKind} {doc : Option Doc} {spec source : ValueSpec} :
      source.type = none →
      Begins reg (.valueSpec scope kind doc spec source) scope
        (.names kind ((spec.doc.or doc).getD []) source 0 spec.names) reg
  | receiver {scope inner : FileScope} {decl : FuncDecl} {field : Field}
      {opened : Registry} : scope.withTypeParams (typeParamNames decl) reg = .ok inner opened →
      decl.receiver = some field →
      Begins reg (.func scope decl) inner (.type (field.type ())) opened
  | signature {scope inner : FileScope} {decl : FuncDecl} {receiver : Option Argument}
      {fields : List Field} {opened later mid : Registry} :
      scope.withTypeParams (typeParamNames decl) reg = .ok inner opened →
      decl.receiver.mapM (resolveReceiver inner) opened = .ok receiver later →
      InSignature inner decl.params decl.results later fields mid →
      Begins reg (.func scope decl) inner (.arguments fields) mid

/-- A type expression that an action reads, in which scope, and the registry at this moment. -/
def Action.Reads (reg : Registry) (action : Action) (scope : FileScope) (type : TypeExpr)
    (mid : Registry) : Prop :=
  ∃ p began, action.Begins reg scope p began ∧ Comes scope p began type mid

/-- Two courses of an action, up to a registry in the midst of it and on from a later one. -/
def Around (reg : Registry) (action : Action) (mid mid' : Registry) : Prop :=
  ∃ front back, Course reg front mid ∧ Course mid' back (reg.next action) ∧
    ((front ++ back).map Naming.key).Sublist action.declares

section Around

variable {reg mid : Registry} {scope inner : FileScope}

theorem around_of_adds {action : Action} {mid' : Registry} (h : Adds reg mid)
    (h' : Adds mid' (reg.next action)) : reg.Around action mid mid' :=
  ⟨[], [], (Course.refl reg).adds h, (Course.refl mid').adds h', List.nil_sublist _⟩

theorem adding_attach {last : Registry} {receiver : Option Argument}
    (howner : ∀ a, receiver = some a → last.graph.HasRef a.type) (q : PackageId) (data : TypeData) :
    Adding (do
      let method ← Analysis.ofGraph (·.addType data)
      match receiver with
      | some owner => modify (·.withGraph fun g => (g.addMethod owner.type method).2)
      | none => modify (·.modifyPackage q (·.declareFunction data.name method))) last := by
  have hadd : Extends q last.Unmade last (last.onGraph (·.addType data)).2 :=
    Registry.extends_addType last data
  cases receiver with
  | some owner =>
    exact Adds.trans (.of_extends hadd)
      (.of_method (hadd.hasRef (howner owner rfl)) (hasType_addType last.graph data))
  | none => exact Adds.trans (.of_extends hadd) (.of_listing q fun _ => ⟨rfl, rfl, rfl, rfl⟩)

theorem signature_attached {decl : FuncDecl} {receiver : Option Argument}
    {fields : List Field} (h : InSignature inner decl.params decl.results reg fields mid)
    (hr : reg.Sound) (hs : inner.Sound reg)
    (howner : ∀ a, receiver = some a → reg.graph.HasRef a.type) :
    Adds reg mid ∧ Adds (stateAfter (resolveArguments inner fields) mid)
      (stateAfter (do
        let method ← resolveMethod inner decl.name (decl.doc.getD []) receiver decl.params
          decl.results
        match receiver with
        | some owner => modify (·.withGraph fun g => (g.addMethod owner.type method).2)
        | none =>
          modify (·.modifyPackage inner.package (·.declareFunction decl.name method))) reg) := by
  let data (arguments results : List Argument) : TypeData :=
    { name := decl.name, package := some inner.package
      kind := .method { doc := decl.doc.getD [], receiver, arguments, results } }
  simp only [resolveMethod, bind_assoc]
  exact h.adds hr hs fun as rs last he =>
    adding_attach (fun a ha => he.hasRef (howner a ha)) inner.package (data as rs)

theorem around_aliased (hr : reg.Sound) (hs : scope.Sound reg) (doc : Option Doc)
    {spec : TypeSpec} (ha : spec.isAlias = true)
    (hopen : scope.withTypeParams (Source.declaredNames spec.typeParams) reg = .ok inner mid) :
    inner.Sound mid ∧ reg.Around (.typeSpec scope doc spec) mid
      (stateAfter (resolveType inner spec.type) mid) := by
  obtain ⟨hx, hsi, params, rfl, -⟩ := (withTypeParams_total hr hs _).of_ok hopen
  refine ⟨hsi, ?_⟩
  have hopened := (Course.refl reg).adds (.of_extends hx)
  have hreads := resolveType_reads (hx.sound hr) hsi spec.type
  cases hread : resolveType { scope with typeParams := params } spec.type mid with
  | error e last =>
    have hnext : reg.next (.typeSpec scope doc spec) = last :=
      stateAfter_of_error (declareTypeSpec_eq_error doc ha hopen hread)
    rw [stateAfter_of_error hread]
    exact ⟨[], [], hopened, hnext ▸ .refl last, List.nil_sublist _⟩
  | ok target last =>
    obtain ⟨hx', htarget, -⟩ := hreads.of_ok hread
    have hrun : declareTypeSpec scope doc spec reg =
        declareAlias { scope with typeParams := params } spec.name spec.type mid := by
      unfold declareTypeSpec
      simp only [ha, if_true]
      exact bind_eq_of_ok hopen
    rw [declareAlias_of_read hread] at hrun
    rw [stateAfter_of_ok hread]
    cases hren : last.rename? scope.package spec.name target with
    | none =>
      simp only [hren] at hrun
      have hnext : reg.next (.typeSpec scope doc spec) = last := stateAfter_of_error hrun
      exact ⟨[], [], hopened, hnext ▸ .refl last, List.nil_sublist _⟩
    | some reg' =>
      simp only [hren] at hrun
      have hnext : reg.next (.typeSpec scope doc spec) = reg' := stateAfter_of_ok hrun
      have hrenamed := (Course.refl last).rename (hx'.package? hsi.package) htarget hren
      exact ⟨[], _, hopened, hnext ▸ hrenamed, .refl _⟩

theorem around_defined (hr : reg.Sound) (hs : scope.Sound reg) {doc : Option Doc}
    {spec : TypeSpec} (ha : spec.isAlias = false) {opened declared : Registry}
    (hopen : scope.withTypeParams (Source.declaredNames spec.typeParams) reg = .ok inner opened)
    (hd : (opened.declare scope.package spec.name
      (kindOf ((spec.doc.or doc).getD []) spec.type)).2 = declared) :
    inner.Sound declared ∧ declared.graph.HasType opened.nextType ∧
      reg.Around (.typeSpec scope doc spec) declared
        (stateAfter (fill inner opened.nextType spec.type) declared) := by
  obtain ⟨hx, hsi, params, rfl, -⟩ := (withTypeParams_total hr hs _).of_ok hopen
  have hpkg : FileScope.package { scope with typeParams := params } = scope.package := rfl
  have hrun := declareTypeSpec_eq_filled doc ha hpkg hopen
  rw [hd] at hrun
  have hnext : reg.next (.typeSpec scope doc spec) =
      stateAfter (fill { scope with typeParams := params } opened.nextType spec.type) declared := by
    simp only [next, stateAfter, hrun]
  subst hd
  refine ⟨hsi.declare _ _ _, ?_, ?_⟩
  · exact TypeGraph.hasType_of_typeAt? (declare_typeAt? opened scope.package spec.name _)
  · have hopened := (Course.refl reg).adds (.of_extends hx)
    exact ⟨_, [], hopened.define spec.name _ (hx.package? hs.package), hnext ▸ .refl _, .refl _⟩

theorem around_declaredType (hr : reg.Sound) (hs : scope.Sound reg) (kind : GroupKind)
    (doc : Option Doc) (spec : ValueSpec) {source : ValueSpec} {type : TypeExpr}
    (ht : source.type = some type) : reg.Around (.valueSpec scope kind doc spec source) reg
      (stateAfter (resolveType scope type) reg) := by
  have htype : Adds (stateAfter (resolveType scope type) reg)
      (stateAfter ((some type).mapM (resolveType scope)) reg) :=
    adds_stateAfter_bind (m := resolveType scope type) fun _ _ _ => .refl _
  refine around_of_adds (.refl reg) (htype.trans ?_)
  rw [next, declareValueSpec, ht]
  refine adds_stateAfter_bind fun declared later h => ?_
  obtain ⟨r, _, hread, hpure⟩ := bind_ok h
  cases hpure
  have hadds := (resolveType_reads hr hs type).adding.of_ok hread
  exact declareNames_adding (hadds.spares.sound hr) (hs.adds hadds) kind _ (some r) source 0
    spec.names

theorem around_receiver (hr : reg.Sound) (hs : scope.Sound reg) {decl : FuncDecl}
    (hopen : scope.withTypeParams (typeParamNames decl) reg = .ok inner mid) {field : Field}
    (hf : decl.receiver = some field) :
    inner.Sound mid ∧ reg.Around (.func scope decl) mid
      (stateAfter (resolveType inner (field.type ())) mid) := by
  obtain ⟨hx, hsi, -⟩ := (withTypeParams_total hr hs _).of_ok hopen
  have hreads := receiver_reads (hx.sound hr) hsi decl.receiver
  have htype : Adds (stateAfter (resolveType inner (field.type ())) mid)
      (stateAfter (resolveReceiver inner field) mid) := adds_stateAfter_bind fun _ _ _ => .refl _
  have hreceiver : Adds (stateAfter (resolveReceiver inner field) mid)
      (stateAfter (decl.receiver.mapM (resolveReceiver inner)) mid) := by
    rw [hf]
    exact adds_stateAfter_bind (m := resolveReceiver inner field) fun _ _ _ => .refl _
  refine ⟨hsi, around_of_adds (.of_extends hx) ((htype.trans hreceiver).trans ?_)⟩
  rw [next, declareFunc_eq_body, stateAfter_bind hopen, funcBody]
  refine adds_stateAfter_bind fun receiver later h => ?_
  obtain ⟨hx', howner, -⟩ := hreads.of_ok h
  have hsound := hx'.sound (hx.sound hr)
  have hparams : InSignature inner decl.params decl.results later decl.params later := .params
  have hread := resolveArguments_reads hsound (hsi.extended hx') decl.params
  exact hread.adding.trans (signature_attached hparams hsound (hsi.extended hx') howner).2

theorem around_signature (hr : reg.Sound) (hs : scope.Sound reg) {decl : FuncDecl}
    {opened later : Registry} {receiver : Option Argument} {fields : List Field}
    (hopen : scope.withTypeParams (typeParamNames decl) reg = .ok inner opened)
    (hrecv : decl.receiver.mapM (resolveReceiver inner) opened = .ok receiver later)
    (h : InSignature inner decl.params decl.results later fields mid) :
    inner.Sound mid ∧ reg.Around (.func scope decl) mid
      (stateAfter (resolveArguments inner fields) mid) := by
  obtain ⟨hx, hsi, -⟩ := (withTypeParams_total hr hs _).of_ok hopen
  obtain ⟨hx', howner, -⟩ := (receiver_reads (hx.sound hr) hsi decl.receiver).of_ok hrecv
  obtain ⟨hbefore, hafter⟩ :=
    signature_attached h (hx'.sound (hx.sound hr)) (hsi.extended hx') howner
  refine ⟨(hsi.extended hx').adds hbefore, around_of_adds ?_ ?_⟩
  · exact (Adds.of_extends hx).trans ((Adds.of_extends hx').trans hbefore)
  · rw [next, declareFunc_eq_body, stateAfter_bind hopen, funcBody, stateAfter_bind hrecv]
    exact hafter

theorem Action.Begins.around {action : Action} {p : Phase} (h : action.Begins reg inner p mid)
    (hr : reg.Sound) (he : reg.Enabled action) :
    inner.Sound mid ∧ p.Fits mid ∧ reg.Around action mid (p.final inner mid) := by
  cases h with
  | @aliased scope _ doc spec _ ha hopen =>
    obtain ⟨hs, haround⟩ := around_aliased hr he doc ha hopen
    exact ⟨hs, trivial, haround⟩
  | struct ha hopen ht | interface ha hopen ht =>
    obtain ⟨hs, htype, haround⟩ := around_defined hr he ha hopen rfl
    refine ⟨hs, htype, ?_⟩
    rw [ht] at haround ⊢
    exact haround
  | @declaredType _ kind doc spec source type ht =>
    exact ⟨he, trivial, around_declaredType hr he kind doc spec ht⟩
  | @names _ kind doc spec source ht =>
    refine ⟨he, trivial, around_of_adds (.refl reg) ?_⟩
    rw [next, declareValueSpec, ht]
    exact .refl _
  | receiver hopen hf =>
    obtain ⟨hs, haround⟩ := around_receiver hr he hopen hf
    exact ⟨hs, trivial, haround⟩
  | signature hopen hrecv hsig =>
    obtain ⟨hs, haround⟩ := around_signature hr he hopen hrecv hsig
    exact ⟨hs, trivial, haround⟩

/-- Wherever an action reads a type expression, it is on a course, and so is the rest of the action
afterwards. -/
theorem Action.Reads.around {action : Action} {type : TypeExpr}
    (h : action.Reads reg inner type mid) (hr : reg.Sound) (he : reg.Enabled action) :
    inner.Sound mid ∧ reg.Around action mid (stateAfter (resolveType inner type) mid) := by
  obtain ⟨p, began, hbegins, hcomes⟩ := h
  obtain ⟨hs, hfits, front, back, hfront, hback, hkeys⟩ := hbegins.around hr he
  obtain ⟨hbefore, hafter⟩ := hcomes.adds (hfront.leads hr).sound hs hfits
  exact ⟨hs.adds hbefore, front, back, hfront.adds hbefore,
    ((Course.refl _).adds hafter).trans hback, hkeys⟩

end Around

end Registry

end GoPackages
