import GoPackages.Proofs.Analysis.Views

/-!
# Entries of their own

A type that is written in place, or with a decorator, is read as an entry that was not there
before. Such an entry is no placeholder of a name, so no table has it.
-/
namespace GoPackages

open Source (TypeExpr Field)
open Registry (Extends)

/-- An entry that no use of a name makes. -/
def RefEntry.IsSite : RefEntry → Prop
  | .named e => e.type.isSome = true
  | .decorated _ _ => True
  | .aliasOf _ => False

/-- What a view shows of `r`, if it is an entry of its own, was not there in `old`. -/
def NewSites (old g : TypeGraph) (type : TypeExpr) (r : RefId) : Prop :=
  ∀ v : View, v.head type = .site →
    ¬old.HasRef (v.of g r) ∧ ∃ e, g.entryAt? (v.of g r) = some e ∧ e.IsSite

theorem Registry.Extends.keepsEdges {pkg : PackageId} {free : TypeId → Prop}
    {reg reg' : Registry} (h : Extends pkg free reg reg') :
    TypeGraph.KeepsEdges reg.graph reg'.graph :=
  ⟨fun r e he => ⟨e, h.entries r _ he⟩, fun r _ _ he => h.entries r _ he,
    fun r _ he => h.entries r _ he⟩

section

variable {old g g' : TypeGraph} {type : TypeExpr} {r : RefId} {scope : FileScope}
  {reg mid reg' : Registry}

theorem NewSites.older (h : NewSites old g type r) {older : TypeGraph}
    (ho : ∀ s, older.HasRef s → old.HasRef s) : NewSites older g type r := by
  intro v hv
  obtain ⟨hnew, hsite⟩ := h v hv
  exact ⟨fun hs => hnew (ho _ hs), hsite⟩

theorem NewSites.extended {pkg : PackageId} {free : TypeId → Prop}
    (h : NewSites old reg.graph type r) (hr : reg.Sound) (hr' : reg'.Sound)
    (hx : Extends pkg free reg reg') (href : reg.graph.HasRef r) :
    NewSites old reg'.graph type r := by
  intro v hv
  obtain ⟨hnew, e, he, hsite⟩ := h v hv
  rw [v.of_kept (TypeGraph.reachable_grounded hr.graph) (TypeGraph.reachable_grounded hr'.graph)
    hx.keepsEdges href]
  exact ⟨hnew, e, hx.entries _ e he, hsite⟩

theorem newSites_typed {e : NamedRef} (he : g.entryAt? r = some (.named e))
    (ht : e.type.isSome = true) (hnew : ¬old.HasRef r) : NewSites old g type r := by
  intro v _
  rw [v.of_named he]
  exact ⟨hnew, _, he, ht⟩

theorem newSites_decorated {elem : TypeExpr} (hg : g.Grounded) {d : Decorator} {inner : RefId}
    (he : g.entryAt? r = some (.decorated d inner)) (hnew : ¬old.HasRef r)
    (h : NewSites old g elem inner) (hhead : ∀ v : View, v.head type = v.under (v.head elem)) :
    NewSites old g type r := by
  intro v hv
  rw [hhead] at hv
  cases v with
  | whole =>
    rw [View.whole_of_decorated he]
    exact ⟨hnew, _, he, trivial⟩
  | core =>
    rw [View.core_of_decorated hg he]
    exact h .core hv

/-- Reading that answers with a reference and makes entries of its own for `type`. -/
def ReadsSites (scope : FileScope) (reg : Registry) (m : Analysis RefId) (type : TypeExpr) :
    Prop :=
  Reads scope reg.Unmade reg m fun r reg' =>
    reg'.graph.HasRef r ∧ NewSites reg.graph reg'.graph type r

theorem decorate_sites (hr : reg.Sound) (hs : scope.Sound reg) {m : Analysis RefId}
    {elem : TypeExpr} (d : Decorator) (h : ReadsSites scope reg m elem)
    (hhead : ∀ v : View, v.head type = v.under (v.head elem)) :
    ReadsSites scope reg (do let inner ← m; Analysis.ofGraph (·.decorate d inner)) type := by
  refine Reads.bind hr hs h ?_
  rintro inner mid he hmr hms ⟨hinner, hsites⟩
  have hx : Extends scope.package mid.Unmade mid _ := Registry.extends_decorate mid d hinner
  have hentry := TypeGraph.entryAt?_addRef_self mid.graph (.decorated d inner)
  refine Reads.later he ⟨hx, hasRef_addRef mid.graph _, ?_⟩
  refine newSites_decorated (TypeGraph.reachable_grounded (hx.sound hmr).graph) hentry ?_
    (hsites.extended hmr (hx.sound hmr) hx hinner) hhead
  exact fun hold => Nat.lt_irrefl _ (he.hasRef hold)

theorem newSites_opened {pkg : PackageId} {free : TypeId → Prop} (he : Extends pkg free reg mid)
    (q : PackageId) (data : TypeData) (name : String) :
    NewSites reg.graph (opened mid q data name).2.graph type (opened mid q data name).1 := by
  obtain ⟨-, ⟨e, hentry, hty⟩, -⟩ := opened_holds mid q data name
  refine newSites_typed hentry (by rw [hty]; rfl) fun hold => ?_
  exact Nat.lt_irrefl _ (he.hasRef hold)

theorem resolveType_sites (hr : reg.Sound) (hs : scope.Sound reg) (type : TypeExpr) :
    ReadsSites scope reg (resolveType scope type) type := by
  cases type with
  | named name args =>
    exact (resolveName_reads hr hs _ name).mono fun _ _ _ h => ⟨h.1, fun _ hv => by cases hv⟩
  | selector base name args =>
    refine (resolveQualified_reads hr hs _ (base ()) name).mono fun _ _ _ h => ?_
    exact ⟨h.1, fun _ hv => by cases hv⟩
  | pointer elem | array _ elem | slice elem | chan _ elem | ellipsis elem =>
    exact decorate_sites hr hs _ (resolveType_sites hr hs (elem ())) fun _ => rfl
  | map key value =>
    refine Reads.bind hr hs (resolveType_reads hr hs (key ())) ?_
    rintro k mid he hmr hms -
    refine Reads.later he (Reads.bind hmr hms (resolveType_reads hmr hms (value ())) ?_)
    rintro v mid' he' - - -
    let data : TypeData :=
      { name := "map[" ++ mid'.graph.refName k ++ "]" ++ mid'.graph.refName v
        package := some scope.package, kind := .map ⟨k, v⟩ }
    refine Reads.later he' ⟨extends_opened mid' scope.package data data.name _, ?_, ?_⟩
    · exact (opened_holds mid' scope.package data data.name).1
    · have hx := he.then_new he' fun _ h => h
      exact newSites_opened hx scope.package data data.name
  | func params results =>
    refine Reads.bind hr hs (resolveArguments_reads hr hs params) ?_
    rintro as mid he hmr hms -
    refine Reads.later he (Reads.bind hmr hms (resolveArguments_reads hmr hms results) ?_)
    rintro rs mid' he' - - -
    let data : TypeData := { name := "", package := some scope.package
                             kind := .method { arguments := as, results := rs } }
    refine Reads.later he' ⟨extends_opened mid' scope.package data "" _, ?_, ?_⟩
    · exact (opened_holds mid' scope.package data "").1
    · have hx := he.then_new he' fun _ h => h
      exact newSites_opened hx scope.package data ""
  | interface elems => exact reads_pure ⟨hr.emptyInterface, fun _ hv => by cases hv⟩
  | struct fields =>
    let data : TypeData := { name := anonymousStructName, package := some scope.package
                             kind := .struct {} }
    have hadd : Extends scope.package reg.Unmade reg (reg.onGraph (·.addType data)).2 :=
      Registry.extends_addType reg data
    have hfresh := extends_addType_opened reg scope.package data anonymousStructName reg.Unmade
    have hx := hadd.trans hfresh
    obtain ⟨href, -⟩ := opened_holds reg scope.package data anonymousStructName
    have hsites : NewSites reg.graph (opened reg scope.package data anonymousStructName).2.graph
        (.struct fields) (opened reg scope.package data anonymousStructName).1 :=
      newSites_opened (Extends.refl scope.package reg.Unmade reg) scope.package data _
    have htype : (opened reg scope.package data anonymousStructName).2.graph.HasType
        (reg.graph.addType data).1 := hasType_addType reg.graph data
    refine Reads.after_ofGraph hadd (Reads.after_ofGraph hfresh ?_)
    refine Reads.bind_within (hx.sound hr) (hs.extended hx)
      (resolveFields_reads (hx.sound hr) (hs.extended hx) htype fields) ?_ ?_
    · rintro t (rfl | hn)
      · exact Nat.lt_irrefl _
      · exact fun h => hn (hx.hasType h)
    · rintro _ reg' he hr' _ -
      exact reads_pure ⟨he.hasRef href, hsites.extended (hx.sound hr) hr' he href⟩
  | paren inner => exact resolveType_sites hr hs (inner ())
  | bad => exact reads_throw _
termination_by structural type

end

def parameterTypes (fields : List Field) : List TypeExpr :=
  fields.flatMap fun field => List.replicate (max 1 field.names.length) (field.type ())

theorem forall₂_ofNames {R : TypeExpr → Argument → Prop} {type : TypeExpr} {r : RefId}
    (names : List String) (h : ∀ name, R type ⟨name, r⟩) :
    List.Forall₂ R (List.replicate (max 1 names.length) type) (Argument.ofNames names r) := by
  unfold Argument.ofNames
  cases names with
  | nil => exact .cons (h "") .nil
  | cons name rest =>
    have hlength : max 1 (name :: rest).length = (name :: rest).length := by simp
    rw [hlength]
    simp only [List.isEmpty_cons, Bool.false_eq_true, if_false]
    generalize name :: rest = names
    induction names with
    | nil => exact .nil
    | cons name rest ih => exact .cons (h name) ih

theorem ArgumentsDenote.forall₂ {g : TypeGraph} {lo : Nat} {m : Meaning} {fields : List Field}
    {arguments : List Argument} (h : ArgumentsDenote g lo m fields arguments) :
    List.Forall₂ (fun type a => Denotes g lo m type a.type) (parameterTypes fields) arguments := by
  induction fields generalizing arguments with
  | nil =>
    cases h
    exact .nil
  | cons field rest ih =>
    obtain ⟨names, type, tag, doc⟩ := field
    obtain ⟨r, others, rfl, hd, ho⟩ := h
    exact List.rel_append (forall₂_ofNames names fun _ => hd) (ih ho)

section

variable {scope : FileScope} {reg : Registry}

def ArgumentSites (old g : TypeGraph) (fields : List Field) (arguments : List Argument) : Prop :=
  List.Forall₂ (fun type (a : Argument) => g.HasRef a.type ∧ NewSites old g type a.type)
    (parameterTypes fields) arguments

theorem ArgumentSites.extended {old : TypeGraph} {pkg : PackageId} {free : TypeId → Prop}
    {reg' : Registry} {fields : List Field} {arguments : List Argument}
    (h : ArgumentSites old reg.graph fields arguments) (hr : reg.Sound) (hr' : reg'.Sound)
    (hx : Extends pkg free reg reg') : ArgumentSites old reg'.graph fields arguments :=
  h.imp fun _ _ ⟨href, hsites⟩ => ⟨hx.hasRef href, hsites.extended hr hr' hx href⟩

theorem ArgumentSites.older {old older g : TypeGraph} {fields : List Field}
    {arguments : List Argument} (h : ArgumentSites old g fields arguments)
    (ho : ∀ s, older.HasRef s → old.HasRef s) : ArgumentSites older g fields arguments :=
  h.imp fun _ _ ⟨href, hsites⟩ => ⟨href, hsites.older ho⟩

theorem resolveArguments_sites (hr : reg.Sound) (hs : scope.Sound reg) (fields : List Field) :
    Reads scope reg.Unmade reg (resolveArguments scope fields) fun as reg' =>
      ArgumentSites reg.graph reg'.graph fields as := by
  induction fields generalizing reg with
  | nil => exact reads_pure .nil
  | cons field rest ih =>
    obtain ⟨names, type, tag, doc⟩ := field
    refine Reads.bind hr hs (resolveType_sites hr hs (type ())) ?_
    rintro r mid he hmr hms ⟨href, hsites⟩
    refine Reads.later he (Reads.bind hmr hms (ih hmr hms) ?_)
    intro others reg' he' hr' _ ho
    refine reads_pure (List.rel_append (forall₂_ofNames names fun _ => ?_) ?_)
    · exact ⟨he'.hasRef href, hsites.extended hmr hr' he' href⟩
    · exact ho.older fun _ h => he.hasRef h

theorem resolveMethod_sites (hr : reg.Sound) (hs : scope.Sound reg) (name : String) (doc : Doc)
    (receiver : Option Argument) (params results : List Field) :
    Reads scope reg.Unmade reg (resolveMethod scope name doc receiver params results)
      fun ty reg' => ∃ t, reg'.graph.kind? ty = some (.method t) ∧
        ArgumentSites reg.graph reg'.graph params t.arguments ∧
        ArgumentSites reg.graph reg'.graph results t.results := by
  refine Reads.bind hr hs (resolveArguments_sites hr hs params) ?_
  intro as mid he hmr hms ha
  refine Reads.later he (Reads.bind hmr hms (resolveArguments_sites hmr hms results) ?_)
  intro rs mid' he' hmr' _ hrs
  let t : MethodType := { doc, receiver, arguments := as, results := rs }
  let data : TypeData := { name, package := some scope.package, kind := .method t }
  have hx : Extends scope.package mid'.Unmade mid' (mid'.onGraph (·.addType data)).2 :=
    Registry.extends_addType mid' data
  have hty := TypeGraph.typeAt?_addType_self mid'.graph data
  refine Reads.later he' ⟨hx, t, Registry.kind?_of_typeAt? hty, ?_, ?_⟩
  · exact (ha.extended hmr hmr' he').extended hmr' (hx.sound hmr') hx
  · exact (hrs.older fun _ h => he.hasRef h).extended hmr' (hx.sound hmr') hx

end

end GoPackages
