import GoPackages.Proofs.Registry.OutOfReach

/-!
# Type parameters stay inside their declaration

Every declaration makes new entries for its type parameters and reads their names as these entries,
whatever the packages have under the names. The tables of names are left alone, and afterwards no
name leads to the entries any more. Only an alias whose type is a bare type parameter carries the
entry of it out, under the name of the alias.
-/
namespace GoPackages

open Source (TypeExpr TypeSpec FuncDecl)
open Registry (Adds Extends AliasOutcome)

/-- The entry of a type parameter, resolved to some type. -/
def Registry.HasParam (reg : Registry) (n : String) (r : RefId) : Prop :=
  ∃ e, reg.graph.entryAt? r = some (.named e) ∧ e.name = n ∧ e.type.isSome

/-- What a declaration does with its type parameters. It declares the name `own`, if any, and its
type consists of the name `bare`, if it is that of an alias. -/
structure ParamsInside (scope : FileScope) (names : List String) (own : Option Slot)
    (bare : Option String) (reg : Registry) (inner : FileScope) (opened reg' : Registry) :
    Prop where
  opens : scope.withTypeParams names reg = .ok inner opened
  named : inner.typeParams.map Prod.fst = names
  minted : Minted scope.package reg inner.typeParams opened
  stands : ∀ n r, inner.typeParams.lookup n = some r →
    (n ≠ "" → n ≠ "_" → ∀ now, inner.resolveName n now = .ok r now) ∧
    ∀ now s, (inner.meaning now).bare n s ↔ s = r
  kept : ∀ n r, (n, r) ∈ inner.typeParams → reg'.HasParam n r
  /-- A table gets the name of a parameter only behind the qualifier of its package. -/
  tables : ∀ q n, n ∈ names → own ≠ some (q, n) →
    (∀ qualifier, scope.aliases.get? qualifier ≠ some q) → reg'.ref? q n = reg.ref? q n
  refs : ∀ q n s, own ≠ some (q, n) → reg.ref? q n = some s → reg'.ref? q n = some s
  held : ∀ n r q m, (n, r) ∈ inner.typeParams → reg'.ref? q m = some r →
    own = some (q, m) ∧ bare = some n
  forgotten : ∀ n r, (n, r) ∈ inner.typeParams → bare ≠ some n →
    ∀ later, reg'.ValidRun later → (reg'.run later).OutOfReach r
  apart : ∀ n r, (n, r) ∈ inner.typeParams → ∀ later, reg'.ValidRun later →
    ∀ (other : FileScope) names' inner' opened', other.Sound (reg'.run later) →
      other.withTypeParams names' (reg'.run later) = .ok inner' opened' →
      ∀ p ∈ inner'.typeParams, p.2 ≠ r

section Entries

variable {scope : FileScope} {reg mid reg' : Registry} {pkg : PackageId} {name n : String}
  {r target : RefId}

namespace Registry

theorem HasParam.adds (h : reg.HasParam n r) (ha : Adds reg reg') : reg'.HasParam n r := by
  obtain ⟨e, he, hname, htype⟩ := h
  obtain ⟨methods, he'⟩ := ha.spares.names r e he
  exact ⟨_, he', hname, htype⟩

theorem HasParam.declare (h : reg.HasParam n r) (pkg : PackageId) (name : String)
    (kind : TypeKind) : (reg.declare pkg name kind).2.HasParam n r := by
  have hx := extends_introduce reg pkg name kind pkg fun _ => False
  obtain ⟨e, he, hname, htype⟩ := h
  have hmade := hx.entries r _ he
  by_cases hroot : (reg.introduce pkg name kind).2.graph.namedRoot
      (reg.introduce pkg name kind).1 = r
  · subst hroot
    exact ⟨_, declare_entryAt?_root hmade, hname, rfl⟩
  · exact ⟨e, (declare_entryAt?_of_ne hroot).trans hmade, hname, htype⟩

theorem HasParam.renamed (h : mid.HasParam n r) (hr : reg.Sound) (hmid : mid.Sound)
    (ha : Adds reg mid) (hnew : ¬reg.graph.HasRef r) (hheld : mid.Unheld r)
    (hren : Renamed mid pkg name target reg') : reg'.HasParam n r := by
  obtain ⟨e, he, hname, htype⟩ := h
  have hroot : ∀ x, mid.ref? pkg name = some x → r ≠ mid.graph.namedRoot x := by
    rintro x hx rfl
    rcases ha.placed pkg name x hx with hold | ⟨-, e', he', -⟩
    · have hg := TypeGraph.reachable_grounded hr.graph
      have hhas := hr.refs _ _ x hold
      have hkept : mid.graph.namedRoot x = reg.graph.namedRoot x :=
        View.core.of_kept hg (TypeGraph.reachable_grounded hmid.graph) ha.keepsEdges hhas
      rw [hkept] at hnew
      exact hnew (View.core.hasRef_of hg hhas)
    · rw [TypeGraph.namedRoot_of_named he'] at hheld
      exact hheld.tables pkg name hx
  obtain ⟨methods, he'⟩ := hren.names r e he hroot
  exact ⟨_, he', hname, htype⟩

theorem declare_ref?_of_ne {q : PackageId} (h : (q, n) ≠ (pkg, name)) (reg : Registry)
    (kind : TypeKind) : (reg.declare pkg name kind).2.ref? q n = reg.ref? q n := by
  rw [declare_ref?]
  exact ref?_ensureRef_of_ne h _

end Registry

theorem Minted.unheld {params : List (String × RefId)} {opened : Registry}
    (h : Minted pkg reg params opened) (hr : reg.Sound) (hp : (n, r) ∈ params) :
    opened.Unheld r where
  made := h.hasRef hp
  tables q m hslot := by
    have hold : reg.ref? q m = some r := by
      rw [Registry.ref?, Registry.package?, ← h.packages]
      exact hslot
    exact h.fresh n r hp (hr.refs q m r hold)

theorem Minted.ne_emptyInterface {params : List (String × RefId)} {opened : Registry}
    (h : Minted pkg reg params opened) (hr : reg.Sound) (hp : (n, r) ∈ params) :
    r ≠ TypeGraph.emptyInterface := by
  rintro rfl
  exact h.fresh n _ hp hr.emptyInterface

theorem Minted.hasParam {params : List (String × RefId)} {opened : Registry}
    (h : Minted pkg reg params opened) (hp : (n, r) ∈ params) : opened.HasParam n r := by
  obtain ⟨ty, -, he, -⟩ := h.typed n r hp
  exact ⟨_, he, rfl, rfl⟩

end Entries

section Declarations

variable {scope inner : FileScope} {names : List String} {own : Option Slot}
  {bare : Option String} {reg opened reg' : Registry} {spec : TypeSpec}

theorem ParamsInside.of_opened (h : ScopeOpened scope names reg inner opened) (hr' : reg'.Sound)
    (kept : ∀ n r, (n, r) ∈ inner.typeParams → reg'.HasParam n r)
    (tables : ∀ q n, (inner.typeParams.lookup n).isSome → own ≠ some (q, n) →
      (∀ qualifier, inner.aliases.get? qualifier ≠ some q) → reg'.ref? q n = opened.ref? q n)
    (refs : ∀ q n s, own ≠ some (q, n) → opened.ref? q n = some s → reg'.ref? q n = some s)
    (held : ∀ n r, (n, r) ∈ inner.typeParams →
      reg'.Unheld r ∨ bare = some n ∧ ∀ q m, reg'.ref? q m = some r → own = some (q, m)) :
    ParamsInside scope names own bare reg inner opened reg' := by
  have hsame : ∀ q n, opened.ref? q n = reg.ref? q n := by
    intro q n
    rw [Registry.ref?, Registry.package?, h.minted.packages]
    rfl
  constructor
  case opens => exact h.opens
  case named => exact h.named
  case minted => exact h.minted
  case kept => exact kept
  case stands =>
    intro n r hl
    constructor
    · exact resolveName_of_param hl
    · intro now s
      exact meaning_bare_param hl now
  case tables =>
    intro q n hn hown hq
    have hparam := (mem_keys_iff_lookup inner.typeParams n).mp (h.named ▸ hn)
    rw [h.widens] at tables
    exact (tables q n hparam hown hq).trans (hsame q n)
  case refs =>
    intro q n s hown hslot
    exact refs q n s hown ((hsame q n).trans hslot)
  case held =>
    intro n r q m hp hslot
    rcases held n r hp with hunheld | ⟨hbare, hown⟩
    · exact absurd hslot (hunheld.tables q m)
    · exact ⟨hown q m hslot, hbare⟩
  case forgotten =>
    intro n r hp hbare later hlater
    have hempty := h.minted.ne_emptyInterface h.before hp
    rcases held n r hp with hunheld | ⟨hcarried, -⟩
    · have hsound := (Registry.run_sound hr' hlater).1
      exact (hunheld.run hempty hr' hlater).outOfReach hsound
    · exact absurd hcarried hbare
  case apart =>
    rintro n r hp later hlater other names' inner' opened' hother hopen' ⟨m, s⟩ hp' rfl
    obtain ⟨e, he, -⟩ := kept n _ hp
    obtain ⟨hsound, hgrows⟩ := Registry.run_sound hr' hlater
    obtain ⟨_, _, hagain⟩ := withTypeParams_opens hsound hother names'
    cases hopen'.symm.trans hagain.opens
    have hhas := Nat.lt_of_lt_of_le (TypeGraph.hasRef_of_entryAt? he) hgrows.refCount
    exact hagain.minted.fresh m _ hp' hhas

def aliasedName? (spec : TypeSpec) : Option String :=
  if spec.isAlias then bareName? spec.type else none

theorem ScopeOpened.typeSpec_held
    (h : ScopeOpened scope (Source.declaredNames spec.typeParams) reg inner opened)
    (doc : Option Doc) {n : String} {r : RefId} (hp : (n, r) ∈ inner.typeParams) :
    (reg.next (.typeSpec scope doc spec)).Unheld r ∨ aliasedName? spec = some n ∧
      ∀ q m, (reg.next (.typeSpec scope doc spec)).ref? q m = some r →
        some (scope.package, spec.name) = some (q, m) := by
  have hempty := h.minted.ne_emptyInterface h.before hp
  rcases (h.minted.unheld h.before hp).typeSpec hempty h doc with
    hunheld | ⟨ha, ⟨m, hbare, hl⟩, hown⟩
  · exact .inl hunheld
  · right
    constructor
    · rw [aliasedName?, if_pos ha, hbare, h.minted.name_unique (mem_of_lookup hl) hp]
    · intro q m hslot
      rw [hown q m hslot]

theorem ScopeOpened.defined
    (h : ScopeOpened scope (Source.declaredNames spec.typeParams) reg inner opened)
    (doc : Option Doc) (ha : spec.isAlias = false)
    (hr' : (reg.next (.typeSpec scope doc spec)).Sound) :
    ParamsInside scope (Source.declaredNames spec.typeParams) (some (scope.package, spec.name))
      (aliasedName? spec) reg inner opened (reg.next (.typeSpec scope doc spec)) := by
  let kind := kindOf ((spec.doc.or doc).getD []) spec.type
  let bound := (opened.declare scope.package spec.name kind).2
  have hrun : reg.next (.typeSpec scope doc spec) =
      stateAfter (fill inner opened.nextType spec.type) bound := by
    simp only [Registry.next, stateAfter, declareTypeSpec_eq_filled doc ha h.package h.opens]
    rfl
  have hadds : Adds bound (stateAfter (fill inner opened.nextType spec.type) bound) :=
    Registry.filling_adds h.sound h.inScope scope.package spec.name _ spec.type
  have hshielded : Shielded inner bound
      (stateAfter (fill inner opened.nextType spec.type) bound) :=
    (fill_shields inner opened.nextType spec.type bound).anyhow
  have hbound : ∀ q n, some (scope.package, spec.name) ≠ some (q, n) →
      bound.ref? q n = opened.ref? q n := by
    intro q n hown
    apply Registry.declare_ref?_of_ne
    intro heq
    exact hown (congrArg some heq.symm)
  apply ParamsInside.of_opened h hr'
  case kept =>
    intro n r hp
    rw [hrun]
    exact ((h.minted.hasParam hp).declare scope.package spec.name kind).adds hadds
  case tables =>
    intro q n hn hown hq
    rw [hrun, hshielded q n hn hq, hbound q n hown]
  case refs =>
    intro q n s hown hslot
    rw [hrun]
    exact hadds.spares.refs q n s ((hbound q n hown).trans hslot)
  case held =>
    intro n r hp
    exact h.typeSpec_held doc hp

theorem ScopeOpened.aliased
    (h : ScopeOpened scope (Source.declaredNames spec.typeParams) reg inner opened)
    (doc : Option Doc) (ha : spec.isAlias = true)
    (hr' : (reg.next (.typeSpec scope doc spec)).Sound) :
    ParamsInside scope (Source.declaredNames spec.typeParams) (some (scope.package, spec.name))
      (aliasedName? spec) reg inner opened (reg.next (.typeSpec scope doc spec)) := by
  have hheld := fun n r hp => h.typeSpec_held doc (n := n) (r := r) hp
  have hout := Registry.aliasOutcome h doc ha
  have hadds := Registry.reading_adds h.sound h.inScope spec.type
  have hshielded : Shielded inner opened (stateAfter (resolveType inner spec.type) opened) :=
    ((reading_shields inner).ofType spec.type opened).anyhow
  generalize reg.next (.typeSpec scope doc spec) = reg' at hr' hheld hout ⊢
  cases hout with
  | read =>
    apply ParamsInside.of_opened h hr'
    case kept =>
      intro n r hp
      exact (h.minted.hasParam hp).adds hadds
    case tables =>
      intro q n hn _ hq
      exact hshielded q n hn hq
    case refs =>
      intro q n s _ hslot
      exact hadds.spares.refs q n s hslot
    case held => exact hheld
  | @renamed target read reg' hok hren =>
    rw [stateAfter_of_ok hok] at hadds hshielded
    have hothers : ∀ q n, some (scope.package, spec.name) ≠ some (q, n) →
        reg'.ref? q n = read.ref? q n := by
      intro q n hown
      apply hren.others
      intro heq
      exact hown (congrArg some heq.symm)
    apply ParamsInside.of_opened h hr'
    case kept =>
      intro n r hp
      have hread : read.HasParam n r := (h.minted.hasParam hp).adds hadds
      have hall : Adds reg read := (Adds.of_extends h.reads).trans hadds
      exact hread.renamed h.before (hadds.spares.sound h.sound) hall (h.minted.fresh n r hp)
        ((h.minted.unheld h.before hp).adds hadds) hren
    case tables =>
      intro q n hn hown hq
      exact (hothers q n hown).trans (hshielded q n hn hq)
    case refs =>
      intro q n s hown hslot
      exact (hothers q n hown).trans (hadds.spares.refs q n s hslot)
    case held => exact hheld

theorem ScopeOpened.func {decl : FuncDecl}
    (h : ScopeOpened scope (typeParamNames decl) reg inner opened)
    (hadds : Adds opened (reg.next (.func scope decl))) :
    ParamsInside scope (typeParamNames decl) none none reg inner opened
      (reg.next (.func scope decl)) := by
  have hrun : reg.next (.func scope decl) = stateAfter (funcBody inner decl) opened := by
    simp only [Registry.next, stateAfter, declareFunc_eq_body, bind_eq_of_ok h.opens]
  have hshielded : Shielded inner opened (stateAfter (funcBody inner decl) opened) :=
    (funcBody_shields inner decl opened).anyhow
  apply ParamsInside.of_opened h (hadds.spares.sound h.sound)
  case kept =>
    intro n r hp
    exact (h.minted.hasParam hp).adds hadds
  case tables =>
    intro q n hn _ hq
    rw [hrun, hshielded q n hn hq]
  case refs =>
    intro q n s _ hslot
    exact hadds.spares.refs q n s hslot
  case held =>
    intro n r hp
    exact .inl ((h.minted.unheld h.before hp).adds hadds)

end Declarations

/-- The parts of a declared type, with the names of its type parameters read as their entries. The
type of an alias is read before its name is entered. -/
def TypeSpecRead (scope inner : FileScope) (spec : TypeSpec) (opened reg' : Registry) : Prop :=
  if spec.isAlias then
    ∃ target read, resolveType inner spec.type opened = .ok target read ∧
      Denotes read.graph opened.graph.typeCount (inner.meaning read) spec.type target ∧
      reg'.ref? scope.package spec.name = some target
  else
    ∃ kind, reg'.graph.kind? opened.nextType = some kind ∧
      KindDenotes reg'.graph (inner.meaning reg') spec.type kind

section Reading

variable {scope inner : FileScope} {reg opened reg' : Registry}

theorem ScopeOpened.typeSpecRead {spec : TypeSpec}
    (h : ScopeOpened scope (Source.declaredNames spec.typeParams) reg inner opened)
    {doc : Option Doc} (hok : declareTypeSpec scope doc spec reg = .ok () reg') :
    TypeSpecRead scope inner spec opened reg' := by
  unfold TypeSpecRead
  cases ha : spec.isAlias with
  | true =>
    cases hread : resolveType inner spec.type opened with
    | error e mid =>
      cases hok.symm.trans (declareTypeSpec_eq_error doc ha h.opens hread)
    | ok target read =>
      obtain ⟨hx, htarget, hd⟩ := (resolveType_reads h.sound h.inScope spec.type).of_ok hread
      have hreads : scope.ReadsType reg spec target read := ⟨inner, opened, h.opens, hread⟩
      have hdecl := (hreads.declares doc ha).symm.trans hok
      have hp := hx.package? h.inScope.package
      rw [h.package] at hp
      refine ⟨target, read, rfl, hd, ?_⟩
      split at hdecl
      next last hren =>
        cases hdecl
        exact (Registry.rename?_effect (hx.sound h.sound) hp htarget hren).own
      next => cases hdecl
  | false =>
    let kind := kindOf ((spec.doc.or doc).getD []) spec.type
    have hfill := fill_reads (Registry.declare_sound h.sound scope.package spec.name kind)
      (h.inScope.declare scope.package spec.name kind)
      (Registry.declare_typeAt? opened scope.package spec.name kind) rfl
    rw [declareTypeSpec_eq_filled doc ha h.package h.opens] at hok
    obtain ⟨-, kind', htype, hdenotes⟩ := hfill.of_ok hok
    exact ⟨kind', Registry.kind?_of_typeAt? htype, hdenotes⟩

end Reading

/-- In every declaration of a type, a function or a method, each name of a type parameter is read
at every depth as the entry that was made for it, which is new. No table gets the name for that, and
when the declaration is over, no name leads to the entry any more, except for the name of an alias
whose type is the bare parameter. -/
theorem type_parameters_stay_inside {reg : Registry} (h : Registry.Reachable reg)
    {scope : FileScope} (hs : scope.Sound reg) :
    (∀ doc spec, ∃ inner opened,
      ParamsInside scope (Source.declaredNames spec.typeParams) (some (scope.package, spec.name))
        (aliasedName? spec) reg inner opened (reg.next (.typeSpec scope doc spec)) ∧
      ∀ reg', declareTypeSpec scope doc spec reg = .ok () reg' →
        TypeSpecRead scope inner spec opened reg') ∧
    ∀ decl, ∃ inner opened,
      ParamsInside scope (typeParamNames decl) none none reg inner opened
        (reg.next (.func scope decl)) ∧
      ∀ reg', declareFunc scope decl reg = .ok () reg' → ∃ mid ty t,
        FuncRead scope decl reg mid inner.typeParams ty t ∧
        reg' = attach scope.package decl.name ty t.receiver mid := by
  have hr := Registry.reachable_sound h
  constructor
  · intro doc spec
    obtain ⟨inner, opened, hopen⟩ :=
      withTypeParams_opens hr hs (Source.declaredNames spec.typeParams)
    have hr' := Registry.typeSpec_sound hr hs doc spec
    refine ⟨inner, opened, ?_, fun reg' hok => hopen.typeSpecRead hok⟩
    cases ha : spec.isAlias with
    | false => exact hopen.defined doc ha hr'
    | true => exact hopen.aliased doc ha hr'
  · intro decl
    obtain ⟨inner, opened, hopen⟩ := withTypeParams_opens hr hs (typeParamNames decl)
    have hbody := funcBody_reads hopen.reads hopen.sound (hopen.widens ▸ hopen.inScope) hopen.named
      hopen.made
    rw [← hopen.widens] at hbody
    have hrun : declareFunc scope decl reg = funcBody inner decl opened := bind_eq_of_ok hopen.opens
    have hadds : Adds opened (reg.next (.func scope decl)) := by
      rw [Registry.next, stateAfter, hrun]
      apply hbody.stateAfter (P := Adds opened)
      · rintro _ _ ⟨mid, ty, t, hread, hf, rfl⟩
        exact (Adds.of_extends hread).trans (.of_attach hf)
      · intro _ hfailed
        exact .of_extends hfailed
    refine ⟨inner, opened, hopen.func hadds, ?_⟩
    intro reg' hok
    rw [hrun] at hok
    obtain ⟨mid, ty, t, -, hf, heq⟩ := hbody.of_ok hok
    exact ⟨mid, ty, t, hf, heq⟩

open Registry (newScope newScope_sound newPackage newPackage_course)

def typeParam : Source.Field := ⟨["T"], fun _ => .named "any" [], none, none⟩

def genericList : TypeSpec where
  doc := none
  name := "List"
  typeParams := [typeParam]
  type := .struct [⟨["items"], fun _ => .slice fun _ => .named "T" [], none, none⟩]
  isAlias := false

def genericMethod : FuncDecl where
  doc := none
  receiver := some ⟨["l"], fun _ => .pointer fun _ =>
    .named "List" [fun _ => .named "T" []], none, none⟩
  name := "First"
  typeParams := []
  params := []
  results := [⟨[], fun _ => .named "T" [], none, none⟩]

def listPackage : Registry := newPackage.next (.typeSpec newScope none genericList)

/-- The list and its method have an entry for `T` each, and the package has none for the name. -/
theorem list_params_stay_inside :
    (∃ inner opened,
      ParamsInside newScope ["T"] (some (⟨1⟩, "List")) none newPackage inner opened listPackage ∧
      TypeSpecRead newScope inner genericList opened listPackage) ∧
    (∃ inner opened,
      ParamsInside newScope ["T"] none none listPackage inner opened
        (listPackage.next (.func newScope genericMethod))) ∧
    (listPackage.next (.func newScope genericMethod)).ref? ⟨1⟩ "T" = none := by
  obtain ⟨-, hp⟩ := newPackage_course
  have hnew : Registry.Reachable newPackage :=
    Registry.Reachable.new.next (.append ⟨"p", "p", "", []⟩) trivial
  have hscope := newScope_sound hp
  obtain ⟨htypes, -⟩ := type_parameters_stay_inside hnew hscope
  obtain ⟨inner, opened, hinside, hread⟩ := htypes none genericList
  have hlist : newScope.Sound listPackage :=
    newScope_sound (Option.isSome_iff_exists.mp (by decide +kernel))
  obtain ⟨-, hfuncs⟩ :=
    type_parameters_stay_inside (hnew.next (.typeSpec newScope none genericList) hscope) hlist
  obtain ⟨innerFunc, openedFunc, hfunc, -⟩ := hfuncs genericMethod
  have hok : declareTypeSpec newScope none genericList newPackage = .ok () listPackage :=
    eq_ok_stateAfter (by decide +kernel)
  exact ⟨⟨inner, opened, hinside, hread _ hok⟩, ⟨innerFunc, openedFunc, hfunc⟩,
    by decide +kernel⟩

def bareAlias : TypeSpec where
  doc := none
  name := "T"
  typeParams := [typeParam]
  type := .named "T" []
  isAlias := true

def aliasedPackage : Registry := newPackage.next (.typeSpec newScope none bareAlias)

/-- The alias gives its own name to the new entry of its type parameter, and a later declaration
reads the name as this entry. -/
theorem bareAlias_leads_to_its_param :
    (∃ inner opened, newScope.withTypeParams ["T"] newPackage = .ok inner opened ∧
      inner.typeParams = [("T", ⟨22⟩)] ∧ ¬newPackage.graph.HasRef ⟨22⟩) ∧
    declareTypeSpec newScope none bareAlias newPackage = .ok () aliasedPackage ∧
    newScope.resolveName "T" aliasedPackage =
      .ok ⟨22⟩ (stateAfter (newScope.resolveName "T") aliasedPackage) :=
  ⟨⟨_, _, rfl, by decide +kernel, by decide +kernel⟩, eq_ok_stateAfter (by decide +kernel),
    eq_ok_stateAfter (by decide +kernel)⟩

end GoPackages
