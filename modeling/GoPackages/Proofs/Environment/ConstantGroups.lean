import GoPackages.Proofs.Environment.ItemRuns
import GoPackages.Proofs.Registry.ListedValues

/-!
# What the lines of a group are recorded as

A constant line without a type and without values repeats the last line that had either, not
the line right before it. Names are typed one after the other, each in the place that it has
among the names of its own line.
-/
namespace GoPackages

open Source (ImportSpec ValueSpec Spec GroupKind)
open Registry (Action KeepsValue)
open Environment (Moves)

def Source.ValueSpec.Explicit (line : ValueSpec) : Prop := line.type.isSome ∨ line.values ≠ []

instance (line : ValueSpec) : Decidable line.Explicit :=
  inferInstanceAs (Decidable (_ ∨ ¬line.values = []))

def Source.Spec.valueSpec? : Spec → Option ValueSpec
  | .valueSpec spec => some spec
  | .importSpec _ | .typeSpec _ => none

def valueLines (specs : List Spec) : List ValueSpec := specs.filterMap Spec.valueSpec?

/-- Where the line at `i` takes its type and its values from. Among constants it is the last
explicit line up to this one, or the first line where none is explicit. -/
def IsSource (kind : GroupKind) (lines : List ValueSpec) (i : Nat) (source : ValueSpec) : Prop :=
  if kind = .consts then
    ∃ j ≤ i, lines[j]? = some source ∧ (source.Explicit ∨ j = 0) ∧
      ∀ m line, j < m → m ≤ i → lines[m]? = some line → ¬line.Explicit
  else lines[i]? = some source

/-- Sources among constants in the middle of a group, where `previous` is the line to repeat. -/
def SourceAfter (previous : Option ValueSpec) (lines : List ValueSpec) (i : Nat)
    (source : ValueSpec) : Prop :=
  (∃ j ≤ i, lines[j]? = some source ∧ (source.Explicit ∨ j = 0 ∧ previous = none) ∧
    ∀ m line, j < m → m ≤ i → lines[m]? = some line → ¬line.Explicit) ∨
  previous = some source ∧ ∀ m line, m ≤ i → lines[m]? = some line → ¬line.Explicit

section Sources

variable {kind : GroupKind} {previous : Option ValueSpec} {lines : List ValueSpec}
  {line source : ValueSpec} {i : Nat}

theorem repeatsPrevious_consts (line : ValueSpec) :
    repeatsPrevious .consts line = true ↔ ¬line.Explicit := by
  simp [repeatsPrevious, Source.ValueSpec.Explicit]

theorem valueSource_of_ne (hk : kind ≠ .consts) (previous : Option ValueSpec) (line : ValueSpec) :
    valueSource kind previous line = line := by
  simp [valueSource, repeatsPrevious, hk]

theorem valueSource_explicit (h : line.Explicit) (previous : Option ValueSpec) :
    valueSource .consts previous line = line := by
  have hr : repeatsPrevious .consts line = false :=
    Bool.eq_false_iff.mpr fun hr => (repeatsPrevious_consts line).mp hr h
  rw [valueSource, hr]
  rfl

theorem valueSource_repeats (h : ¬line.Explicit) (previous : Option ValueSpec) :
    valueSource .consts previous line = previous.getD line := by
  rw [valueSource, (repeatsPrevious_consts line).mpr h]
  rfl

theorem sourceAfter_head (previous : Option ValueSpec) (line : ValueSpec)
    (lines : List ValueSpec) :
    SourceAfter previous (line :: lines) 0 (valueSource .consts previous line) := by
  have hnone : ∀ m l, 0 < m → m ≤ 0 → (line :: lines)[m]? = some l → ¬l.Explicit :=
    fun m _ hpos hle => absurd hpos (Nat.not_lt_of_le hle)
  by_cases he : line.Explicit
  · rw [valueSource_explicit he]
    exact .inl ⟨0, Nat.le_refl 0, rfl, .inl he, hnone⟩
  · rw [valueSource_repeats he]
    cases previous with
    | none => exact .inl ⟨0, Nat.le_refl 0, rfl, .inr ⟨rfl, rfl⟩, hnone⟩
    | some source =>
      refine .inr ⟨rfl, fun m l hm hl => ?_⟩
      obtain rfl : m = 0 := Nat.le_zero.mp hm
      cases hl
      exact he

theorem SourceAfter.cons
    (h : SourceAfter (some (valueSource .consts previous line)) lines i source) :
    SourceAfter previous (line :: lines) (i + 1) source := by
  rcases h with ⟨j, hj, hat, hexplicit, hrest⟩ | ⟨hprevious, hrest⟩
  · have hsource : source.Explicit := hexplicit.elim id fun ⟨_, hn⟩ => nomatch hn
    refine .inl ⟨j + 1, Nat.succ_le_succ hj, hat, .inl hsource, fun m l hm hle hl => ?_⟩
    obtain ⟨m, rfl⟩ := Nat.exists_eq_add_of_lt (Nat.zero_lt_of_lt hm)
    simp only [Nat.zero_add, List.getElem?_cons_succ] at hl
    exact hrest m l (by omega) (by omega) hl
  · have hbehind : ∀ m l, 0 < m → m ≤ i + 1 → (line :: lines)[m]? = some l → ¬l.Explicit := by
      intro m l hpos hle hl
      obtain ⟨m, rfl⟩ := Nat.exists_eq_add_of_lt hpos
      simp only [Nat.zero_add, List.getElem?_cons_succ] at hl
      exact hrest m l (by omega) hl
    have hsource := Option.some.inj hprevious
    by_cases he : line.Explicit
    · rw [valueSource_explicit he] at hsource
      subst hsource
      exact .inl ⟨0, Nat.zero_le _, rfl, .inl he, hbehind⟩
    · rw [valueSource_repeats he] at hsource
      cases previous with
      | none =>
        obtain rfl : line = source := hsource
        exact .inl ⟨0, Nat.zero_le _, rfl, .inr ⟨rfl, rfl⟩, hbehind⟩
      | some before =>
        obtain rfl : before = source := hsource
        refine .inr ⟨rfl, fun m l hle hl => ?_⟩
        rcases Nat.eq_zero_or_pos m with rfl | hpos
        · cases hl
          exact he
        · exact hbehind m l hpos hle hl

theorem SourceAfter.isSource (h : SourceAfter none lines i source) :
    IsSource .consts lines i source := by
  rcases h with ⟨j, hj, hat, hexplicit, hrest⟩ | ⟨hn, -⟩
  · exact (if_pos rfl).mpr ⟨j, hj, hat, hexplicit.imp_right And.left, hrest⟩
  · cases hn

/-- Every line of a group is an item of its own, with its source beside it. What follows is read
with this source as the line to repeat. -/
theorem specItems_split (kind : GroupKind) (doc : Option Doc) (specs : List Spec) :
    ∀ (previous : Option ValueSpec) {i : Nat} {line : ValueSpec},
      (valueLines specs)[i]? = some line →
      ∃ front back source, specs = front ++ .valueSpec line :: back ∧
        (valueLines front).length = i ∧
        specItems kind doc previous specs = specItems kind doc previous front ++
          .valueSpec kind doc line source :: specItems kind doc (some source) back ∧
        (kind = .consts → SourceAfter previous (valueLines specs) i source) ∧
        (kind ≠ .consts → source = line) := by
  induction specs with
  | nil => exact fun _ _ _ h => nomatch h
  | cons spec rest ih =>
    intro previous i line h
    cases spec with
    | importSpec spec =>
      obtain ⟨front, back, source, hrest, hlength, heq, hsource⟩ := ih previous h
      exact ⟨.importSpec spec :: front, back, source, congrArg (_ :: ·) hrest, hlength,
        congrArg (_ :: ·) heq, hsource⟩
    | typeSpec spec =>
      obtain ⟨front, back, source, hrest, hlength, heq, hsource⟩ := ih previous h
      exact ⟨.typeSpec spec :: front, back, source, congrArg (_ :: ·) hrest, hlength,
        congrArg (_ :: ·) heq, hsource⟩
    | valueSpec first =>
      have hlines : valueLines (.valueSpec first :: rest) = first :: valueLines rest := rfl
      rw [hlines] at h ⊢
      cases i with
      | zero =>
        cases h
        refine ⟨[], rest, valueSource kind previous line, rfl, rfl, rfl, ?_, fun hk => ?_⟩
        · rintro rfl
          exact sourceAfter_head previous line (valueLines rest)
        · exact valueSource_of_ne hk previous line
      | succ i =>
        obtain ⟨front, back, source, hrest, hlength, heq, hconst, hother⟩ :=
          ih (some (valueSource kind previous first)) h
        refine ⟨.valueSpec first :: front, back, source, congrArg (_ :: ·) hrest,
          congrArg (· + 1) hlength, congrArg (_ :: ·) heq, ?_, hother⟩
        rintro rfl
        exact (hconst rfl).cons

theorem specItems_source (doc : Option Doc) {specs : List Spec}
    (h : (valueLines specs)[i]? = some line) :
    ∃ front back source, specs = front ++ .valueSpec line :: back ∧
      (valueLines front).length = i ∧
      specItems kind doc none specs = specItems kind doc none front ++
        .valueSpec kind doc line source :: specItems kind doc (some source) back ∧
      IsSource kind (valueLines specs) i source := by
  obtain ⟨front, back, source, hspecs, hlength, heq, hconst, hother⟩ :=
    specItems_split kind doc specs none h
  refine ⟨front, back, source, hspecs, hlength, heq, ?_⟩
  by_cases hk : kind = .consts
  · subst hk
    exact (hconst rfl).isSource
  · rw [IsSource, if_neg hk, hother hk]
    exact h

end Sources

/-- How the name at `place` comes to its type. A type that `source` has is read once, before the
names; otherwise a value is looked at for each of them, when the names before have been listed. -/
def TypedFrom (line : FileScope) (kind : GroupKind) (doc : Doc) (names : List String)
    (source : ValueSpec) (place : Nat) (before : Registry) (type : Option RefId) : Prop :=
  match source.type with
  | some written => ∃ r reg, resolveType line written before = .ok r reg ∧ type = some r
  | none =>
    match source.values[place]?.or source.values.head? with
    | some value => ∃ reg reg',
        declareNames line kind doc none source 0 (names.take place) before = .ok () reg ∧
        inferType line value reg = .ok type reg'
    | none => type = none

section Lines

variable {line : FileScope} {kind : GroupKind} {doc : Doc} {declared : Option RefId}
  {source : ValueSpec} {names : List String} {index : Nat} {reg reg' : Registry}

theorem conserving_ok {α : Type} {step : Analysis α} (h : Conserving line reg step) {a : α}
    (hok : step reg = .ok a reg') : Conserves line reg reg' :=
  (h reg (.refl line reg)).of_ok hok

theorem registered_of_conserves (h : Conserves line reg reg')
    (hp : ∃ p, reg.package? line.package = some p) : ∃ p, reg'.package? line.package = some p := by
  obtain ⟨p, hp⟩ := hp
  have hsame := h.packages line.package
  rw [hp, Option.map_some] at hsame
  obtain ⟨p', hp', -⟩ := Option.map_eq_some_iff.mp hsame
  exact ⟨p', hp'⟩

/-- Every name of a line but the blank one is listed with a type of its own place, and stays so
unless the line has the name once more. -/
theorem declareNames_lists (hp : ∃ p, reg.package? line.package = some p)
    (h : declareNames line kind doc declared source index names reg = .ok () reg') {k : Nat}
    {name : String} (hk : names[k]? = some name) (hb : name ≠ "_")
    (hlast : name ∉ names.drop (k + 1)) :
    ∃ type mid mid', declareNames line kind doc declared source index (names.take k) reg =
        .ok () mid ∧
      valueType line declared source (index + k) mid = .ok type mid' ∧
      reg'.value? line.package kind name = some { name, type, doc } := by
  induction names generalizing reg index k with
  | nil => cases hk
  | cons first rest ih =>
    rw [declareNames] at h
    by_cases hfirst : first = "_"
    · subst hfirst
      simp only [ne_eq, not_true, if_false] at h
      cases k with
      | zero => cases hk; exact absurd rfl hb
      | succ k =>
        obtain ⟨type, mid, mid', htake, htype, hlisted⟩ := ih hp h hk hlast
        refine ⟨type, mid, mid', ?_, ?_, hlisted⟩
        · rw [List.take_succ_cons, declareNames]
          simp only [ne_eq, not_true, if_false]
          exact htake
        · rwa [Nat.add_right_comm, Nat.add_assoc] at htype
    · simp only [ne_eq, hfirst, not_false_iff, if_true] at h
      obtain ⟨type₀, mid₀, htype₀, h⟩ := bind_ok h
      have hconserves := conserving_ok (valueType_conserving declared source index reg) htype₀
      obtain ⟨p, hp₀⟩ := registered_of_conserves hconserves hp
      let v : Variable := { name := first, type := type₀, doc }
      have hnext : declareNames line kind doc declared source (index + 1) rest
          (listValue mid₀ line.package kind v) = .ok () reg' := h
      cases k with
      | zero =>
        cases hk
        refine ⟨type₀, reg, mid₀, rfl, htype₀, ?_⟩
        have hkeep : KeepsValue line.package kind name _ reg' :=
          (declareNames_keepsValue doc declared source (fun h => hlast h.2.2) (index + 1)
            (listValue mid₀ line.package kind v)).of_ok hnext
        exact hkeep _ (Registry.value?_listValue hp₀ _)
      | succ k =>
        have hp₁ : ∃ p, (listValue mid₀ line.package kind v).package? line.package = some p :=
          ⟨_, Registry.package?_modifyPackage_self hp₀ _⟩
        obtain ⟨type, mid, mid', htake, htype, hlisted⟩ := ih hp₁ hnext hk hlast
        refine ⟨type, mid, mid', ?_, ?_, hlisted⟩
        · rw [List.take_succ_cons, declareNames]
          simp only [ne_eq, hfirst, not_false_iff, if_true]
          exact (bind_eq_of_ok htype₀).trans htake
        · rwa [Nat.add_right_comm, Nat.add_assoc] at htype

theorem declareValueSpec_lists {groupDoc : Option Doc} {spec : ValueSpec}
    (hp : ∃ p, reg.package? line.package = some p)
    (h : declareValueSpec line kind groupDoc spec source reg = .ok () reg') {place : Nat}
    {name : String} (hk : spec.names[place]? = some name) (hb : name ≠ "_")
    (hlast : name ∉ spec.names.drop (place + 1)) :
    ∃ type, TypedFrom line kind ((spec.doc.or groupDoc).getD []) spec.names source place reg type ∧
      reg'.value? line.package kind name =
        some { name, type, doc := (spec.doc.or groupDoc).getD [] } := by
  obtain ⟨declared, start, hdeclared, h⟩ := bind_ok h
  have hconserves := conserving_ok (declaredType_conserving source reg) hdeclared
  obtain ⟨type, mid, mid', htake, htype, hlisted⟩ :=
    declareNames_lists (registered_of_conserves hconserves hp) h hk hb hlast
  refine ⟨type, ?_, hlisted⟩
  rw [Nat.zero_add] at htype
  unfold TypedFrom
  cases hs : source.type with
  | some written =>
    rw [hs] at hdeclared
    obtain ⟨r, start', hread, hpure⟩ := bind_ok hdeclared
    cases hpure
    cases htype
    exact ⟨r, start, hread, rfl⟩
  | none =>
    rw [hs] at hdeclared
    cases hdeclared
    unfold valueType at htype
    cases hvalue : source.values[place]?.or source.values.head? with
    | some value =>
      rw [hvalue] at htype
      exact ⟨mid, mid', htake, htype⟩
    | none =>
      rw [hvalue] at htype
      cases htype
      rfl

end Lines

/-- The spec does not list a value of this name: it is no line with the name, and no import that
analyzes other files on the spot. -/
def Source.Spec.Spares (name : String) : Spec → Prop
  | .importSpec spec => spec.name ≠ some .dot
  | .typeSpec _ => True
  | .valueSpec spec => name ∉ spec.names

instance (name : String) (spec : Spec) : Decidable (spec.Spares name) :=
  match spec with
  | .importSpec spec => inferInstanceAs (Decidable (spec.name ≠ some .dot))
  | .typeSpec _ => .isTrue trivial
  | .valueSpec spec => inferInstanceAs (Decidable (name ∉ spec.names))

section Later

variable {enter : PackageId → Session Unit} {scope scope' : FileScope} {env env' : Environment}
  {pkg : PackageId} {kind kind' : GroupKind} {name : String}

theorem importSpec_keepsValue {spec : ImportSpec} (hdot : spec.name ≠ some .dot)
    (h : importSpec enter scope spec env = .ok scope' env') :
    KeepsValue pkg kind name env.registry env'.registry := by
  obtain ⟨info, env₁, h₁, h⟩ := bind_ok h
  obtain ⟨-, hreg₁, -⟩ := Session.locate_ok h₁
  obtain ⟨q, env₂, h₂, h⟩ := bind_ok h
  obtain ⟨reg, hensure, rfl⟩ := Session.ensurePackage_ok h₂
  rw [hreg₁] at hensure
  have hkeep : KeepsValue pkg kind name env.registry reg := by
    rcases (Registry.ensurePackage_ok hensure).2 with rfl | happend
    · exact .refl pkg kind name _
    · exact .append happend
  cases hname : spec.name with
  | none => rw [hname] at h; cases h; exact hkeep
  | some qualifier =>
    rw [hname] at h hdot
    cases qualifier with
    | dot => exact absurd rfl hdot
    | blank | named => cases h; exact hkeep

theorem analyzeSpec_keepsValue (hr : env.registry.Sound) (hs : scope.Sound env.registry)
    {doc : Option Doc} {previous previous' : Option ValueSpec} {spec : Spec}
    (hspare : spec.Spares name)
    (h : Session.analyze (analyzeSpec scope kind' doc previous spec) env = .ok previous' env') :
    KeepsValue pkg kind name env.registry env'.registry := by
  obtain ⟨reg, hstep, rfl⟩ := Session.analyze_ok h
  cases spec with
  | importSpec spec => cases hstep; exact .refl pkg kind name _
  | typeSpec spec =>
    obtain ⟨_, mid, hdeclare, hpure⟩ := bind_ok hstep
    cases hpure
    rw [← stateAfter_of_ok hdeclare]
    exact Registry.typeSpec_keepsValue hr hs doc spec
  | valueSpec spec =>
    obtain ⟨_, mid, hdeclare, hpure⟩ := bind_ok hstep
    cases hpure
    rw [← stateAfter_of_ok hdeclare]
    exact declareValueSpec_keepsValue doc _ (fun hlisted => hspare hlisted.2.2) env.registry

/-- What was recorded before outlasts the specs that do not list its name. -/
theorem analyzeSpecs_keepsValue (henter : ∀ q, Safe (enter q)) {doc : Option Doc}
    {specs : List Spec} (hr : env.registry.Sound) (hs : scope.Sound env.registry)
    (hspare : ∀ spec ∈ specs, spec.Spares name) {previous : Option ValueSpec}
    (h : analyzeSpecs enter kind' doc scope previous specs env = .ok scope' env') :
    KeepsValue pkg kind name env.registry env'.registry := by
  induction specs generalizing env scope previous with
  | nil => cases h; exact .refl pkg kind name _
  | cons spec rest ih =>
    have hrest : ∀ later ∈ rest, later.Spares name :=
      fun later hm => hspare later (List.mem_cons_of_mem spec hm)
    have hspec := hspare spec List.mem_cons_self
    cases spec with
    | importSpec spec =>
      obtain ⟨scope₁, env₁, hstep, h⟩ := bind_ok h
      obtain ⟨hmoves, hs₁⟩ := After.of_ok (importSpec_moving henter hr hs spec) hstep
      exact (importSpec_keepsValue hspec hstep).trans (ih (hmoves.sound hr) hs₁ hrest h)
    | typeSpec | valueSpec =>
      obtain ⟨previous₁, env₁, hstep, h⟩ := bind_ok h
      obtain ⟨hmoves, -⟩ := After.of_ok (analyzeSpec_moving hs kind' doc previous _) hstep
      have hkeep : KeepsValue pkg kind name env.registry env₁.registry :=
        analyzeSpec_keepsValue hr hs hspec hstep
      exact hkeep.trans (ih (hmoves.sound hr) (hs.grows (hmoves.grows hr)) hrest h)

end Later

/-- One line of a group, read at `before` in the scope `line`, and what it records. Nothing but a
later line of the package with the same name takes the record away. -/
structure LineRecorded (kind : GroupKind) (groupDoc : Option Doc) (lines : List ValueSpec)
    (i : Nat) (spec source : ValueSpec) (line : FileScope) (before after : Registry) : Prop where
  isSource : IsSource kind lines i source
  run : declareValueSpec line kind groupDoc spec source before = .ok () after
  listed : ∀ place name, spec.names[place]? = some name → name ≠ "_" →
    name ∉ spec.names.drop (place + 1) →
    ∃ v : Variable, v.name = name ∧ v.doc = (spec.doc.or groupDoc).getD [] ∧
      TypedFrom line kind v.doc spec.names source place before v.type ∧
      ∀ actions, after.ValidRun actions →
        (∀ action ∈ actions, ¬action.Redeclares line.package kind name) →
        (after.run actions).value? line.package kind name = some v

theorem LineRecorded.value {kind : GroupKind} {groupDoc : Option Doc} {lines : List ValueSpec}
    {i : Nat} {spec source : ValueSpec} {line : FileScope} {before after reg : Registry}
    (h : LineRecorded kind groupDoc lines i spec source line before after) {k : Nat}
    {name : String} (hk : spec.names[k]? = some name) (hb : name ≠ "_")
    (hlast : name ∉ spec.names.drop (k + 1)) (hkeep : KeepsValue line.package kind name after reg) :
    ∃ type, TypedFrom line kind ((spec.doc.or groupDoc).getD []) spec.names source k before type ∧
      reg.value? line.package kind name =
        some { name, type, doc := (spec.doc.or groupDoc).getD [] } := by
  obtain ⟨v, rfl, hdoc, htyped, hlisted⟩ := h.listed k name hk hb hlast
  rw [hdoc] at htyped
  exact ⟨v.type, htyped, hdoc ▸ hkeep v (hlisted [] trivial fun _ hm => nomatch hm)⟩

/-- In every group that is analyzed to its end, every line is recorded with the types of its
source. The specs in front of it are analyzed before and those behind it afterwards, and where none
of these lists a name again, the package has at the end what was recorded under it, and keeps it
until the name is declared once more. -/
theorem groups_repeat_their_sources {depth : Nat} {env env' : Environment}
    {scope scope' : FileScope} {kind : GroupKind} {groupDoc : Option Doc} {specs : List Spec}
    (hr : env.registry.Sound) (hs : scope.Sound env.registry)
    (h : analyzeDecl (analyzePackage depth) scope (.group kind groupDoc specs) env =
      .ok scope' env') {i : Nat} {spec : ValueSpec} (hi : (valueLines specs)[i]? = some spec) :
    ∃ source line mid after, scope.Widens line ∧ Moves env mid ∧
      LineRecorded kind groupDoc (valueLines specs) i spec source line mid.registry after ∧
      Moves { mid with registry := after } env' ∧
      ∃ front back, specs = front ++ .valueSpec spec :: back ∧ (valueLines front).length = i ∧
        analyzeSpecs (analyzePackage depth) kind groupDoc scope none front env = .ok line mid ∧
        analyzeSpecs (analyzePackage depth) kind groupDoc line (some source) back
          { mid with registry := after } = .ok scope' env' ∧
        ∀ name, (∀ later ∈ back, later.Spares name) → ∀ actions, env'.registry.ValidRun actions →
          (∀ action ∈ actions, ¬action.Redeclares line.package kind name) →
          KeepsValue line.package kind name after (env'.registry.run actions) := by
  have henter := analyzePackage_safe depth
  obtain ⟨front, back, source, hspecs, hlength, hitems, hsource⟩ := specItems_source groupDoc hi
  rw [analyzeDecl_eq, declItems, hitems] at h
  obtain ⟨line, mid, after, hfront, hrun, hback⟩ := valueSpec_runs h
  have hbefore := items_run henter hr hs hfront
  have hmid := hbefore.moves.sound hr
  have hmoves := valueSpec_moves hbefore.sound hrun
  have hafter : after.Sound := hmoves.sound hmid
  have hline : line.Sound after := hbefore.sound.grows (hmoves.grows hmid)
  have hbehind := items_run henter hafter hline hback
  rw [← analyzeSpecs_eq] at hfront hback
  refine ⟨source, line, mid, after, hbefore.widens, hbefore.moves, ⟨hsource, hrun, ?_⟩,
    hbehind.moves, front, back, hspecs, hlength, hfront, hback, ?_⟩
  · intro place name hk hb hlast
    obtain ⟨type, htyped, hlisted⟩ :=
      declareValueSpec_lists hbefore.sound.package hrun hk hb hlast
    refine ⟨{ name, type, doc := (spec.doc.or groupDoc).getD [] }, rfl, rfl, htyped, ?_⟩
    exact fun actions hv hlater => Registry.run_keepsValue hafter hv hlater _ hlisted
  · intro name hspare actions hv hlater
    have hgroup : KeepsValue line.package kind name after env'.registry :=
      analyzeSpecs_keepsValue henter hafter hline hspare hback
    exact hgroup.trans (Registry.run_keepsValue (hbehind.moves.sound hafter) hv hlater)

open Environment (onePackage onePackageScope onePackage_reachable onePackageScope_sound)

/-- The constants `A = iota`, `B, _, C`, `D string = "d"` and `E` in four lines of a group. -/
def counters : List Spec :=
  [.valueSpec ⟨none, ["A"], none, [.ident "iota"]⟩,
    .valueSpec ⟨some ["// two more"], ["B", "_", "C"], none, []⟩,
    .valueSpec ⟨none, ["D"], some (.named "string" []), [.literal .string "d"]⟩,
    .valueSpec ⟨none, ["E"], none, []⟩]

theorem counters_around {front back : List Spec} {spec : ValueSpec}
    (h : counters = front ++ .valueSpec spec :: back) :
    front = counters.take (valueLines front).length ∧
      back = counters.drop ((valueLines front).length + 1) := by
  have hall : ∀ spec ∈ counters, (Spec.valueSpec? spec).isSome = true := by decide
  have hlength : (valueLines front).length = front.length :=
    List.filterMap_length_eq_length.mpr fun spec hm => hall spec (h ▸ List.mem_append_left _ hm)
  rw [hlength, h, List.take_left, ← List.drop_drop, List.drop_left]
  exact ⟨rfl, rfl⟩

/-- The second line repeats the first one and the fourth one the third, so `C` is an `int` and `E`
is a `string`. -/
theorem counters_repeat_their_sources :
    ∃ scope' env', analyzeDecl (analyzePackage 0) onePackageScope
        (.group .consts (some ["// all"]) counters) onePackage = .ok scope' env' ∧
      (∃ source line mid after, onePackageScope.Widens line ∧ Moves onePackage mid ∧
        LineRecorded .consts (some ["// all"]) (valueLines counters) 1
          ⟨some ["// two more"], ["B", "_", "C"], none, []⟩ source line mid.registry after ∧
        Moves { mid with registry := after } env') ∧
      Registry.new.ref? Registry.builtinId "int" = some ⟨7⟩ ∧
      env'.registry.value? ⟨1⟩ .consts "C" = some ⟨"C", some ⟨7⟩, ["// two more"]⟩ ∧
      Registry.new.ref? Registry.builtinId "string" = some ⟨13⟩ ∧
      env'.registry.value? ⟨1⟩ .consts "E" = some ⟨"E", some ⟨13⟩, ["// all"]⟩ := by
  have hend : After (analyzeDecl (analyzePackage 0) onePackageScope
      (.group .consts (some ["// all"]) counters)) onePackage (fun _ _ => True)
      fun _ => False := by decide +kernel
  obtain ⟨scope', env', hok⟩ := hend.exists_ok
  have hsound := Registry.reachable_sound onePackage_reachable.registry
  obtain ⟨source, line, mid, after, hwidens, hbefore, hsecond, hbehind, front, back, hsplit,
    hlength, hfront, -, hkeep⟩ :=
    groups_repeat_their_sources hsound onePackageScope_sound hok (i := 1) rfl
  have hC : env'.registry.value? ⟨1⟩ .consts "C" = some ⟨"C", some ⟨7⟩, ["// two more"]⟩ := by
    obtain ⟨hf, hb⟩ := counters_around hsplit
    rw [hlength] at hf hb
    subst hf hb
    obtain ⟨type, htyped, hlisted⟩ := hsecond.value (k := 2) rfl (by decide) (by decide)
      (hkeep "C" (by decide) [] trivial nofun)
    obtain rfl : ⟨none, ["A"], none, [.ident "iota"]⟩ = source := by
      obtain ⟨j, hj, hat, hexplicit, -⟩ := (if_pos rfl).mp hsecond.isSource
      match j, hj with
      | 0, _ => exact Option.some.inj hat
      | 1, _ =>
        cases hat
        exact absurd hexplicit (by decide)
    obtain ⟨reg, reg', hnames, htype⟩ := htyped
    have hread : After (analyzeSpecs (analyzePackage 0) .consts (some ["// all"]) onePackageScope
        none (counters.take 1)) onePackage (fun line mid =>
          After (declareNames line .consts ["// two more"] none
              ⟨none, ["A"], none, [.ident "iota"]⟩ 0 ["B", "_"]) mid.registry (fun _ reg =>
            After (inferType line (.ident "iota")) reg (fun type _ => type = some ⟨7⟩)
              fun _ => True)
          fun _ => True) fun _ => True := by decide +kernel
    obtain rfl : type = some ⟨7⟩ := ((hread.of_ok hfront).of_ok hnames).of_ok htype
    rwa [hwidens.package] at hlisted
  have hE : env'.registry.value? ⟨1⟩ .consts "E" = some ⟨"E", some ⟨13⟩, ["// all"]⟩ := by
    obtain ⟨source, line, mid, after, hwidens, -, hfourth, -, front, back, hsplit, hlength, hfront,
      -, hkeep⟩ := groups_repeat_their_sources hsound onePackageScope_sound hok (i := 3) rfl
    obtain ⟨hf, hb⟩ := counters_around hsplit
    rw [hlength] at hf hb
    subst hf hb
    obtain ⟨type, htyped, hlisted⟩ := hfourth.value (k := 0) rfl (by decide) (by decide)
      (hkeep "E" (by decide) [] trivial nofun)
    obtain rfl : ⟨none, ["D"], some (.named "string" []), [.literal .string "d"]⟩ = source := by
      obtain ⟨j, hj, hat, hexplicit, hrest⟩ := (if_pos rfl).mp hfourth.isSource
      match j, hj with
      | 0, _ | 1, _ => exact absurd (by decide) (hrest 2 _ (by decide) (by decide) rfl)
      | 2, _ => exact Option.some.inj hat
      | 3, _ =>
        cases hat
        exact absurd hexplicit (by decide)
    obtain ⟨r, reg, hresolve, rfl⟩ := htyped
    have hread : After (analyzeSpecs (analyzePackage 0) .consts (some ["// all"]) onePackageScope
        none (counters.take 3)) onePackage (fun line mid =>
          After (resolveType line (.named "string" [])) mid.registry (fun r _ => r = ⟨13⟩)
            fun _ => True) fun _ => True := by decide +kernel
    obtain rfl : r = ⟨13⟩ := (hread.of_ok hfront).of_ok hresolve
    rwa [hwidens.package] at hlisted
  exact ⟨scope', env', hok, ⟨source, line, mid, after, hwidens, hbefore, hsecond, hbehind⟩,
    by decide +kernel, hC, by decide +kernel, hE⟩

end GoPackages
