import GoPackages.Proofs.Environment.Isolation
import GoPackages.Proofs.Environment.Settles

/-!
# Sessions stay well-formed

A new registry is well-formed, and so is the registry after any requests, also after those
that failed half way. Nothing is ever stored under an identity that does not exist.
-/
namespace GoPackages

open Source (SourceFile)
open Registry (Edit Edits Retains WellFormed)

namespace Registry

variable {reg : Registry}

theorem declares_edits {pkg : PackageId} (names : List String) {reg : Registry}
    (hr : reg.WellFormed) (hp : reg.Registered pkg) :
    Edits reg (names.foldl (fun reg name => (reg.declare pkg name .base).2) reg) := by
  induction names generalizing reg with
  | nil => exact .refl
  | cons name rest ih =>
    have hfirst := declare_edits hr hp .base trivial rfl name
    obtain ⟨hkeep, hwell⟩ := hfirst.wellFormed hr
    exact hfirst.trans (ih hwell (hkeep.packages pkg hp))

theorem declareError_edits (hr : reg.WellFormed) {pkg : PackageId} (hp : reg.Registered pkg) :
    Edits reg (reg.declareError pkg) := by
  have hiface := declare_edits hr hp (.interface {}) (fun _ _ h => (by cases h)) rfl "error"
  obtain ⟨hkeep, hwell⟩ := hiface.wellFormed hr
  unfold declareError
  dsimp only
  split
  next => exact hiface
  next string hstring =>
    let data : TypeData :=
      { name := "Error", package := some pkg, kind := .method { results := [⟨"", string⟩] } }
    have hfits : (reg.declare pkg "error" (.interface {})).2.TypeFits data := by
      refine ⟨fun q hq => Option.some.inj hq ▸ hkeep.packages pkg hp, ⟨?_, ?_, ?_⟩, ?_⟩
      · exact fun _ h => (by cases h)
      · exact fun _ h => (by cases h)
      · exact fun a ha => List.mem_singleton.mp ha ▸ hwell.hasRef_of_ref? hstring
      · exact fun _ h => (by cases h)
    have hself := TypeGraph.typeAt?_addType_self
      (reg.declare pkg "error" (.interface {})).2.graph data
    refine (hiface.tail (.addType hfits rfl)).tail (.addInterfaceMethod ?_ ?_ _)
    · exact Option.map_eq_some_iff.mpr ⟨data, hself, rfl⟩
    · exact Option.map_eq_some_iff.mpr ⟨data, hself, rfl⟩

theorem new_wellFormed : Registry.new.WellFormed := by
  let builtin : Package := { name := builtinPath, importPath := builtinPath }
  let start : Registry := { packages := #[] }
  have hstart : start.WellFormed := by
    refine ⟨Nat.zero_lt_one, fun r e he => ?_, fun ty data hd => ?_, fun q p hp => ?_⟩
    · have hr : r.index < 1 := TypeGraph.hasRef_of_entryAt? he
      obtain ⟨i⟩ := r
      obtain rfl : i = 0 := Nat.lt_one_iff.mp hr
      obtain rfl := Option.some.inj he
      refine ⟨fun _ h => (by cases h), fun ty h => ?_, fun _ _ h => (by cases h)⟩
      exact Option.some.inj h ▸ Nat.zero_lt_one
    · have hr : ty.index < 1 := TypeGraph.hasType_of_typeAt? hd
      obtain ⟨i⟩ := ty
      obtain rfl : i = 0 := Nat.lt_one_iff.mp hr
      obtain rfl := Option.some.inj hd
      exact ⟨fun _ h => (by cases h), fun _ _ h => (by cases h), fun _ h => (by cases h)⟩
    · cases hp
  have hempty := hstart.push (packageFits_ofInfo start ⟨builtinPath, builtinPath, "", []⟩)
  have hreg : Registered { start with packages := start.packages.push builtin } ⟨0⟩ :=
    ⟨builtin, rfl⟩
  have hbase := declares_edits baseTypeNames hempty hreg
  obtain ⟨hkeep₁, hwell₁⟩ := hbase.wellFormed hempty
  have hany : Edit _ _ := .register hwell₁.emptyInterface ⟨0⟩ "any"
  obtain ⟨hkeep₂, hwell₂⟩ := hany.wellFormed hwell₁
  have herror := declareError_edits hwell₂ (hkeep₂.packages _ (hkeep₁.packages _ hreg))
  exact (herror.wellFormed hwell₂).2.modifyPackage ⟨0⟩ fun p hp => { hp with }

theorem mem_addMissing {known found : List TypeId} {ty : TypeId} (h : ty ∈ addMissing known found) :
    ty ∈ known ∨ ty ∈ found := by
  rw [addMissing_eq] at h
  rcases List.mem_append.mp h with hm | hm
  · exact .inl hm
  · exact .inr (List.mem_of_mem_filter (List.mem_eraseDups.mp hm))

theorem recordStruct_wellFormed (hr : reg.WellFormed) {interfaces : List TypeId}
    (hi : ∀ i ∈ interfaces, reg.graph.HasType i) (ty : TypeId) :
    Retains reg { reg with graph := (reg.graph.recordStruct interfaces ty).2 } ∧
      WellFormed { reg with graph := (reg.graph.recordStruct interfaces ty).2 } := by
  unfold TypeGraph.recordStruct
  split
  · exact ⟨.refl reg, hr⟩
  next type htype =>
    have hall : ∀ i ∈ addMissing type.interfaces (interfaces.filter (reg.graph.implements ty)),
        reg.graph.HasType i := by
      intro i hmem
      rcases mem_addMissing hmem with hmem | hmem
      · unfold TypeGraph.structType? at htype
        split at htype
        next old hk =>
          obtain ⟨data, hd, hkind⟩ := typeAt?_of_kind? hk
          obtain rfl := Option.some.inj htype
          have hfits : reg.graph.KindFits (.struct old) := hkind ▸ (hr.types ty data hd).kind
          exact hfits.2 i hmem
        next => cases htype
      · exact hi i (List.mem_of_mem_filter hmem)
    exact modifyStruct_wellFormed hr ty fun old hfits => ⟨hfits.1, hall⟩

theorem recordStructs_wellFormed (tys : List TypeId) {g : TypeGraph} {interfaces : List TypeId}
    (hr : WellFormed { reg with graph := g }) (hi : ∀ i ∈ interfaces, g.HasType i) :
    Retains { reg with graph := g } { reg with graph := (g.recordStructs interfaces tys).2 } ∧
      WellFormed { reg with graph := (g.recordStructs interfaces tys).2 } := by
  induction tys generalizing g with
  | nil => exact ⟨.refl _, hr⟩
  | cons ty rest ih =>
    obtain ⟨hkeep, hwell⟩ := recordStruct_wellFormed hr hi ty
    obtain ⟨hrest, hlast⟩ := ih hwell fun i hmem => hkeep.hasType (hi i hmem)
    exact ⟨hkeep.trans hrest, hlast⟩

theorem recordImplementations_wellFormed (hr : reg.WellFormed) (pkg : PackageId) :
    Retains reg (reg.recordImplementations pkg).2 ∧
      (reg.recordImplementations pkg).2.WellFormed := by
  unfold recordImplementations
  split
  · exact ⟨.refl reg, hr⟩
  next p hp =>
    exact recordStructs_wellFormed p.structs.ids hr fun i hmem =>
      hasType_of_form? ((hr.packages pkg p hp).interfaces.1 i hmem)

end Registry

theorem analyzePackage_settles (depth : Nat) (pkg : PackageId) {env : Environment}
    (hr : env.registry.WellFormed) :
    Settles True env (analyzePackage depth pkg) fun _ _ => True := by
  induction depth generalizing pkg env with
  | zero =>
    unfold analyzePackage
    refine Settles.after_get ?_
    split
    · exact settles_pure hr trivial
    · exact ⟨trivial, .refl hr⟩
  | succ depth ih =>
    unfold analyzePackage
    refine Settles.after_get ?_
    split
    · exact settles_pure hr trivial
    · have henter : Entering True (fun _ _ => True) (analyzePackage depth) :=
        fun _ q hr _ => ih q hr
      exact explore_settles henter hr fun _ _ _ _ file _ =>
        fileAllowed_of_all (fun _ _ => trivial) env file

namespace Environment

structure WellFormed (env : Environment) : Prop where
  registry : env.registry.WellFormed
  builtin : ∀ q, env.builtin = some q → env.registry.Registered q

structure Lasts (env env' : Environment) : Prop where
  wellFormed : env'.registry.WellFormed
  retains : Retains env.registry env'.registry
  builtin : env'.builtin = env.builtin

variable {env mid env' : Environment}

theorem Lasts.trans (h : Lasts env mid) (h' : Lasts mid env') : Lasts env env' :=
  ⟨h'.wellFormed, h.retains.trans h'.retains, h'.builtin.trans h.builtin⟩

theorem Lasts.keeps (h : Lasts env env') (hw : env.WellFormed) : env'.WellFormed :=
  ⟨h.wellFormed, fun q hq => h.retains.packages q (hw.builtin q (h.builtin ▸ hq))⟩

end Environment

open Environment (Lasts)

theorem Follows.lasts {env env' : Environment} (h : Follows env env') : Lasts env env' :=
  ⟨h.wellFormed, h.retains, h.setup.builtin⟩

section Requests

variable {env : Environment}

theorem Settles.lasts {α : Type} {deep : Prop} {m : Session α} {good : α → Environment → Prop}
    (h : Settles deep env m good) : After m env (fun _ env' => Lasts env env') (Lasts env) := by
  unfold After
  unfold Settles at h
  cases hm : m env with
  | ok a env' => rw [hm] at h; exact h.1.lasts
  | error e env' =>
    rw [hm] at h
    cases e with
    | failed e => exact Follows.lasts h
    | tooDeep => exact h.2.lasts

theorem lasts_bind {α β : Type} {m : Session α} {k : α → Session β}
    (h : After m env (fun _ env' => Lasts env env') (Lasts env))
    (hk : ∀ a mid, Lasts env mid → After (k a) mid (fun _ env' => Lasts mid env') (Lasts mid)) :
    After (m >>= k) env (fun _ env' => Lasts env env') (Lasts env) :=
  After.bind h (fun a mid hm => (hk a mid hm).mono (fun _ _ h => hm.trans h) fun _ h => hm.trans h)
    fun _ h => h

theorem append_lasts (hr : env.registry.WellFormed) (info : PackageInfo) :
    After (Session.append (.ofInfo info)) env (fun _ env' => Lasts env env') (Lasts env) := by
  have hrefl : Lasts env env := ⟨hr, .refl _, rfl⟩
  unfold Session.append
  simp only [after_bind, after_get]
  cases h : env.registry.append (.ofInfo info) with
  | ok found =>
    obtain ⟨hkeep, hwell⟩ := Registry.append_wellFormed hr (Registry.packageFits_ofInfo _ info) h
    exact ⟨hwell, hkeep, rfl⟩
  | error e => exact hrefl

theorem ensurePackage_lasts (hr : env.registry.WellFormed) (info : PackageInfo) :
    After (Session.ensurePackage info) env (fun _ env' => Lasts env env') (Lasts env) := by
  have hrefl : Lasts env env := ⟨hr, .refl _, rfl⟩
  unfold Session.ensurePackage Registry.ensurePackage
  simp only [after_bind, after_get]
  split
  · exact hrefl
  · cases h : env.registry.append (.ofInfo info) with
    | ok found =>
      obtain ⟨hkeep, hwell⟩ := Registry.append_wellFormed hr (Registry.packageFits_ofInfo _ info) h
      exact ⟨hwell, hkeep, rfl⟩
    | error e => exact hrefl

theorem located_lasts (depth : Nat) {find : Session PackageInfo}
    (hfind : After find env (fun _ env' => Lasts env env') (Lasts env)) :
    After (do
      let pkg ← Session.ensurePackage (← find)
      analyzePackage depth pkg
      return pkg) env (fun _ env' => Lasts env env') (Lasts env) := by
  refine lasts_bind hfind fun info env₁ h₁ => ?_
  refine lasts_bind (ensurePackage_lasts h₁.wellFormed info) fun q env₂ h₂ => ?_
  refine lasts_bind (analyzePackage_settles depth q h₂.wellFormed).lasts fun _ env₃ h₃ => ?_
  exact ⟨h₃.wellFormed, .refl _, rfl⟩

theorem importPackage_lasts (hr : env.registry.WellFormed) (depth : Nat) (path : String) :
    After (importPackage depth path) env (fun _ env' => Lasts env env') (Lasts env) := by
  have hlocated : After (importPackage.locateAndAnalyze depth path) env
      (fun _ env' => Lasts env env') (Lasts env) := by
    have hfind : Settles True env (Session.locate path) _ := locate_settles hr path
    exact located_lasts depth hfind.lasts
  unfold importPackage
  simp only [after_bind, after_get]
  split
  · split
    · exact ⟨hr, .refl _, rfl⟩
    · exact hlocated
  · exact hlocated

theorem importDir_lasts (hr : env.registry.WellFormed) (depth : Nat) (dir : String) :
    After (importDir depth dir) env (fun _ env' => Lasts env env') (Lasts env) := by
  have hfind : Settles True env (Session.locateDir dir) _ := locateDir_settles hr dir
  exact located_lasts depth hfind.lasts

end Requests

namespace Environment

variable {env : Environment}

def Names (env : Environment) : Request → Prop
  | .ensureRef pkg _ | .analyzeFile _ pkg _ | .analyzePackage _ pkg | .recordImplementations pkg =>
    env.registry.Registered pkg
  | .append _ | .importPackage _ _ | .importDir _ _ | .setListener _ | .setTagDecoder _ => True

/-- The session after requests that may fail, each of them made all the same. -/
def performAll (env : Environment) (requests : List Request) : Environment :=
  requests.foldl perform env

def NamesAll (env : Environment) : List Request → Prop
  | [] => True
  | request :: rest => env.Names request ∧ NamesAll (env.perform request) rest

instance (reg : Registry) (pkg : PackageId) : Decidable (reg.Registered pkg) :=
  decidable_of_iff ((reg.package? pkg).isSome = true) Option.isSome_iff_exists

instance (env : Environment) (request : Request) : Decidable (env.Names request) :=
  match request with
  | .ensureRef pkg _ | .analyzeFile _ pkg _ | .analyzePackage _ pkg | .recordImplementations pkg =>
    inferInstanceAs (Decidable (env.registry.Registered pkg))
  | .append _ | .importPackage _ _ | .importDir _ _ | .setListener _ | .setTagDecoder _ =>
    .isTrue trivial

instance decidableNamesAll (env : Environment) (requests : List Request) :
    Decidable (env.NamesAll requests) :=
  match requests with
  | [] => .isTrue trivial
  | request :: rest =>
    have := decidableNamesAll (env.perform request) rest
    inferInstanceAs (Decidable (env.Names request ∧ (env.perform request).NamesAll rest))

theorem Names.accepts {request : Request} (h : env.Names request) : env.Accepts request := by
  cases request with
  | analyzeFile depth pkg file => exact h
  | _ => trivial

theorem performAll_append (env : Environment) (front back : List Request) :
    env.performAll (front ++ back) = (env.performAll front).performAll back := List.foldl_append

theorem namesAll_append {front back : List Request} :
    env.NamesAll (front ++ back) ↔ env.NamesAll front ∧ (env.performAll front).NamesAll back := by
  induction front generalizing env with
  | nil => exact ⟨fun h => ⟨trivial, h⟩, fun h => h.2⟩
  | cons request rest ih => exact (and_congr_right fun _ => ih).trans and_assoc.symm

theorem performAll_moves (hr : env.registry.Sound) {requests : List Request}
    (hn : env.NamesAll requests) : Moves env (env.performAll requests) := by
  induction requests generalizing env with
  | nil => exact .of_eq rfl
  | cons request rest ih =>
    have hfirst := perform_moves hr hn.1.accepts
    exact hfirst.trans (ih (hfirst.sound hr) hn.2)

theorem perform_lasts (hr : env.registry.WellFormed) {request : Request}
    (hn : env.Names request) : Lasts env (env.perform request) := by
  have hafter : ∀ {α : Type} {m : Session α},
      After m env (fun _ env' => Lasts env env') (Lasts env) → Lasts env (stateAfter m env) :=
    fun h => h.anyhow
  cases request with
  | append info => exact hafter (append_lasts hr info)
  | ensureRef pkg name =>
    obtain ⟨hkeep, hwell⟩ := Registry.ensureRef_wellFormed hr hn name
    exact ⟨hwell, hkeep, rfl⟩
  | importPackage depth path => exact hafter (importPackage_lasts hr depth path)
  | importDir depth dir => exact hafter (importDir_lasts hr depth dir)
  | analyzeFile depth pkg file =>
    have henter : Entering True (fun _ _ => True) (GoPackages.analyzePackage depth) :=
      fun _ q hr _ => analyzePackage_settles depth q hr
    exact hafter (analyzeFileWith_settles henter hr hn
      (fileAllowed_of_all (fun _ _ => trivial) env file)).lasts
  | analyzePackage depth pkg => exact hafter (analyzePackage_settles depth pkg hr).lasts
  | recordImplementations pkg =>
    obtain ⟨hkeep, hwell⟩ := Registry.recordImplementations_wellFormed hr pkg
    exact ⟨hwell, hkeep, rfl⟩
  | setListener listener => exact ⟨hr, .refl _, rfl⟩
  | setTagDecoder tagDecoder => exact ⟨hr, .refl _, rfl⟩

theorem wellFormed_performAll (hw : env.WellFormed) {requests : List Request}
    (hn : env.NamesAll requests) : (env.performAll requests).WellFormed := by
  induction requests generalizing env with
  | nil => exact hw
  | cons request rest ih => exact ih ((perform_lasts hw.registry hn.1).keeps hw) hn.2

theorem new_wellFormed (currentDir : Option String) (locator : Locator) (parser : SourceParser) :
    (Environment.new currentDir locator parser).WellFormed where
  registry := Registry.new_wellFormed
  builtin q hq := by
    obtain ⟨hpath, -⟩ := Option.filter_eq_some_iff.mp hq
    obtain ⟨⟨p, hp, -⟩, -⟩ := Registry.byPath?_eq_some_iff.mp hpath
    exact ⟨p, hp⟩

/-- Whatever is asked of a new session, and whatever of it fails, everything that the session
stores by its identity exists, and all of it is of its kind. -/
theorem session_stays_wellFormed (currentDir : Option String) (locator : Locator)
    (parser : SourceParser) {requests : List Request}
    (h : (Environment.new currentDir locator parser).NamesAll requests) :
    ((Environment.new currentDir locator parser).performAll requests).WellFormed :=
  wellFormed_performAll (new_wellFormed currentDir locator parser) h

/-- An alias that reaches itself through a pointer, which is refused. -/
def aliasOfItself : Source.TypeSpec where
  doc := none
  name := "B"
  typeParams := []
  type := .pointer fun _ => .named "B" []
  isAlias := true

/-- A file that fails in its third declaration, and requests after it. -/
def failsHalfWay : List Request :=
  [.append ⟨"p", "p", "", []⟩,
    .analyzeFile 0 ⟨1⟩ ⟨"p", none, [.group .types none
      [.typeSpec structA, .typeSpec aliasOfInt, .typeSpec aliasOfItself]]⟩,
    .ensureRef ⟨1⟩ "C", .recordImplementations ⟨1⟩]

theorem failsHalfWay_stays_wellFormed :
    (Environment.new none noPackages noFiles).NamesAll failsHalfWay ∧
      ((Environment.new none noPackages noFiles).performAll failsHalfWay).WellFormed := by
  have h : (Environment.new none noPackages noFiles).NamesAll failsHalfWay := by
    refine ⟨trivial, ?_, ?_, ?_, trivial⟩
    · exact Option.isSome_iff_exists.mp (by decide +kernel)
    · exact Option.isSome_iff_exists.mp (by decide +kernel)
    · exact Option.isSome_iff_exists.mp (by decide +kernel)
  exact ⟨h, session_stays_wellFormed none noPackages noFiles h⟩

end Environment

end GoPackages
