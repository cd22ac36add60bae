import GoPackages.Proofs.Environment.Moves

/-!
# Isolation of packages in a session

Requests to a session in any order, and what the declaration of a type may touch at any
moment of them. A declaration stays with the names of its package unless it meets a name of
another owner in the package's own table, where only an earlier alias can have put it.
-/
namespace GoPackages

open Source (SourceFile TypeSpec)
open Registry (Action KeepsBuiltins builtinId)

namespace Environment

inductive Request where
  | append (info : PackageInfo)
  | ensureRef (pkg : PackageId) (name : String)
  | importPackage (depth : Nat) (importPath : String)
  | importDir (depth : Nat) (dir : String)
  | analyzeFile (depth : Nat) (pkg : PackageId) (file : SourceFile)
  | analyzePackage (depth : Nat) (pkg : PackageId)
  | recordImplementations (pkg : PackageId)
  | setListener (listener : Listener)
  | setTagDecoder (tagDecoder : TagDecoder)

/-- Files are analyzed as part of registered packages. -/
def Accepts (env : Environment) : Request → Prop
  | .analyzeFile _ pkg _ => ∃ p, env.registry.package? pkg = some p
  | _ => True

def perform (env : Environment) : Request → Environment
  | .append info => stateAfter (Session.append (.ofInfo info)) env
  | .ensureRef pkg name => { env with registry := (env.registry.ensureRef pkg name).2 }
  | .importPackage depth importPath => stateAfter (GoPackages.importPackage depth importPath) env
  | .importDir depth dir => stateAfter (GoPackages.importDir depth dir) env
  | .analyzeFile depth pkg file => stateAfter (GoPackages.analyzeFile depth pkg file) env
  | .analyzePackage depth pkg => stateAfter (GoPackages.analyzePackage depth pkg) env
  | .recordImplementations pkg =>
    { env with registry := (env.registry.recordImplementations pkg).2 }
  | .setListener listener => env.setListener listener
  | .setTagDecoder tagDecoder => env.setTagDecoder tagDecoder

inductive Reachable : Environment → Prop where
  | new (currentDir : Option String) (locator : Locator) (parser : SourceParser) :
      Reachable (.new currentDir locator parser)
  | perform {env : Environment} (request : Request) : Reachable env → env.Accepts request →
      Reachable (env.perform request)

variable {env : Environment}

theorem Moves.of_moving {α : Type} {m : Session α} {good : α → Environment → Prop}
    (h : Moving env m good) : Moves env (stateAfter m env) :=
  h.stateAfter (fun _ _ h => h.1) fun _ h => h

theorem locateAndAnalyze_safe (depth : Nat) (importPath : String) :
    Safe (importPackage.locateAndAnalyze depth importPath) := by
  intro env hr
  refine Moving.bind (locate_safe importPath env hr) fun info env₁ h₁ _ => ?_
  refine Moving.bind (ensurePackage_moving env₁ info) fun q env₂ h₂ _ => ?_
  have hr₂ := h₂.sound (h₁.sound hr)
  exact Moving.bind (analyzePackage_safe depth q env₂ hr₂) fun _ _ _ _ => moving_pure trivial

theorem importPackage_safe (depth : Nat) (importPath : String) :
    Safe (GoPackages.importPackage depth importPath) := by
  intro env hr
  unfold GoPackages.importPackage
  refine Moving.after_get ?_
  dsimp only
  split
  · split
    · exact moving_pure trivial
    · exact locateAndAnalyze_safe depth importPath env hr
  · exact locateAndAnalyze_safe depth importPath env hr

theorem importDir_safe (depth : Nat) (dir : String) : Safe (GoPackages.importDir depth dir) := by
  intro env hr
  refine Moving.bind (locateDir_safe dir env hr) fun info env₁ h₁ _ => ?_
  refine Moving.bind (ensurePackage_moving env₁ info) fun q env₂ h₂ _ => ?_
  have hr₂ := h₂.sound (h₁.sound hr)
  exact Moving.bind (analyzePackage_safe depth q env₂ hr₂) fun _ _ _ _ => moving_pure trivial

theorem perform_moves (hr : env.registry.Sound) {request : Request} (ha : env.Accepts request) :
    Moves env (env.perform request) := by
  cases request with
  | append info => exact .of_moving (append_moving env info)
  | ensureRef pkg name => exact .one (.ensureRef pkg name) trivial rfl
  | importPackage depth importPath => exact .of_moving (importPackage_safe depth importPath env hr)
  | importDir depth dir => exact .of_moving (importDir_safe depth dir env hr)
  | analyzeFile depth pkg file =>
    exact .of_moving (analyzeFileWith_moving (analyzePackage_safe depth) hr ha file)
  | analyzePackage depth pkg => exact .of_moving (analyzePackage_safe depth pkg env hr)
  | recordImplementations pkg => exact .one (.recordImplementations pkg) trivial rfl
  | setListener listener => exact .of_eq rfl
  | setTagDecoder tagDecoder => exact .of_eq rfl

/-- The registry of a session is what a run of actions makes of a new registry. -/
theorem Reachable.run (h : env.Reachable) :
    ∃ actions, Registry.new.ValidRun actions ∧ Registry.new.run actions = env.registry := by
  induction h with
  | new currentDir locator parser => exact ⟨[], trivial, rfl⟩
  | perform request _ ha ih =>
    obtain ⟨past, hv, hr⟩ := ih
    have hsound := (Registry.run_sound Registry.new_sound hv).1
    rw [hr] at hsound
    obtain ⟨actions, hv', hr'⟩ := perform_moves hsound ha
    refine ⟨past ++ actions, hv.append (hr.symm ▸ hv'), ?_⟩
    rw [Registry.run_append, hr, hr']

theorem Reachable.registry (h : env.Reachable) : env.registry.Reachable := by
  obtain ⟨actions, hv, hr⟩ := h.run
  exact hr ▸ Registry.Reachable.new.run hv

/-- At every moment of a session, a declaration of a type touches no name of another owner
exactly where it does not clash with one. The predeclared names keep their types over every
run without a clash and without a type for their own package. -/
theorem type_declarations_isolated (h : env.Reachable) {actions : List Action}
    (hv : env.registry.ValidRun actions) :
    (∀ scope doc spec, scope.Sound (env.registry.run actions) →
      (Registry.Isolated scope.package (env.registry.run actions)
          ((env.registry.run actions).next (.typeSpec scope doc spec)) ↔
        ¬Registry.Clashes (env.registry.run actions) scope doc spec)) ∧
    KeepsBuiltins .new .new ∧
    (KeepsBuiltins .new env.registry → env.registry.CleanRun actions →
      KeepsBuiltins .new (env.registry.run actions)) := by
  have hr := Registry.reachable_sound h.registry
  refine ⟨fun scope doc spec hs => ?_, Registry.keepsBuiltins_refl Registry.new_predeclares, ?_⟩
  · exact Registry.typeSpec_isolated_iff (Registry.run_sound hr hv).1 hs
  · exact fun hk hc => Registry.clean_run_keeps_builtins Registry.new_predeclares hr hk hv hc

def noPackages : Locator where
  locate _ _ := .error .builtinNotFound
  locateDir _ := .error .builtinNotFound

def noFiles : SourceParser := fun _ => .error .builtinNotFound

def onePackage : Environment :=
  (Environment.new none noPackages noFiles).perform (.append ⟨"p", "p", "", []⟩)

theorem onePackage_reachable : Reachable onePackage :=
  .perform (.append ⟨"p", "p", "", []⟩) (.new none noPackages noFiles) trivial

def onePackageScope : FileScope where
  package := ⟨1⟩
  decodeTag := StructTag.decode
  dotImports := [builtinId]

theorem onePackageScope_sound : onePackageScope.Sound onePackage.registry where
  package := Option.isSome_iff_exists.mp (by decide +kernel)
  aliases _ _ h := by cases h
  typeParams _ _ h := by cases h

def structA : TypeSpec where
  doc := none
  name := "A"
  typeParams := []
  type := .struct []
  isAlias := false

def aliasOfInt : TypeSpec where
  doc := none
  name := "A"
  typeParams := []
  type := .named "int" []
  isAlias := true

theorem onePackage_knows_no_name :
    onePackage.registry.ref? onePackageScope.package structA.name = none := by decide +kernel

theorem perform_append_registry (env : Environment) (info : PackageInfo) :
    (env.perform (.append info)).registry = env.registry.next (.append info) := by
  change (stateAfter (Session.ofExcept (env.registry.append (.ofInfo info)) >>= fun result =>
    set { env with registry := result.2 } >>= fun _ => pure result.1) env).registry = _
  rw [Registry.next]
  cases env.registry.append (.ofInfo info) <;> rfl

theorem structA_declared_apart :
    onePackage.registry.ValidRun [.typeSpec onePackageScope none structA] ∧
    Registry.Isolated ⟨1⟩ onePackage.registry
      (onePackage.registry.next (.typeSpec onePackageScope none structA)) ∧
    KeepsBuiltins .new (onePackage.registry.run [.typeSpec onePackageScope none structA]) := by
  have hv : onePackage.registry.ValidRun [.typeSpec onePackageScope none structA] :=
    ⟨onePackageScope_sound, trivial⟩
  have hclash : ¬Registry.Clashes onePackage.registry onePackageScope none structA := by
    rintro ⟨⟨r, hr, -⟩, -⟩
    rw [onePackage_knows_no_name] at hr
    cases hr
  refine ⟨hv, ?_, ?_⟩
  · have hnil : onePackage.registry.ValidRun [] := trivial
    have h := type_declarations_isolated onePackage_reachable hnil
    exact (h.1 onePackageScope none structA onePackageScope_sound).mpr hclash
  · have happend : (Environment.new none noPackages noFiles).registry.ValidRun
        [.append ⟨"p", "p", "", []⟩] := ⟨trivial, trivial⟩
    have hnew := type_declarations_isolated (.new none noPackages noFiles) happend
    have hstart := hnew.2.2 hnew.2.1 ⟨trivial, trivial⟩
    rw [Registry.run, List.foldl_cons, ← perform_append_registry] at hstart
    have h := type_declarations_isolated onePackage_reachable hv
    exact h.2.2 hstart ⟨⟨by decide, hclash⟩, trivial⟩

/-- The predeclared name that a file turns into a struct: an alias puts the reference of `int` in
the table of the package, and the next declaration of the alias binds it. -/
def intIsRebound : Environment :=
  onePackage.perform (.analyzeFile 0 ⟨1⟩
    ⟨"p", none, [.group .types none [.typeSpec aliasOfInt, .typeSpec structA]]⟩)

theorem int_can_be_rebound : Reachable intIsRebound ∧
    ∃ r, Registry.new.ref? builtinId "int" = some r ∧
      intIsRebound.registry.ref? builtinId "int" = some r ∧
      intIsRebound.registry.graph.resolved? r ≠ Registry.new.graph.resolved? r := by
  refine ⟨.perform _ onePackage_reachable onePackageScope_sound.package, ?_⟩
  exact ⟨⟨7⟩, by decide +kernel, by decide +kernel, by decide +kernel⟩

end Environment

end GoPackages
