import GoPackages.Environment.Import
import GoPackages.Proofs.Registry.Builtins

/-!
# Sessions as runs of registry actions

Whatever a session does, its registry moves by a run of actions, each on packages and
references that exist. This holds where it fails as well, and for every nesting of imports.
-/
namespace GoPackages

open Source (ImportSpec Spec Decl GroupKind SourceFile ValueSpec)
open Registry (Action Grows)

theorem Registry.run_append (reg : Registry) (front back : List Action) :
    reg.run (front ++ back) = (reg.run front).run back := List.foldl_append

theorem Registry.ValidRun.append {reg : Registry} {front back : List Action}
    (h : reg.ValidRun front) (h' : (reg.run front).ValidRun back) :
    reg.ValidRun (front ++ back) := by
  induction front generalizing reg with
  | nil => exact h'
  | cons action rest ih => exact ⟨h.1, ih h.2 h'⟩

namespace Environment

/-- The registry has moved on by a run of actions. -/
def Moves (env env' : Environment) : Prop :=
  ∃ actions, env.registry.ValidRun actions ∧ env.registry.run actions = env'.registry

variable {env mid env' : Environment}

theorem Moves.of_eq (h : env'.registry = env.registry) : Moves env env' := ⟨[], trivial, h.symm⟩

theorem Moves.one (action : Action) (he : env.registry.Enabled action)
    (h : env'.registry = env.registry.next action) : Moves env env' :=
  ⟨[action], ⟨he, trivial⟩, h.symm⟩

theorem Moves.trans (h : Moves env mid) (h' : Moves mid env') : Moves env env' := by
  obtain ⟨front, hv, hr⟩ := h
  obtain ⟨back, hv', hr'⟩ := h'
  refine ⟨front ++ back, hv.append (hr ▸ hv'), ?_⟩
  rw [Registry.run_append, hr, hr']

theorem Moves.sound (h : Moves env env') (hs : env.registry.Sound) : env'.registry.Sound := by
  obtain ⟨actions, hv, hr⟩ := h
  exact hr ▸ (Registry.run_sound hs hv).1

theorem Moves.grows (h : Moves env env') (hs : env.registry.Sound) :
    Grows env.registry env'.registry := by
  obtain ⟨actions, hv, hr⟩ := h
  exact hr ▸ (Registry.run_sound hs hv).2

end Environment

open Environment (Moves)

theorem Registry.Grows.package? {reg reg' : Registry} (h : Grows reg reg') {q : PackageId}
    (hq : ∃ p, reg.package? q = some p) : ∃ p, reg'.package? q = some p := by
  obtain ⟨p, hp⟩ := hq
  obtain ⟨hlt, _⟩ := Array.getElem?_eq_some_iff.mp hp
  exact ⟨_, Array.getElem?_eq_getElem (Nat.lt_of_lt_of_le hlt h.packageCount)⟩

theorem FileScope.Sound.grows {scope : FileScope} {reg reg' : Registry} (hs : scope.Sound reg)
    (h : Grows reg reg') : scope.Sound reg' where
  package := h.package? hs.package
  aliases qualifier q hq := h.package? (hs.aliases qualifier q hq)
  typeParams n r hr := Nat.lt_of_lt_of_le (hs.typeParams n r hr) h.refCount

/-- What a step of a session does: its registry moves, and its answer is good. -/
def Moving {α : Type} (env : Environment) (m : Session α) (good : α → Environment → Prop) : Prop :=
  After m env (fun a env' => Moves env env' ∧ good a env') (Moves env)

section Rules

variable {α β : Type} {env : Environment} {m : Session α} {good : α → Environment → Prop}

theorem Moving.bind {k : α → Session β} {good' : β → Environment → Prop}
    (h : Moving env m good)
    (hk : ∀ a mid, Moves env mid → good a mid → Moving mid (k a) good') :
    Moving env (m >>= k) good' := by
  refine After.bind h (fun a mid ⟨hm, ha⟩ => ?_) fun _ hm => hm
  exact After.mono (hk a mid hm ha) (fun b env' ⟨hm', hb⟩ => ⟨hm.trans hm', hb⟩)
    fun _ hm' => hm.trans hm'

theorem moving_pure {a : α} (ha : good a env) : Moving env (pure a) good := ⟨.of_eq rfl, ha⟩

theorem moving_throw (e : Stop) : Moving env (throw e : Session α) good := .of_eq rfl

theorem moving_fail (e : Error) : Moving env (Session.fail e : Session α) good := .of_eq rfl

theorem Moving.after_get {k : Environment → Session α} (h : Moving env (k env) good) :
    Moving env (get >>= k) good := h

theorem moving_modify {f : Environment → Environment}
    (h : (f env).registry = env.registry) :
    Moving env (modify f) fun _ _ => True := ⟨.of_eq h, trivial⟩

theorem moving_ofExcept (e : Except Error α) (h : ∀ a, e = .ok a → good a env) :
    Moving env (Session.ofExcept e) good := by
  cases e with
  | ok a => exact moving_pure (h a rfl)
  | error e => exact moving_fail e

theorem moving_analyze {step : Analysis α} (action : Action)
    (he : env.registry.Enabled action)
    (h : stateAfter step env.registry = env.registry.next action) :
    Moving env (Session.analyze step) fun _ _ => True := by
  unfold Moving After Session.analyze
  unfold stateAfter at h
  cases hm : step env.registry with
  | ok a reg => rw [hm] at h; exact ⟨.one action he h, trivial⟩
  | error e reg => rw [hm] at h; exact .one action he h

theorem moving_attempt (h : Moving env m fun _ _ => True) :
    Moving env (Session.attempt m) fun _ _ => True := by
  unfold Moving After at h ⊢
  unfold Session.attempt
  cases hm : m env with
  | ok a env' => rw [hm] at h; exact ⟨h.1, trivial⟩
  | error e env' =>
    rw [hm] at h
    cases e with
    | failed e => exact ⟨h, trivial⟩
    | tooDeep => exact h

end Rules

/-- A step that only makes the registry move. -/
def Safe {α : Type} (m : Session α) : Prop :=
  ∀ env, env.registry.Sound → Moving env m fun _ _ => True

section Packages

variable {env : Environment}

theorem package?_of_byPath? {reg : Registry} {path : String} {q : PackageId}
    (h : reg.byPath? path = some q) : ∃ p, reg.package? q = some p := by
  obtain ⟨i, hi, rfl⟩ := Option.map_eq_some_iff.mp h
  obtain ⟨hlt, -⟩ := Array.findIdx?_eq_some_iff_getElem.mp hi
  exact ⟨_, Array.getElem?_eq_getElem hlt⟩

theorem package?_of_append {reg reg' : Registry} {p : Package} {q : PackageId}
    (h : reg.append p = .ok (q, reg')) : ∃ p', reg'.package? q = some p' := by
  obtain ⟨-, -, -, -, hp⟩ := Registry.append_ok h
  have hq := hp q
  rw [if_pos rfl] at hq
  obtain ⟨p', hp', -⟩ := Option.map_eq_some_iff.mp hq
  exact ⟨p', hp'⟩

theorem append_moves {reg' : Registry} {info : PackageInfo} {q : PackageId}
    (h : env.registry.append (.ofInfo info) = .ok (q, reg')) :
    Moves env { env with registry := reg' } :=
  .one (.append info) trivial (by simp only [Registry.next, h])

theorem append_moving (env : Environment) (info : PackageInfo) :
    Moving env (Session.append (.ofInfo info)) fun q env' =>
      ∃ p, env'.registry.package? q = some p := by
  unfold Session.append
  simp only [Moving, after_bind, after_get]
  cases h : env.registry.append (.ofInfo info) with
  | ok result => exact ⟨append_moves h, package?_of_append h⟩
  | error e => exact .of_eq rfl

theorem ensurePackage_moving (env : Environment) (info : PackageInfo) :
    Moving env (Session.ensurePackage info) fun q env' =>
      ∃ p, env'.registry.package? q = some p := by
  unfold Session.ensurePackage Registry.ensurePackage
  simp only [Moving, after_bind, after_get]
  cases hb : env.registry.byPath? info.importPath with
  | some q => exact ⟨.of_eq rfl, package?_of_byPath? hb⟩
  | none =>
    cases h : env.registry.append (.ofInfo info) with
    | ok result => exact ⟨append_moves h, package?_of_append h⟩
    | error e => exact .of_eq rfl

theorem locate_safe (path : String) : Safe (Session.locate path) := by
  intro env _
  refine Moving.after_get (Moving.bind (moving_modify rfl) fun _ mid _ _ => ?_)
  exact moving_ofExcept _ fun _ _ => trivial

theorem locateDir_safe (dir : String) : Safe (Session.locateDir dir) := by
  intro env _
  refine Moving.after_get (Moving.bind (moving_modify rfl) fun _ mid _ _ => ?_)
  exact moving_ofExcept _ fun _ _ => trivial

theorem parse_safe (pkg : PackageId) (path : String) : Safe (Session.parse pkg path) := by
  intro env _
  refine Moving.after_get (Moving.bind (moving_modify rfl) fun _ mid _ _ => ?_)
  exact moving_ofExcept _ fun _ _ => trivial

end Packages

section Files

variable {env : Environment} {enter : PackageId → Session Unit}

theorem importSpec_moving (henter : ∀ q, Safe (enter q)) (hr : env.registry.Sound)
    {scope : FileScope} (hs : scope.Sound env.registry) (spec : ImportSpec) :
    Moving env (importSpec enter scope spec) fun scope' env' => scope'.Sound env'.registry := by
  unfold importSpec
  refine Moving.bind (locate_safe _ env hr) fun info env₁ h₁ _ => ?_
  refine Moving.bind (ensurePackage_moving env₁ info) fun q env₂ h₂ hq => ?_
  have hr₂ := h₂.sound (h₁.sound hr)
  have hs₂ := hs.grows ((h₁.trans h₂).grows hr)
  split
  next => exact Moving.after_get (moving_pure (hs₂.insert_alias hq _))
  next name _ => exact moving_pure (hs₂.insert_alias hq name)
  next =>
    refine Moving.bind (henter q env₂ hr₂) fun _ env₃ h₃ _ => ?_
    have hs₃ := hs₂.grows (h₃.grows hr₂)
    refine moving_pure ?_
    split
    · exact hs₃
    · exact ⟨hs₃.package, hs₃.aliases, hs₃.typeParams⟩
  next => exact moving_pure hs₂

theorem analyzeSpec_moving {scope : FileScope} (hs : scope.Sound env.registry)
    (kind : GroupKind) (doc : Option Doc) (previous : Option ValueSpec) (spec : Spec) :
    Moving env (Session.analyze (analyzeSpec scope kind doc previous spec)) fun _ _ => True := by
  cases spec with
  | importSpec spec => exact ⟨.of_eq rfl, trivial⟩
  | typeSpec spec =>
    refine moving_analyze (.typeSpec scope doc spec) hs ?_
    simp only [Registry.next, analyzeSpec, stateAfter, bind, EStateM.bind]
    cases declareTypeSpec scope doc spec env.registry <;> rfl
  | valueSpec spec =>
    refine moving_analyze
      (.valueSpec scope kind doc spec (valueSource kind previous spec)) hs ?_
    simp only [Registry.next, analyzeSpec, stateAfter, bind, EStateM.bind]
    cases declareValueSpec scope kind doc spec (valueSource kind previous spec) env.registry <;> rfl

theorem analyzeSpecs_moving (henter : ∀ q, Safe (enter q)) (kind : GroupKind)
    (doc : Option Doc) (specs : List Spec) :
    ∀ {env : Environment}, env.registry.Sound → ∀ {scope : FileScope}, scope.Sound env.registry →
      ∀ previous, Moving env (analyzeSpecs enter kind doc scope previous specs) fun scope' env' =>
        scope'.Sound env'.registry := by
  induction specs with
  | nil => exact fun _ _ hs _ => moving_pure hs
  | cons spec rest ih =>
    intro env hr scope hs previous
    cases spec with
    | importSpec spec =>
      refine Moving.bind (importSpec_moving henter hr hs spec) fun scope' env' h hs' => ?_
      exact ih (h.sound hr) hs' previous
    | typeSpec spec =>
      refine Moving.bind (analyzeSpec_moving hs kind doc previous _) fun previous' env' h _ => ?_
      exact ih (h.sound hr) (hs.grows (h.grows hr)) previous'
    | valueSpec spec =>
      refine Moving.bind (analyzeSpec_moving hs kind doc previous _) fun previous' env' h _ => ?_
      exact ih (h.sound hr) (hs.grows (h.grows hr)) previous'

theorem analyzeDecls_moving (henter : ∀ q, Safe (enter q)) (decls : List Decl) :
    ∀ {env : Environment}, env.registry.Sound → ∀ {scope : FileScope}, scope.Sound env.registry →
      Moving env (decls.foldlM (analyzeDecl enter) scope) fun _ _ => True := by
  induction decls with
  | nil => exact fun _ _ _ => moving_pure trivial
  | cons decl rest ih =>
    intro env hr scope hs
    rw [List.foldlM_cons]
    cases decl with
    | group kind doc specs =>
      refine Moving.bind (analyzeSpecs_moving henter kind doc specs hr hs none) ?_
      exact fun scope' env' h hs' => ih (h.sound hr) hs'
    | func decl =>
      have hfunc : Moving env (analyzeDecl enter scope (.func decl)) fun scope' env' =>
          scope'.Sound env'.registry := by
        refine Moving.bind (moving_analyze (.func scope decl) hs rfl) ?_
        exact fun _ env' h _ => moving_pure (hs.grows (h.grows hr))
      exact Moving.bind hfunc fun scope' env' h hs' => ih (h.sound hr) hs'

theorem analyzeFileWith_moving (henter : ∀ q, Safe (enter q)) (hr : env.registry.Sound)
    {pkg : PackageId} (hp : ∃ p, env.registry.package? pkg = some p) (file : SourceFile) :
    Moving env (analyzeFileWith enter pkg file) fun _ _ => True := by
  unfold analyzeFileWith
  refine Moving.after_get ?_
  split
  next => exact moving_fail _
  next builtin _ =>
    have hdoc : Moving env (Session.analyze (modify
        (·.modifyPackage pkg (·.appendDoc (file.doc.getD []))))) fun _ _ => True :=
      moving_analyze (.appendDoc pkg (file.doc.getD [])) trivial rfl
    refine Moving.bind hdoc fun _ env' h _ => ?_
    have hscope : FileScope.Sound { package := pkg, decodeTag := env.tagDecoder
                                    dotImports := if pkg = builtin then [] else [builtin] }
        env'.registry := by
      refine ⟨(h.grows hr).package? hp, fun qualifier q hq => ?_, fun _ _ hl => ?_⟩
      · simp [OrderedMap.get?, OrderedMap.find] at hq
      · simp at hl
    refine Moving.bind (analyzeDecls_moving henter file.decls (h.sound hr) hscope) ?_
    exact fun _ _ _ _ => moving_pure trivial

theorem announce_safe (pkg : PackageId) (path : String) : Safe (announce pkg path) := by
  intro env _
  unfold announce
  refine Moving.after_get ?_
  split
  next => exact Moving.bind (moving_modify rfl) fun _ _ _ _ => moving_pure trivial
  next => exact moving_pure trivial

theorem conclude_safe (pkg : PackageId) (path : String) (outcome : Except Error Unit) :
    Safe (conclude pkg path outcome) := by
  intro env _
  unfold conclude
  refine Moving.after_get ?_
  split
  next =>
    exact Moving.bind (moving_modify rfl) fun _ _ _ _ => moving_ofExcept _ fun _ _ => trivial
  next => exact moving_pure trivial

theorem visitFile_moving (henter : ∀ q, Safe (enter q)) (hr : env.registry.Sound)
    {pkg : PackageId} (hp : ∃ p, env.registry.package? pkg = some p) (path : String) :
    Moving env (visitFile enter pkg path) fun _ _ => True := by
  unfold visitFile
  refine Moving.bind (announce_safe pkg path env hr) fun action env₁ h₁ _ => ?_
  have hr₁ := h₁.sound hr
  cases action with
  | skip => exact moving_pure trivial
  | abort e => exact moving_fail e
  | proceed =>
    refine Moving.bind (moving_attempt (Moving.bind (parse_safe pkg path env₁ hr₁) ?_)) ?_
    · intro file env₂ h₂ _
      exact analyzeFileWith_moving henter (h₂.sound hr₁)
        (((h₁.trans h₂).grows hr).package? hp) file
    · intro outcome env₃ h₃ _
      refine Moving.bind (conclude_safe pkg path outcome env₃ (h₃.sound hr₁)) ?_
      exact fun _ _ _ _ => moving_ofExcept _ fun _ _ => trivial

theorem visitFiles_moving (henter : ∀ q, Safe (enter q)) {pkg : PackageId}
    (paths : List String) : ∀ {env : Environment}, env.registry.Sound →
      (∃ p, env.registry.package? pkg = some p) →
        Moving env (visitFiles enter pkg paths) fun _ _ => True := by
  induction paths with
  | nil => exact fun _ _ => moving_pure trivial
  | cons path rest ih =>
    intro env hr hp
    refine Moving.bind (visitFile_moving henter hr hp path) fun _ env' h _ => ?_
    exact ih (h.sound hr) ((h.grows hr).package? hp)

theorem explore_safe (henter : ∀ q, Safe (enter q)) (pkg : PackageId) :
    Safe (explore enter pkg) := by
  intro env hr
  unfold explore
  refine Moving.after_get ?_
  have hvisit : Moving env (visitFiles enter pkg
      (((env.registry.package? pkg).map (·.files)).getD [])) fun _ _ => True := by
    cases hp : env.registry.package? pkg with
    | none => exact moving_pure trivial
    | some p => exact visitFiles_moving henter p.files hr ⟨p, hp⟩
  refine Moving.bind hvisit fun _ env' _ _ => ?_
  exact moving_analyze (.markExplored pkg) trivial rfl

end Files

theorem analyzePackage_safe (depth : Nat) (pkg : PackageId) : Safe (analyzePackage depth pkg) := by
  induction depth generalizing pkg with
  | zero =>
    intro env _
    unfold analyzePackage
    refine Moving.after_get ?_
    split
    · exact moving_pure trivial
    · exact moving_throw _
  | succ depth ih =>
    intro env hr
    unfold analyzePackage
    refine Moving.after_get ?_
    split
    · exact moving_pure trivial
    · exact explore_safe ih pkg env hr

end GoPackages
