import GoPackages.Proofs.Environment.Quiet
import GoPackages.Proofs.Registry.PackageTree

/-!
# The steps of a session

Whatever a session does while packages are analyzed is a sequence of a few kinds of steps, also
where it stops half way. Each step adds what it asks of the collaborators to the history of the
session, and what the listener heard and what packages are documented with follow from that
history.
-/
namespace GoPackages

open Source (SourceFile)
open Registry (Edits)

def heardAfter (heard : List FileEvent) (events : List Event) : List FileEvent :=
  events.foldl (fun heard event =>
    match event with
    | .file _ event => event :: heard
    | .locate _ _ | .locateDir _ | .parse _ _ => heard) heard

theorem heardAfter_append (heard : List FileEvent) (events events' : List Event) :
    heardAfter heard (events ++ events') = heardAfter (heardAfter heard events) events' :=
  List.foldl_append

def parsedIn (q : PackageId) (events : List Event) : List String :=
  events.filterMap (Event.parsed? q)

@[simp] theorem parsedIn_nil (q : PackageId) : parsedIn q [] = [] := rfl

@[simp] theorem parsedIn_append (q : PackageId) (events events' : List Event) :
    parsedIn q (events ++ events') = parsedIn q events ++ parsedIn q events' :=
  List.filterMap_append

@[simp] theorem parsedIn_locate (q : PackageId) (path dir : String) (events : List Event) :
    parsedIn q (.locate path dir :: events) = parsedIn q events := rfl

@[simp] theorem parsedIn_file (q p : PackageId) (event : FileEvent) (events : List Event) :
    parsedIn q (.file p event :: events) = parsedIn q events := rfl

@[simp] theorem parsedIn_parse_self (q : PackageId) (path : String) (events : List Event) :
    parsedIn q (.parse q path :: events) = path :: parsedIn q events := by
  simp [parsedIn, Event.parsed?]

@[simp] theorem parsedIn_parse_of_ne {p q : PackageId} (h : p ≠ q) (path : String)
    (events : List Event) : parsedIn q (.parse p path :: events) = parsedIn q events := by
  simp [parsedIn, Event.parsed?, h]

namespace Environment

def doc (env : Environment) (q : PackageId) : Doc :=
  ((env.registry.package? q).map (·.doc)).getD []

/-- What a file documents its package with, as far as it can be read. -/
def docOf (env : Environment) (path : String) : Doc :=
  match env.parser path with
  | .ok file => file.doc.getD []
  | .error _ => []

theorem docOf_congr {env env' : Environment} (h : env'.parser = env.parser) :
    env'.docOf = env.docOf := by
  unfold docOf
  rw [h]

inductive Step : Environment → List Event → Environment → Prop where
  | edits {env reg} (h : Edits env.registry reg) : Step env [] { env with registry := reg }
  | append {env info id reg} (h : env.registry.append (.ofInfo info) = .ok (id, reg)) :
      Step env [] { env with registry := reg }
  | locate {env} (importPath : String) : Step env [.locate importPath env.importRoot]
      { env with log := env.log.push (.locate importPath env.importRoot) }
  | locateDir {env} (dir : String) :
      Step env [.locateDir dir] { env with log := env.log.push (.locateDir dir) }
  | tell {env} (pkg : PackageId) (event : FileEvent) : Step env [.file pkg event]
      { env with heard := event :: env.heard, log := env.log.push (.file pkg event) }
  | unread {env path} (pkg : PackageId)
      (h : env.builtin = none ∨ ∀ file, env.parser path ≠ .ok file) :
      Step env [.parse pkg path] { env with log := env.log.push (.parse pkg path) }
  | read {env pkg path file} (hp : env.registry.Registered pkg)
      (h : env.parser path = .ok file) : Step env [.parse pkg path]
      ({ env with log := env.log.push (.parse pkg path) }.opened pkg file)
  | markExplored {env} (pkg : PackageId) : Step env [] (env.markExplored pkg)

inductive Steps : Environment → List Event → Environment → Prop where
  | refl {env} : Steps env [] env
  | tail {env mid env' events events'} : Steps env events mid → Step mid events' env' →
      Steps env (events ++ events') env'

variable {env mid env' : Environment} {events events' : List Event}

theorem Step.steps (h : Step env events env') : Steps env events env' := .tail .refl h

theorem Steps.trans (h : Steps env events mid) (h' : Steps mid events' env') :
    Steps env (events ++ events') env' := by
  induction h' with
  | refl => exact (List.append_nil events).symm ▸ h
  | tail _ hstep ih => exact List.append_assoc _ _ _ ▸ ih.tail hstep

theorem Step.grows (h : Step env events env') (hr : env.registry.WellFormed) : Grows env env' := by
  have hpush : ∀ (log : Array Event) (heard : List FileEvent), Grows env { env with heard, log } :=
    fun _ _ => ⟨⟨rfl, rfl⟩, rfl, rfl, .refl _, hr, fun _ p hp => ⟨p, hp, rfl, rfl, id⟩⟩
  cases h with
  | edits h => exact (Quiet.of_edits hr h).grows
  | append h => exact (Quiet.of_append hr h).grows
  | locate | locateDir | tell | unread => exact hpush _ _
  | @read pkg path file _ _ =>
    exact (hpush _ _).trans (opened_quiet (hpush _ _).wellFormed pkg file).grows
  | markExplored pkg => exact markExplored_grows hr pkg

theorem Steps.grows (h : Steps env events env') (hr : env.registry.WellFormed) :
    Grows env env' := by
  induction h with
  | refl => exact .refl hr
  | tail _ hstep ih => exact ih.trans (hstep.grows ih.wellFormed)

theorem Step.log (h : Step env events env') :
    env'.log.toList = env.log.toList ++ events ∧ env'.importRoot = env.importRoot ∧
      env'.heard = heardAfter env.heard events := by
  cases h with
  | edits | append | markExplored => exact ⟨(List.append_nil _).symm, rfl, rfl⟩
  | locate | locateDir | tell | unread | read => exact ⟨Array.toList_push, rfl, rfl⟩

theorem Steps.log (h : Steps env events env') :
    env'.log.toList = env.log.toList ++ events ∧ env'.importRoot = env.importRoot ∧
      env'.heard = heardAfter env.heard events := by
  induction h with
  | refl => exact ⟨(List.append_nil _).symm, rfl, rfl⟩
  | tail _ hstep ih =>
    obtain ⟨hlog, hroot, hheard⟩ := hstep.log
    refine ⟨?_, hroot.trans ih.2.1, ?_⟩
    · rw [hlog, ih.1, List.append_assoc]
    · rw [hheard, ih.2.2, heardAfter_append]

theorem Step.locator (h : Step env events env') : env'.locator = env.locator := by
  cases h <;> rfl

theorem Steps.locator (h : Steps env events env') : env'.locator = env.locator := by
  induction h with
  | refl => rfl
  | tail _ hstep ih => exact hstep.locator.trans ih

theorem Steps.parsed (h : Steps env events env') (q : PackageId) :
    env'.parsed q = env.parsed q ++ parsedIn q events := by
  unfold Environment.parsed parsedIn
  rw [h.log.1, List.filterMap_append]

theorem Step.tree (h : Step env events env') (ht : env.registry.PackageTree) :
    env'.registry.PackageTree := by
  cases h with
  | edits h => exact ht.edits h
  | append h => exact ht.append rfl rfl h
  | locate | locateDir | tell | unread => exact ht
  | read => exact ht.modifyPackage _ fun _ => ⟨rfl, rfl, rfl⟩
  | markExplored => exact ht.modifyPackage _ fun _ => ⟨rfl, rfl, rfl⟩

theorem Steps.tree (h : Steps env events env') (ht : env.registry.PackageTree) :
    env'.registry.PackageTree := by
  induction h with
  | refl => exact ht
  | tail _ hstep ih => exact hstep.tree ih

theorem doc_eq_view {α : Type} {g : Package → α} {d : α → Doc} (h : ∀ p, d (g p) = p.doc)
    (env : Environment) (q : PackageId) :
    env.doc q = (((env.registry.package? q).map g).map d).getD [] := by
  have hcomp : d ∘ g = (·.doc) := funext h
  rw [Option.map_map, hcomp]
  rfl

theorem Step.doc (h : Step env events env') (hb : env.builtin ≠ none) (q : PackageId) :
    env'.doc q = env.doc q ++ (parsedIn q events).flatMap env.docOf := by
  cases h with
  | locate | locateDir | tell => exact (List.append_nil _).symm
  | @edits reg h =>
    refine Eq.trans ?_ (List.append_nil _).symm
    have hview := doc_eq_view (g := Package.undeclared) (d := (·.doc)) (fun _ => rfl)
    rw [hview, hview, h.undeclared]
  | @append info id reg h =>
    refine Eq.trans ?_ (List.append_nil _).symm
    obtain ⟨-, rfl, -, -, hall⟩ := Registry.append_ok h
    have hview := doc_eq_view (g := Registry.unlinked) (d := (·.doc)) (fun _ => rfl)
    rw [hview, hview, hall]
    split
    next hq =>
      have hnone : env.registry.package? ⟨env.registry.packages.size⟩ = none :=
        Array.getElem?_eq_none (Nat.le_refl _)
      rw [hq, hnone]
      rfl
    next => rfl
  | @unread path pkg h =>
    have hnothing : env.docOf path = [] := by
      unfold docOf
      rcases h with hnone | hfail
      · exact absurd hnone hb
      · split
        next file hparse => exact absurd hparse (hfail file)
        next => rfl
    by_cases hq : pkg = q <;> simp [hq, hnothing, Environment.doc]
  | @read pkg path file hp h =>
    obtain ⟨p, hp⟩ := hp
    have hfile : env.docOf path = file.doc.getD [] := by rw [docOf, h]
    simp only [Environment.doc, opened, Registry.package?_modifyPackage]
    by_cases hq : q = pkg
    · subst hq
      simp [hp, hfile, Package.appendDoc]
    · simp [hq, Ne.symm hq]
  | markExplored pkg =>
    refine Eq.trans ?_ (List.append_nil _).symm
    have hkept := Registry.map_modifyPackage (g := (·.doc)) (f := (·.markExplored))
      (fun _ => rfl) env.registry pkg q
    exact congrArg (·.getD []) hkept

/-- Over a session, a package is documented with its files in the order in which they are read,
each as often as it is read. -/
theorem Steps.doc (h : Steps env events env') (hr : env.registry.WellFormed)
    (hb : env.builtin ≠ none) (q : PackageId) :
    env'.doc q = env.doc q ++ (parsedIn q events).flatMap env.docOf := by
  induction h with
  | refl => exact (List.append_nil _).symm
  | @tail mid _ _ _ hsteps hstep ih =>
    have hgrows := hsteps.grows hr
    rw [hstep.doc (hgrows.setup.builtin ▸ hb), ih, parsedIn_append, List.flatMap_append,
      List.append_assoc, docOf_congr hgrows.parser]

end Environment

open Environment (Step Steps)

/-- What a part of a session does: it takes steps, and what it asked, its outcome and where it
ends are good. Nothing more is said where imports nest too deep. -/
def Takes {α : Type} (env : Environment) (m : Session α)
    (good : List Event → Except Error α → Environment → Prop) : Prop :=
  match m env with
  | .ok a env' => ∃ events, Steps env events env' ∧ good events (.ok a) env'
  | .error (.failed e) env' => ∃ events, Steps env events env' ∧ good events (.error e) env'
  | .error .tooDeep env' => ∃ events, Steps env events env'

section Rules

variable {α β : Type} {env env' : Environment} {m : Session α}
  {good good' : List Event → Except Error α → Environment → Prop}

theorem takes_pure {a : α} (h : good [] (.ok a) env) : Takes env (pure a) good := ⟨[], .refl, h⟩

theorem takes_fail {e : Error} (h : good [] (.error e) env) :
    Takes env (Session.fail e : Session α) good := ⟨[], .refl, h⟩

theorem takes_ofExcept {outcome : Except Error α} (h : good [] outcome env) :
    Takes env (Session.ofExcept outcome) good := by
  cases outcome with
  | ok a => exact takes_pure h
  | error e => exact takes_fail h

theorem Takes.after_get {k : Environment → Session α} (h : Takes env (k env) good) :
    Takes env (get >>= k) good := h

theorem Takes.of_eq {k : Session α} (heq : m env = k env) (h : Takes env k good) :
    Takes env m good := by
  unfold Takes at h ⊢
  rwa [heq]

theorem Takes.of_step {mid : Environment} {events : List Event} (hstep : Step env events mid)
    {k : Session α} (heq : m env = k mid)
    (h : Takes mid k fun events' outcome env' => good (events ++ events') outcome env') :
    Takes env m good := by
  unfold Takes at h ⊢
  rw [heq]
  split at h
  · obtain ⟨events', hsteps, h⟩ := h
    exact ⟨events ++ events', hstep.steps.trans hsteps, h⟩
  · obtain ⟨events', hsteps, h⟩ := h
    exact ⟨events ++ events', hstep.steps.trans hsteps, h⟩
  · obtain ⟨events', hsteps⟩ := h
    exact ⟨events ++ events', hstep.steps.trans hsteps⟩

theorem Takes.of_run (h : Takes env m good) {outcome : Except Error α}
    (hrun : m env = Session.ofExcept outcome env') :
    ∃ events, Steps env events env' ∧ good events outcome env' := by
  unfold Takes at h
  rw [hrun] at h
  cases outcome with
  | ok a => exact h
  | error e => exact h

theorem Takes.of_ok (h : Takes env m good) {a : α} (hrun : m env = .ok a env') :
    ∃ events, Steps env events env' ∧ good events (.ok a) env' := by
  have hrun' : m env = Session.ofExcept (.ok a) env' := hrun
  exact h.of_run hrun'

theorem Takes.mono (h : Takes env m good)
    (hgood : ∀ events outcome env', Steps env events env' → good events outcome env' →
      good' events outcome env') : Takes env m good' := by
  unfold Takes at h ⊢
  split at h
  · obtain ⟨events, hsteps, h⟩ := h
    exact ⟨events, hsteps, hgood _ _ _ hsteps h⟩
  · obtain ⟨events, hsteps, h⟩ := h
    exact ⟨events, hsteps, hgood _ _ _ hsteps h⟩
  · exact h

theorem Takes.bind {k : α → Session β} {good' : List Event → Except Error β → Environment → Prop}
    (h : Takes env m good)
    (hok : ∀ a mid events, Steps env events mid → good events (.ok a) mid →
      Takes mid (k a) fun events' outcome env' => good' (events ++ events') outcome env')
    (herror : ∀ e mid events, Steps env events mid → good events (.error e) mid →
      good' events (.error e) mid) : Takes env (m >>= k) good' := by
  unfold Takes at h ⊢
  simp only [Bind.bind, EStateM.bind]
  cases hm : m env with
  | error e mid =>
    rw [hm] at h
    cases e with
    | failed e =>
      obtain ⟨events, hsteps, h⟩ := h
      exact ⟨events, hsteps, herror e mid events hsteps h⟩
    | tooDeep => exact h
  | ok a mid =>
    rw [hm] at h
    obtain ⟨events, hsteps, h⟩ := h
    have hrest := hok a mid events hsteps h
    unfold Takes at hrest
    dsimp only
    cases hka : k a mid with
    | ok b env' =>
      rw [hka] at hrest
      obtain ⟨events', hsteps', h'⟩ := hrest
      exact ⟨events ++ events', hsteps.trans hsteps', h'⟩
    | error e env' =>
      rw [hka] at hrest
      cases e with
      | failed e =>
        obtain ⟨events', hsteps', h'⟩ := hrest
        exact ⟨events ++ events', hsteps.trans hsteps', h'⟩
      | tooDeep =>
        obtain ⟨events', hsteps'⟩ := hrest
        exact ⟨events ++ events', hsteps.trans hsteps'⟩

theorem takes_discard {good' : List Event → Except Error Unit → Environment → Prop}
    (h : Takes env m good)
    (hok : ∀ a events env', good events (.ok a) env' → good' events (.ok ()) env')
    (herror : ∀ e events env', good events (.error e) env' → good' events (.error e) env') :
    Takes env (discard m) good' := by
  have hdiscard : discard m = m >>= fun _ => pure () := by
    funext env
    simp only [discard, Functor.discard, Functor.mapConst, EStateM.map, Function.comp_apply, bind,
      EStateM.bind]
    cases m env <;> rfl
  rw [hdiscard]
  refine Takes.bind h (fun a mid events _ hgood => takes_pure ?_)
    fun e mid events _ hgood => herror e events mid hgood
  rw [List.append_nil]
  exact hok a events mid hgood

theorem takes_attempt (h : Takes env m good) :
    Takes env (Session.attempt m) fun events outcome env' =>
      ∃ answer, outcome = .ok answer ∧ good events answer env' := by
  unfold Takes at h ⊢
  unfold Session.attempt
  cases hm : m env with
  | ok a env' =>
    rw [hm] at h
    obtain ⟨events, hsteps, h⟩ := h
    exact ⟨events, hsteps, _, rfl, h⟩
  | error e env' =>
    rw [hm] at h
    cases e with
    | failed e =>
      obtain ⟨events, hsteps, h⟩ := h
      exact ⟨events, hsteps, _, rfl, h⟩
    | tooDeep => exact h

end Rules

section Collaborators

variable {env : Environment}

theorem locate_takes (path : String) :
    Takes env (Session.locate path) fun events outcome env' =>
      events = [.locate path env.importRoot] ∧ outcome = env.locate path ∧
        env'.registry = env.registry := by
  refine Takes.of_step (.locate path) (k := Session.ofExcept (env.locate path)) rfl ?_
  exact takes_ofExcept ⟨rfl, rfl, rfl⟩

theorem locateDir_takes (dir : String) :
    Takes env (Session.locateDir dir) fun events _ env' =>
      events = [.locateDir dir] ∧ env'.registry = env.registry := by
  refine Takes.of_step (.locateDir dir) (k := Session.ofExcept (env.locator.locateDir dir)) rfl ?_
  exact takes_ofExcept ⟨rfl, rfl⟩

theorem Registry.ensurePackage_total (reg : Registry) (info : PackageInfo) :
    ∃ q reg', reg.ensurePackage info = .ok (q, reg') := by
  unfold Registry.ensurePackage
  cases hnone : reg.byPath? info.importPath with
  | some q => exact ⟨q, reg, rfl⟩
  | none =>
    dsimp only
    rw [Registry.append, show (Package.ofInfo info).importPath = info.importPath from rfl, hnone]
    exact ⟨_, _, rfl⟩

theorem ensurePackage_takes (hr : env.registry.WellFormed) (info : PackageInfo) :
    Takes env (Session.ensurePackage info) fun events outcome env' =>
      events = [] ∧ (∃ q, outcome = .ok q ∧ env'.registry.byPath? info.importPath = some q) ∧
        ∀ q, env'.explored q = env.explored q := by
  obtain ⟨q, reg, hensure⟩ := env.registry.ensurePackage_total info
  obtain ⟨hpath, hgrown⟩ := Registry.ensurePackage_ok hensure
  have hrun : Session.ensurePackage info env = .ok q { env with registry := reg } := by
    change (Session.ofExcept (env.registry.ensurePackage info) >>= _) env = _
    rw [hensure]
    rfl
  unfold Takes
  rw [hrun]
  rcases hgrown with rfl | happend
  · exact ⟨[], .refl, rfl, ⟨q, rfl, hpath⟩, fun _ => rfl⟩
  · refine ⟨[], (Step.append happend).steps, rfl, ⟨q, rfl, hpath⟩, ?_⟩
    exact (Environment.Quiet.of_append hr happend).explored

theorem analyze_takes (hr : env.registry.WellFormed) {step : Analysis Unit}
    (h : Works env.registry step fun _ _ => True) :
    Takes env (Session.analyze step) fun events _ env' =>
      events = [] ∧ ∀ q, env'.explored q = env.explored q := by
  unfold Takes Session.analyze
  unfold Works After at h
  cases hs : step env.registry with
  | ok a reg =>
    rw [hs] at h
    exact ⟨[], (Step.edits h.1).steps, rfl, (Environment.Quiet.of_edits hr h.1).explored⟩
  | error e reg =>
    rw [hs] at h
    exact ⟨[], (Step.edits h).steps, rfl, (Environment.Quiet.of_edits hr h).explored⟩

end Collaborators

end GoPackages
