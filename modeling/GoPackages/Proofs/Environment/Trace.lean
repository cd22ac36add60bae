import GoPackages.Proofs.Environment.Steps

/-!
# The protocol between a session and its listener

Which requests a session makes while it analyzes a package, as a grammar: the listener is asked
before a file, the file is parsed once, the packages that it imports without a qualifier are
traced in its middle, and the listener is told of the outcome. The grammar knows the listener,
the parser and the locator, and says nothing of how declarations are analyzed but that they may
fail. Every analysis follows it, whatever listener there is and wherever the analysis stops.
-/
namespace GoPackages

open Source (ImportSpec SourceFile)
open Environment (Grows Step Steps)

/-- What is under way: a package, the rest of its files, one of them, its reading, or the rest of
its items. -/
inductive Stage where
  | package (q : PackageId)
  | files (q : PackageId) (paths : List String)
  | file (q : PackageId) (path : String)
  | reading (q : PackageId) (path : String)
  | body (items : List Item)

namespace Environment

def exploredSet (env : Environment) : Set PackageId := {q | env.explored q = true}

/-- A package as it was at some moment: its path and its files are what they still are. -/
def Showed (world : Environment) (q : PackageId) (p : Package) : Prop :=
  ∃ p', world.registry.package? q = some p' ∧ p'.importPath = p.importPath ∧ p'.files = p.files

/-- The events of a stage, the outcome that it comes to and the packages that are explored before
and after it, when the listener heard `heard` before. -/
inductive Trace (world : Environment) :
    Stage → List FileEvent → Set PackageId → List Event → Except Error Unit →
      Set PackageId → Prop where
  | known {q heard seen} : q ∈ seen → Trace world (.package q) heard seen [] (.ok ()) seen
  | explored {q heard seen seen' events} : q ∉ seen → world.registry.Registered q →
      Trace world (.files q (world.files q)) heard seen events (.ok ()) seen' →
      Trace world (.package q) heard seen events (.ok ()) (insert q seen')
  | unexplored {q heard seen seen' events e} : q ∉ seen → world.registry.Registered q →
      Trace world (.files q (world.files q)) heard seen events (.error e) seen' →
      Trace world (.package q) heard seen events (.error e) seen'
  | noFiles {q heard seen} : Trace world (.files q []) heard seen [] (.ok ()) seen
  | nextFile {q path rest heard seen seen₁ seen' events events' outcome} :
      Trace world (.file q path) heard seen events (.ok ()) seen₁ →
      Trace world (.files q rest) (heardAfter heard events) seen₁ events' outcome seen' →
      Trace world (.files q (path :: rest)) heard seen (events ++ events') outcome seen'
  | lastFile {q path rest heard seen seen' events e} :
      Trace world (.file q path) heard seen events (.error e) seen' →
      Trace world (.files q (path :: rest)) heard seen events (.error e) seen'
  | skipped {q path heard seen listener p} : world.listener = some listener → world.Showed q p →
      listener.before heard p path = .skip →
      Trace world (.file q path) heard seen [.file q (.before p path)] (.ok ()) seen
  | aborted {q path heard seen listener p e} : world.listener = some listener → world.Showed q p →
      listener.before heard p path = .abort e →
      Trace world (.file q path) heard seen [.file q (.before p path)] (.error e) seen
  | concluded {q path heard seen seen' listener p p' events outcome} :
      world.listener = some listener → world.Showed q p → world.Showed q p' →
      listener.before heard p path = .proceed →
      Trace world (.reading q path) (.before p path :: heard) seen events outcome seen' →
      listener.after (heardAfter (.before p path :: heard) events) p' path outcome = .ok () →
      Trace world (.file q path) heard seen
        (.file q (.before p path) :: (events ++ [.file q (.after p' path outcome)])) outcome seen'
  | overruled {q path heard seen seen' listener p p' events outcome e} :
      world.listener = some listener → world.Showed q p → world.Showed q p' →
      listener.before heard p path = .proceed →
      Trace world (.reading q path) (.before p path :: heard) seen events outcome seen' →
      listener.after (heardAfter (.before p path :: heard) events) p' path outcome = .error e →
      Trace world (.file q path) heard seen
        (.file q (.before p path) :: (events ++ [.file q (.after p' path outcome)]))
        (.error e) seen'
  | unwatched {q path heard seen seen' events outcome} : world.listener = none →
      Trace world (.reading q path) heard seen events outcome seen' →
      Trace world (.file q path) heard seen events outcome seen'
  | unreadable {q path heard seen e} : world.parser path = .error e →
      Trace world (.reading q path) heard seen [.parse q path] (.error e) seen
  | read {q path heard seen seen' file events outcome} : world.parser path = .ok file →
      Trace world (.body (items file)) heard seen events outcome seen' →
      Trace world (.reading q path) heard seen (.parse q path :: events) outcome seen'
  | noItems {heard seen} : Trace world (.body []) heard seen [] (.ok ()) seen
  | declared {item rest heard seen seen' events outcome} : (∀ spec, item ≠ .importSpec spec) →
      Trace world (.body rest) heard seen events outcome seen' →
      Trace world (.body (item :: rest)) heard seen events outcome seen'
  | broken {item rest heard seen e} : (∀ spec, item ≠ .importSpec spec) →
      Trace world (.body (item :: rest)) heard seen [] (.error e) seen
  | unlocated {spec rest heard seen e} :
      world.locate (Source.literalValue spec.path) = .error e →
      Trace world (.body (.importSpec spec :: rest)) heard seen
        [.locate (Source.literalValue spec.path) world.importRoot] (.error e) seen
  | qualified {spec rest heard seen seen' info events outcome} : spec.name ≠ some .dot →
      world.locate (Source.literalValue spec.path) = .ok info →
      Trace world (.body rest) heard seen events outcome seen' →
      Trace world (.body (.importSpec spec :: rest)) heard seen
        (.locate (Source.literalValue spec.path) world.importRoot :: events) outcome seen'
  | entered {spec rest heard seen seen₁ seen' info q events events' outcome} :
      spec.name = some .dot → world.locate (Source.literalValue spec.path) = .ok info →
      world.registry.byPath? info.importPath = some q →
      Trace world (.package q) heard seen events (.ok ()) seen₁ →
      Trace world (.body rest) (heardAfter heard events) seen₁ events' outcome seen' →
      Trace world (.body (.importSpec spec :: rest)) heard seen
        (.locate (Source.literalValue spec.path) world.importRoot :: (events ++ events'))
        outcome seen'
  | blocked {spec rest heard seen seen' info q events e} :
      spec.name = some .dot → world.locate (Source.literalValue spec.path) = .ok info →
      world.registry.byPath? info.importPath = some q →
      Trace world (.package q) heard seen events (.error e) seen' →
      Trace world (.body (.importSpec spec :: rest)) heard seen
        (.locate (Source.literalValue spec.path) world.importRoot :: events) (.error e) seen'

/-- The session goes on; nothing that a trace speaks of changes. -/
structure Proceeds (env env' : Environment) : Prop where
  grows : Grows env env'
  importRoot : env'.importRoot = env.importRoot

variable {env mid env' world world' : Environment} {q : PackageId}

theorem Proceeds.trans (h : Proceeds env mid) (h' : Proceeds mid env') : Proceeds env env' :=
  ⟨h.grows.trans h'.grows, h'.importRoot.trans h.importRoot⟩

theorem Steps.proceeds {events : List Event} (h : Steps env events env')
    (hr : env.registry.WellFormed) : Proceeds env env' :=
  ⟨h.grows hr, h.log.2.1⟩

theorem Proceeds.showed (h : Proceeds world world') {p : Package} (hp : world.Showed q p) :
    world'.Showed q p := by
  obtain ⟨p₁, hp₁, hpath₁, hfiles₁⟩ := hp
  obtain ⟨p₂, hp₂, hpath₂, hfiles₂, -⟩ := h.grows.packages q p₁ hp₁
  exact ⟨p₂, hp₂, hpath₂.trans hpath₁, hfiles₂.trans hfiles₁⟩

theorem Trace.later {stage : Stage} {heard : List FileEvent} {seen seen' : Set PackageId}
    {events : List Event} {outcome : Except Error Unit}
    (h : world.Trace stage heard seen events outcome seen') (hc : Proceeds world world') :
    world'.Trace stage heard seen events outcome seen' := by
  have hlistener := hc.grows.listener
  have hlocate := hc.grows.setup.locate
  have hparser := hc.grows.parser
  have hroot := hc.importRoot
  induction h with
  | known hq => exact .known hq
  | explored hq hreg _ ih =>
    exact .explored hq (hc.grows.retains.packages _ hreg) (hc.grows.files_eq hreg ▸ ih)
  | unexplored hq hreg _ ih =>
    exact .unexplored hq (hc.grows.retains.packages _ hreg) (hc.grows.files_eq hreg ▸ ih)
  | noFiles => exact .noFiles
  | nextFile _ _ ih ih' => exact .nextFile ih ih'
  | lastFile _ ih => exact .lastFile ih
  | skipped hl hp hb => exact .skipped (hlistener.trans hl) (hc.showed hp) hb
  | aborted hl hp hb => exact .aborted (hlistener.trans hl) (hc.showed hp) hb
  | concluded hl hp hp' hb _ ha ih =>
    exact .concluded (hlistener.trans hl) (hc.showed hp) (hc.showed hp') hb ih ha
  | overruled hl hp hp' hb _ ha ih =>
    exact .overruled (hlistener.trans hl) (hc.showed hp) (hc.showed hp') hb ih ha
  | unwatched hl _ ih => exact .unwatched (hlistener.trans hl) ih
  | unreadable hp => exact .unreadable (hparser ▸ hp)
  | read hp _ ih => exact .read (hparser ▸ hp) ih
  | noItems => exact .noItems
  | declared hi _ ih => exact .declared hi ih
  | broken hi => exact .broken hi
  | unlocated hl => exact hroot ▸ .unlocated (hlocate ▸ hl)
  | qualified hn hl _ ih => exact hroot ▸ .qualified hn (hlocate ▸ hl) ih
  | entered hn hl hq _ _ ih ih' =>
    exact hroot ▸ .entered hn (hlocate ▸ hl) (hc.grows.byPath? hq) ih ih'
  | blocked hn hl hq _ ih =>
    exact hroot ▸ .blocked hn (hlocate ▸ hl) (hc.grows.byPath? hq) ih

theorem exploredSet_congr (h : ∀ q, env'.explored q = env.explored q) :
    env'.exploredSet = env.exploredSet := by
  ext q
  exact iff_of_eq (congrArg (· = true) (h q))

/-- What was done between two environments is a trace of a stage. -/
def Traces {α : Type} (env : Environment) (stage : Stage) (events : List Event)
    (outcome : Except Error α) (env' : Environment) : Prop :=
  env'.Trace stage env.heard env.exploredSet events (outcome.map fun _ => ()) env'.exploredSet

/-- What was done between two environments is the part of a body that is its first item. -/
structure Begins (env : Environment) (item : Item) (events : List Event)
    (outcome : Except Error FileScope) (env' : Environment) : Prop where
  sound : ∀ scope, outcome = .ok scope → scope.Sound env'.registry
  goesOn : ∀ scope, outcome = .ok scope → ∀ world rest events' outcome' seen',
    Proceeds env' world →
    world.Trace (.body rest) env'.heard env'.exploredSet events' outcome' seen' →
    world.Trace (.body (item :: rest)) env.heard env.exploredSet (events ++ events') outcome' seen'
  stops : ∀ e, outcome = .error e → ∀ rest,
    env'.Trace (.body (item :: rest)) env.heard env.exploredSet events (.error e) env'.exploredSet

end Environment

open Environment (Proceeds Begins exploredSet_congr)

section Analyses

variable {enter : PackageId → Session Unit} {env : Environment}

def EntersTraced (enter : PackageId → Session Unit) : Prop :=
  ∀ q env, env.registry.WellFormed → env.builtin ≠ none → env.registry.Registered q →
    Takes env (enter q) (env.Traces (.package q))

structure FoundAt (env : Environment) (path : String) (info : PackageInfo) (q : PackageId)
    (env' : Environment) : Prop where
  proceeds : Proceeds env env'
  heard : env'.heard = env.heard
  seen : env'.exploredSet = env.exploredSet
  located : env.locate path = .ok info
  found : env'.registry.byPath? info.importPath = some q

theorem FoundAt.registered {path : String} {info : PackageInfo} {q : PackageId} {env' : Environment}
    (h : FoundAt env path info q env') : env'.registry.Registered q := by
  obtain ⟨⟨p, hp, -⟩, -⟩ := Registry.byPath?_eq_some_iff.mp h.found
  exact ⟨p, hp⟩

theorem Takes.of_located {α : Type} {path : String} {k : PackageInfo → PackageId → Session α}
    {good : List Event → Except Error α → Environment → Prop} (hr : env.registry.WellFormed)
    (herror : ∀ e env', Proceeds env env' → env'.exploredSet = env.exploredSet →
      env.locate path = .error e → good [.locate path env.importRoot] (.error e) env')
    (hok : ∀ info q env', FoundAt env path info q env' → Takes env' (k info q)
      fun events outcome env' => good (.locate path env.importRoot :: events) outcome env') :
    Takes env (do
      let info ← Session.locate path
      let q ← Session.ensurePackage info
      k info q) good := by
  have hseen : ∀ {env' : Environment}, env'.registry = env.registry →
      env'.exploredSet = env.exploredSet := fun h =>
    exploredSet_congr fun q => by rw [Environment.explored, h]; rfl
  refine Takes.bind (locate_takes path) ?_ ?_
  · rintro info env₁ _ hsteps ⟨rfl, hlocate, hreg⟩
    have h₁ := hsteps.proceeds hr
    refine Takes.bind (ensurePackage_takes h₁.grows.wellFormed info) ?_ ?_
    · rintro _ env₂ _ hsteps' ⟨rfl, ⟨q, hq, hpath⟩, hex⟩
      obtain rfl := Except.ok.inj hq
      refine hok info _ env₂ ⟨h₁.trans (hsteps'.proceeds h₁.grows.wellFormed), ?_, ?_,
        hlocate.symm, hpath⟩
      · exact hsteps'.log.2.2.trans hsteps.log.2.2
      · exact (exploredSet_congr hex).trans (hseen hreg)
    · rintro e env₂ _ _ ⟨-, ⟨q, hq, -⟩, -⟩
      cases hq
  · rintro e env₁ _ hsteps ⟨rfl, hlocate, hreg⟩
    exact herror e env₁ (hsteps.proceeds hr) (hseen hreg) hlocate.symm

theorem importSpec_takes (henter : EntersTraced enter) (hr : env.registry.WellFormed)
    (hb : env.builtin ≠ none) {scope : FileScope} (hs : scope.Sound env.registry)
    (spec : ImportSpec) :
    Takes env (importSpec enter scope spec) (Begins env (.importSpec spec)) := by
  unfold importSpec
  refine Takes.of_located hr (fun e env₁ h₁ hseen hlocate => ?_) fun info q env₂ hfinds => ?_
  · refine ⟨fun _ h => (nomatch h), fun _ h => (nomatch h), fun _ he rest => ?_⟩
    obtain rfl := Except.error.inj he
    rw [hseen]
    exact h₁.importRoot ▸ .unlocated (h₁.grows.setup.locate ▸ hlocate)
  have hs₂ := FileScope.Sound.retained hs hfinds.proceeds.grows.retains
  have hp : ∃ p, env₂.registry.package? q = some p := hfinds.registered
  have hplain : spec.name ≠ some .dot → ∀ {scope' : FileScope}, scope'.Sound env₂.registry →
      Takes env₂ (pure scope') fun events outcome env' => Begins env (.importSpec spec)
        (.locate (Source.literalValue spec.path) env.importRoot :: events) outcome env' := by
    intro hname scope' hs'
    refine takes_pure ⟨fun _ h => Except.ok.inj h ▸ hs', fun _ _ world rest _ _ _ hw h => ?_,
      fun _ h => (nomatch h)⟩
    have hc := hfinds.proceeds.trans hw
    rw [hfinds.heard, hfinds.seen] at h
    exact hc.importRoot ▸ .qualified hname (hc.grows.setup.locate ▸ hfinds.located) h
  split
  next hname =>
    exact Takes.after_get (hplain (by rw [hname]; exact nofun) (hs₂.insert_alias hp _))
  next name hname => exact hplain (by rw [hname]; exact nofun) (hs₂.insert_alias hp name)
  next hdot =>
    have hw₂ := hfinds.proceeds.grows.wellFormed
    have hb₂ : env₂.builtin ≠ none := hfinds.proceeds.grows.setup.builtin ▸ hb
    refine Takes.bind (henter q env₂ hw₂ hb₂ hfinds.registered) ?_ ?_
    · intro _ env₃ events hsteps htrace
      have h₃ := hsteps.proceeds hw₂
      have hs₃ := FileScope.Sound.retained hs₂ h₃.grows.retains
      refine takes_pure ⟨fun _ h => ?_, fun _ _ world rest events' _ _ hw h => ?_,
        fun _ h => (nomatch h)⟩
      · obtain rfl := Except.ok.inj h
        exact hs₃.addDotImport q
      · have hc := (hfinds.proceeds.trans h₃).trans hw
        have hnested := Environment.Trace.later htrace hw
        rw [hsteps.log.2.2, hfinds.heard] at h
        rw [hfinds.heard, hfinds.seen] at hnested
        rw [List.append_nil, List.cons_append]
        exact hc.importRoot ▸ .entered hdot (hc.grows.setup.locate ▸ hfinds.located)
          ((h₃.trans hw).grows.byPath? hfinds.found) hnested h
    · intro e env₃ events hsteps htrace
      refine ⟨fun _ h => (nomatch h), fun _ h => (nomatch h), fun _ he rest => ?_⟩
      obtain rfl := Except.error.inj he
      have h₃ := hsteps.proceeds hw₂
      have hc := hfinds.proceeds.trans h₃
      have hnested : env₃.Trace (.package q) env₂.heard env₂.exploredSet events (.error e) _ :=
        htrace
      rw [hfinds.heard, hfinds.seen] at hnested
      exact hc.importRoot ▸ .blocked hdot (hc.grows.setup.locate ▸ hfinds.located)
        (h₃.grows.byPath? hfinds.found) hnested
  next hname => exact hplain (by rw [hname]; exact nofun) hs₂

theorem analyzeItem_takes (henter : EntersTraced enter) (hr : env.registry.WellFormed)
    (hb : env.builtin ≠ none) {scope : FileScope} (hs : scope.Sound env.registry) (item : Item) :
    Takes env (analyzeItem enter scope item) (Begins env item) := by
  have hdeclared : (∀ spec, item ≠ .importSpec spec) → ∀ {step : Analysis Unit},
      (Works env.registry step fun _ _ => True) →
      Takes env (do Session.analyze step; return scope) (Begins env item) := by
    intro hitem step hworks
    refine Takes.bind (analyze_takes hr hworks) ?_ ?_
    · rintro _ mid _ hsteps ⟨rfl, hex⟩
      have hkeep := (hsteps.grows hr).retains
      refine takes_pure ⟨fun _ h => ?_, fun _ _ world rest _ _ _ _ h => ?_,
        fun _ h => (nomatch h)⟩
      · obtain rfl := Except.ok.inj h
        exact hs.retained hkeep
      · rw [exploredSet_congr hex, hsteps.log.2.2] at h
        exact .declared hitem h
    · rintro e mid _ hsteps ⟨rfl, hex⟩
      refine ⟨fun _ h => (nomatch h), fun _ h => (nomatch h), fun _ _ rest => ?_⟩
      rw [exploredSet_congr hex]
      exact .broken hitem
  cases item with
  | importSpec spec => exact importSpec_takes henter hr hb hs spec
  | typeSpec doc spec => exact hdeclared nofun (declareTypeSpec_works hr hs doc spec)
  | valueSpec kind doc spec source =>
    exact hdeclared nofun (declareValueSpec_works hr hs kind doc spec source)
  | func decl => exact hdeclared nofun (declareFunc_works hr hs decl)

theorem items_take (henter : EntersTraced enter) (items : List Item) :
    ∀ {env : Environment} {scope : FileScope}, env.registry.WellFormed → env.builtin ≠ none →
      scope.Sound env.registry →
        Takes env (items.foldlM (analyzeItem enter) scope) (env.Traces (.body items)) := by
  induction items with
  | nil => exact fun _ _ _ => takes_pure .noItems
  | cons item rest ih =>
    intro env scope hr hb hs
    rw [List.foldlM_cons]
    refine Takes.bind (analyzeItem_takes henter hr hb hs item) ?_ ?_
    · intro scope' mid events hsteps hadvance
      have hmid := hsteps.proceeds hr
      have hrest := ih hmid.grows.wellFormed (hmid.grows.setup.builtin ▸ hb)
        (hadvance.sound scope' rfl)
      refine hrest.mono fun events' outcome env' hsteps' htrace => ?_
      exact hadvance.goesOn scope' rfl env' rest _ _ _
        (hsteps'.proceeds hmid.grows.wellFormed) htrace
    · exact fun e mid events _ hadvance => hadvance.stops e rfl rest

theorem reading_takes (henter : EntersTraced enter) (hr : env.registry.WellFormed)
    (hb : env.builtin ≠ none) {pkg : PackageId} (hp : env.registry.Registered pkg)
    (path : String) :
    Takes env (do
      let file ← Session.parse pkg path
      analyzeFileWith enter pkg file) (env.Traces (.reading pkg path)) := by
  let env₁ : Environment := { env with log := env.log.push (.parse pkg path) }
  cases hparse : env.parser path with
  | error e =>
    have hunread : Step env [.parse pkg path] env₁ :=
      .unread pkg (.inr fun file hok => nomatch hparse.symm.trans hok)
    refine Takes.of_step hunread (k := Session.fail e) ?_ (takes_fail ?_)
    · change (Session.ofExcept (env.parser path) >>= analyzeFileWith enter pkg) env₁ = _
      rw [hparse]
      rfl
    · exact .unreadable hparse
  | ok file =>
    obtain ⟨builtin, hbuiltin⟩ := Option.ne_none_iff_exists'.mp hb
    have hread : Step env [.parse pkg path] (env₁.opened pkg file) := .read hp hparse
    have hc := hread.steps.proceeds hr
    have hscope : (env.scopeOf pkg builtin).Sound (env₁.opened pkg file).registry :=
      Environment.scopeOf_sound (hc.grows.retains.packages pkg hp) builtin
    have hseen : (env₁.opened pkg file).exploredSet = env.exploredSet :=
      exploredSet_congr (opened_quiet hr pkg file).explored
    have hitems :=
      items_take henter (items file) hc.grows.wellFormed (hc.grows.setup.builtin ▸ hb) hscope
    have hbody : Takes (env₁.opened pkg file) _ (Environment.Traces _ (.body (items file))) :=
      takes_discard hitems (fun _ _ _ h => h) fun _ _ _ h => h
    refine Takes.of_step hread ?_ (hbody.mono fun events outcome env' hsteps htrace => ?_)
    · change (Session.ofExcept (env.parser path) >>= analyzeFileWith enter pkg) env₁ = _
      rw [hparse]
      change analyzeFileWith enter pkg file env₁ = _
      have hget : (get : Session Environment) env₁ = .ok env₁ env₁ := rfl
      rw [analyzeFileWith, bind_eq_of_ok hget, show env₁.builtin = some builtin from hbuiltin,
        items, ← foldlM_analyzeDecl]
      rfl
    · have hparser := ((hsteps.proceeds hc.grows.wellFormed).grows.parser.trans hc.grows.parser)
      have htrace' := htrace
      rw [Environment.Traces, hseen, hread.log.2.2] at htrace'
      exact .read (hparser ▸ hparse) htrace'

def Environment.asked (env : Environment) (pkg : PackageId) (p : Package) (path : String) :
    Environment :=
  { env with
    heard := .before p path :: env.heard
    log := env.log.push (.file pkg (.before p path)) }

section Listeners

variable {pkg : PackageId} {path : String} {p : Package}

theorem announce_unwatched (hl : env.listener = none) :
    announce pkg path env = .ok .proceed env := by
  have hget : (get : Session Environment) env = .ok env env := rfl
  rw [announce, bind_eq_of_ok hget, hl]
  rfl

theorem announce_watched (path : String) {listener : Listener}
    (hl : env.listener = some listener) (hp : env.registry.package? pkg = some p) :
    announce pkg path env = .ok (listener.before env.heard p path) (env.asked pkg p path) := by
  have hget : (get : Session Environment) env = .ok env env := rfl
  generalize htold : EStateM.Result.ok (listener.before env.heard p path) _ = told
  rw [announce, bind_eq_of_ok hget, hl, hp]
  exact htold

theorem conclude_unwatched (hl : env.listener = none) (outcome : Except Error Unit) :
    conclude pkg path outcome env = .ok () env := by
  have hget : (get : Session Environment) env = .ok env env := rfl
  rw [conclude, bind_eq_of_ok hget, hl]
  rfl

theorem conclude_takes (path : String) {listener : Listener}
    (hl : env.listener = some listener) (hp : env.registry.package? pkg = some p)
    (outcome : Except Error Unit) :
    Takes env (do conclude pkg path outcome; Session.ofExcept outcome) fun events outcome' env' =>
      events = [.file pkg (.after p path outcome)] ∧ env'.registry = env.registry ∧
        (listener.after env.heard p path outcome = .ok () ∧ outcome' = outcome ∨
          ∃ e, listener.after env.heard p path outcome = .error e ∧ outcome' = .error e) := by
  refine Takes.of_step (.tell pkg (.after p path outcome)) (k := do
    Session.ofExcept (listener.after env.heard p path outcome)
    Session.ofExcept outcome) ?_ ?_
  · have hget : (get : Session Environment) env = .ok env env := rfl
    generalize htold : (Session.ofExcept (listener.after env.heard p path outcome) >>= _) _ = told
    rw [conclude, bind_assoc, bind_eq_of_ok hget, hl, hp]
    exact htold
  · cases hword : listener.after env.heard p path outcome with
    | error e => exact takes_fail ⟨rfl, rfl, .inr ⟨e, rfl, rfl⟩⟩
    | ok => exact takes_ofExcept ⟨rfl, rfl, .inl ⟨rfl, rfl⟩⟩

end Listeners

theorem map_unit (outcome : Except Error Unit) : (outcome.map fun _ => ()) = outcome := by
  cases outcome <;> rfl

theorem Environment.Showed.of_package? {q : PackageId} {p : Package}
    (h : env.registry.package? q = some p) : env.Showed q p := ⟨p, h, rfl, rfl⟩

/-- The part of a visit that comes after the listener's decision to go on. -/
def readFile (enter : PackageId → Session Unit) (pkg : PackageId) (path : String) :
    Session Unit := do
  let outcome ← Session.attempt do
    let file ← Session.parse pkg path
    analyzeFileWith enter pkg file
  conclude pkg path outcome
  Session.ofExcept outcome

theorem readFile_unwatched (henter : EntersTraced enter) (hr : env.registry.WellFormed)
    (hb : env.builtin ≠ none) {pkg : PackageId} (hp : env.registry.Registered pkg) (path : String)
    (hl : env.listener = none) :
    Takes env (readFile enter pkg path) (env.Traces (.file pkg path)) := by
  refine Takes.bind (takes_attempt (reading_takes henter hr hb hp path)) ?_ ?_
  · rintro outcome mid events hsteps ⟨_, hanswer, htrace⟩
    obtain rfl := Except.ok.inj hanswer
    have hmid := (hsteps.grows hr).listener.trans hl
    have hskip : (do conclude pkg path outcome; Session.ofExcept outcome) mid =
        Session.ofExcept outcome mid := bind_eq_of_ok (conclude_unwatched hmid outcome)
    unfold Takes
    rw [hskip]
    refine takes_ofExcept ?_
    rw [List.append_nil]
    exact .unwatched hmid htrace
  · rintro e mid events _ ⟨_, hanswer, -⟩
    cases hanswer

theorem readFile_watched (henter : EntersTraced enter) (hr : env.registry.WellFormed)
    (hb : env.builtin ≠ none) {pkg : PackageId} {p : Package} {path : String} {listener : Listener}
    (hl : env.listener = some listener) (hp : env.registry.package? pkg = some p)
    (hdecision : listener.before env.heard p path = .proceed) :
    Takes (env.asked pkg p path) (readFile enter pkg path) fun events outcome env' =>
      env.Traces (.file pkg path) (.file pkg (.before p path) :: events) outcome env' := by
  have htell : Step env [.file pkg (.before p path)] (env.asked pkg p path) := .tell pkg _
  have h₁ := htell.steps.proceeds hr
  have hw₁ := h₁.grows.wellFormed
  have hshowed : (env.asked pkg p path).Showed pkg p := .of_package? hp
  have hreading := reading_takes henter hw₁ (h₁.grows.setup.builtin ▸ hb)
    (show (env.asked pkg p path).registry.Registered pkg from ⟨p, hp⟩) path
  refine Takes.bind (takes_attempt hreading) ?_ ?_
  · rintro outcome mid events hsteps ⟨_, hanswer, htrace⟩
    obtain rfl := Except.ok.inj hanswer
    have hmid := hsteps.proceeds hw₁
    obtain ⟨p', hp', -⟩ := hmid.grows.packages pkg p hp
    have hlmid := hmid.grows.listener.trans hl
    refine (conclude_takes path hlmid hp' outcome).mono ?_
    rintro _ outcome' env' hsteps' ⟨rfl, hreg, hword⟩
    have h' := hsteps'.proceeds hmid.grows.wellFormed
    have hseen : env'.exploredSet = mid.exploredSet :=
      exploredSet_congr fun q => by rw [Environment.explored, hreg]; rfl
    have hread := Environment.Trace.later htrace h'
    rw [map_unit, ← hseen] at hread
    have hl' := h'.grows.listener.trans hlmid
    have hshowed' : env'.Showed pkg p' := .of_package? (hreg ▸ hp')
    have hshowed₁ := (hmid.trans h').showed hshowed
    rw [hsteps.log.2.2] at hword
    rcases hword with ⟨hword, rfl⟩ | ⟨e, hword, rfl⟩
    · rw [Environment.Traces, map_unit]
      exact .concluded hl' hshowed₁ hshowed' hdecision hread hword
    · exact .overruled hl' hshowed₁ hshowed' hdecision hread hword
  · rintro e mid events _ ⟨_, hanswer, -⟩
    cases hanswer

theorem visitFile_takes (henter : EntersTraced enter) (hr : env.registry.WellFormed)
    (hb : env.builtin ≠ none) {pkg : PackageId} (hp : env.registry.Registered pkg)
    (path : String) : Takes env (visitFile enter pkg path) (env.Traces (.file pkg path)) := by
  cases hl : env.listener with
  | none =>
    have hrun : visitFile enter pkg path env = readFile enter pkg path env := by
      rw [visitFile, bind_eq_of_ok (announce_unwatched hl), readFile]
    exact Takes.of_eq hrun (readFile_unwatched henter hr hb hp path hl)
  | some listener =>
    obtain ⟨p, hp⟩ := hp
    have htell : Step env [.file pkg (.before p path)] (env.asked pkg p path) := .tell pkg _
    have hshowed : (env.asked pkg p path).Showed pkg p := .of_package? hp
    have hannounce := announce_watched path hl hp
    cases hdecision : listener.before env.heard p path with
    | skip =>
      refine Takes.of_step htell (k := pure ()) ?_ (takes_pure (.skipped hl hshowed hdecision))
      rw [visitFile, bind_eq_of_ok hannounce, hdecision]
    | abort e =>
      refine Takes.of_step htell (k := Session.fail e) ?_
        (takes_fail (.aborted hl hshowed hdecision))
      rw [visitFile, bind_eq_of_ok hannounce, hdecision]
    | proceed =>
      refine Takes.of_step htell ?_ (readFile_watched henter hr hb hl hp hdecision)
      rw [visitFile, bind_eq_of_ok hannounce, hdecision, readFile]

theorem visitFiles_takes (henter : EntersTraced enter) {pkg : PackageId} (paths : List String) :
    ∀ {env : Environment}, env.registry.WellFormed → env.builtin ≠ none →
      env.registry.Registered pkg →
        Takes env (visitFiles enter pkg paths) (env.Traces (.files pkg paths)) := by
  induction paths with
  | nil => exact fun _ _ _ => takes_pure .noFiles
  | cons path rest ih =>
    intro env hr hb hp
    refine Takes.bind (visitFile_takes henter hr hb hp path) ?_ ?_
    · intro _ mid events hsteps hfile
      have hmid := hsteps.proceeds hr
      have hrest := ih hmid.grows.wellFormed (hmid.grows.setup.builtin ▸ hb)
        (hmid.grows.retains.packages pkg hp)
      refine hrest.mono fun events' outcome env' hsteps' htrace => ?_
      rw [Environment.Traces, hsteps.log.2.2] at htrace
      exact .nextFile (Environment.Trace.later hfile (hsteps'.proceeds hmid.grows.wellFormed))
        htrace
    · exact fun e mid events _ hfile => .lastFile hfile

theorem explore_takes (henter : EntersTraced enter) (hr : env.registry.WellFormed)
    (hb : env.builtin ≠ none) {pkg : PackageId} (hp : env.registry.Registered pkg)
    (hnew : env.explored pkg = false) :
    Takes env (explore enter pkg) (env.Traces (.package pkg)) := by
  have hunseen : pkg ∉ env.exploredSet := fun h => nomatch hnew.symm.trans h
  change Takes env (do
    visitFiles enter pkg (env.files pkg)
    Session.analyze (modify (·.modifyPackage pkg (·.markExplored)))) _
  refine Takes.bind (visitFiles_takes henter (env.files pkg) hr hb hp) ?_ ?_
  · intro _ mid events hsteps htrace
    have hmid := hsteps.proceeds hr
    have hp' := hmid.grows.retains.packages pkg hp
    have hmark : Step mid [] (mid.markExplored pkg) := .markExplored pkg
    have hc := hmark.steps.proceeds hmid.grows.wellFormed
    refine Takes.of_step hmark (k := pure ()) rfl (takes_pure ?_)
    have hfiles := (hmid.trans hc).grows.files_eq hp
    have hall := Environment.Trace.later htrace hc
    have hseen : (mid.markExplored pkg).exploredSet = insert pkg mid.exploredSet := by
      ext q
      by_cases hq : pkg = q
      · subst hq
        exact iff_of_true (explored_markExplored_self hp') (.inl rfl)
      · have hkept : q ∈ (mid.markExplored pkg).exploredSet ↔ q ∈ mid.exploredSet :=
          iff_of_eq (congrArg (· = true) (explored_markExplored_of_ne hq))
        rw [hkept, Set.mem_insert_iff]
        exact ⟨.inr, fun h => h.resolve_left (Ne.symm hq)⟩
    rw [Environment.Traces, hseen, List.append_nil, List.append_nil]
    exact .explored hunseen (hc.grows.retains.packages pkg hp') (hfiles.symm ▸ hall)
  · intro e mid events hsteps htrace
    have hmid := hsteps.proceeds hr
    exact .unexplored hunseen (hmid.grows.retains.packages pkg hp)
      ((hmid.grows.files_eq hp).symm ▸ htrace)

/-- An explored package is left alone, whatever depth imports may nest to. -/
theorem analyzePackage_known (depth : Nat) {q : PackageId} (hex : env.explored q = true) :
    analyzePackage depth q env = .ok () env := by
  cases depth with
  | zero => exact congrFun (if_pos hex) env
  | succ depth => exact congrFun (if_pos hex) env

theorem analyzePackage_takes (depth : Nat) : EntersTraced (analyzePackage depth) := by
  induction depth with
  | zero =>
    intro q env hr hb hp
    by_cases hex : env.explored q = true
    · exact Takes.of_eq (k := pure ()) (analyzePackage_known 0 hex) (takes_pure (.known hex))
    · have hdeep : analyzePackage 0 q env = .error .tooDeep env := congrFun (if_neg hex) env
      unfold Takes
      rw [hdeep]
      exact ⟨[], .refl⟩
  | succ depth ih =>
    intro q env hr hb hp
    by_cases hex : env.explored q = true
    · exact Takes.of_eq (k := pure ()) (analyzePackage_known _ hex) (takes_pure (.known hex))
    · have hrun : analyzePackage (depth + 1) q env = explore (analyzePackage depth) q env :=
        congrFun (if_neg hex) env
      exact Takes.of_eq hrun (explore_takes ih hr hb hp (Bool.eq_false_of_not_eq_true hex))

end Analyses

end GoPackages
