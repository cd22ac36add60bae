import GoPackages.Proofs.Environment.Traced

/-!
# The steps of requests

Every request to a session takes steps, whether it succeeds or fails, but for those that leave
the packages and the history alone. So what the steps keep is kept over a whole session: packages
stay explored, and the links between them stay those of their import paths.
-/
namespace GoPackages

open Source (SourceFile)
open Environment (Step Steps Request)

namespace Environment

/-- A package that comes to be explored had its files parsed in order, each once, where imports
without a qualifier form no cycle. -/
def Explores (env : Environment) (events : List Event) (env' : Environment) : Prop :=
  (∀ a, ¬Relation.TransGen env'.Enters a a) → ∀ q, env.explored q = false →
    env'.explored q = true → env'.Taken (env'.files q) (parsedIn q events)

variable {env mid env' : Environment} {events : List Event}

theorem Explores.of_same (h : ∀ q, env'.explored q = env.explored q) :
    env.Explores events env' :=
  fun _ q hold hnew => nomatch hold.symm.trans ((h q).symm.trans hnew)

theorem Explores.of_traces {α : Type} {front : List Event} {q : PackageId}
    {outcome : Except Error α} (hfront : ∀ t, parsedIn t front = [])
    (hsame : ∀ t, mid.explored t = env.explored t)
    (h : mid.Traces (.package q) events outcome env') : env.Explores (front ++ events) env' := by
  intro hacyclic t hold hnew
  rw [parsedIn_append, hfront, List.nil_append]
  refine (Trace.completes hacyclic h (q := t) nofun).taken (fun hmid => ?_) hnew
  exact nomatch hold.symm.trans ((hsame t).symm.trans hmid)

end Environment

section Calls

variable {env : Environment}

theorem append_eq_of_ok {p : Package} {found : PackageId × Registry}
    (h : env.registry.append p = .ok found) :
    Session.append p env = .ok found.1 { env with registry := found.2 } := by
  change (Session.ofExcept (env.registry.append p) >>= _) env = _
  rw [h]
  rfl

theorem append_eq_of_error {p : Package} {e : Error} (h : env.registry.append p = .error e) :
    Session.append p env = .error (.failed e) env := by
  change (Session.ofExcept (env.registry.append p) >>= _) env = _
  rw [h]
  rfl

theorem append_refused_iff (env : Environment) (info : PackageInfo) :
    ((env.registry.byPath? info.importPath).isSome ↔
        ∃ e env', Session.append (.ofInfo info) env = .error e env') ∧
      ∀ e env', Session.append (.ofInfo info) env = .error e env' →
        e = .failed (.duplicatePackage info.importPath) ∧ env' = env := by
  have hpath : (Package.ofInfo info).importPath = info.importPath := rfl
  cases hknown : env.registry.byPath? info.importPath with
  | some q =>
    have hrefused : env.registry.append (.ofInfo info) =
        .error (.duplicatePackage info.importPath) := by
      rw [Registry.append, hpath, hknown]
    rw [append_eq_of_error hrefused]
    refine ⟨iff_of_true rfl ⟨_, _, rfl⟩, fun e env' h => ?_⟩
    cases h
    exact ⟨rfl, rfl⟩
  | none =>
    obtain ⟨found, happend⟩ : ∃ found, env.registry.append (.ofInfo info) = .ok found := by
      rw [Registry.append, hpath, hknown]
      exact ⟨_, rfl⟩
    rw [append_eq_of_ok happend]
    refine ⟨iff_of_false Bool.false_ne_true ?_, fun e env' h => ?_⟩
    · rintro ⟨e, env', h⟩
      cases h
    · cases h

theorem Takes.stateAfter {α : Type} {m : Session α}
    {good : List Event → Except Error α → Environment → Prop} (h : Takes env m good) :
    ∃ events, Steps env events (stateAfter m env) := by
  unfold Takes at h
  unfold GoPackages.stateAfter
  cases hm : m env with
  | ok a env' =>
    rw [hm] at h
    obtain ⟨events, hsteps, -⟩ := h
    exact ⟨events, hsteps⟩
  | error e env' =>
    rw [hm] at h
    cases e with
    | failed e =>
      obtain ⟨events, hsteps, -⟩ := h
      exact ⟨events, hsteps⟩
    | tooDeep => exact h

theorem located_takes (hr : env.registry.WellFormed) (hb : env.builtin ≠ none) (depth : Nat)
    {find : Session PackageInfo}
    (hfind : Takes env find fun events _ env' =>
      (∀ q, parsedIn q events = []) ∧ env'.registry = env.registry) :
    Takes env (do
      let pkg ← Session.ensurePackage (← find)
      analyzePackage depth pkg
      return pkg) fun events _ env' => env.Explores events env' := by
  have hsame : ∀ {mid : Environment}, mid.registry = env.registry →
      ∀ q, mid.explored q = env.explored q := fun h q => by
    rw [Environment.explored, h]
    rfl
  refine Takes.bind hfind ?_ fun _ mid _ _ h => .of_same (hsame h.2)
  rintro info env₁ front hsteps₁ ⟨hfront, hreg⟩
  have h₁ := hsteps₁.grows hr
  refine Takes.bind (ensurePackage_takes h₁.wellFormed info) ?_ ?_
  · rintro _ env₂ _ hsteps₂ ⟨rfl, ⟨q, hq, hpath⟩, hex⟩
    obtain rfl := Except.ok.inj hq
    have h₂ := h₁.trans (hsteps₂.grows h₁.wellFormed)
    have hkept : ∀ t, env₂.explored t = env.explored t := fun t => (hex t).trans (hsame hreg t)
    obtain ⟨⟨p, hp, -⟩, -⟩ := Registry.byPath?_eq_some_iff.mp hpath
    refine Takes.bind (analyzePackage_takes depth _ env₂ h₂.wellFormed (h₂.setup.builtin ▸ hb)
      ⟨p, hp⟩) ?_ ?_
    · intro _ env₃ events _ htrace
      refine takes_pure ?_
      rw [List.append_nil, List.nil_append]
      exact .of_traces hfront hkept htrace
    · intro e env₃ events _ htrace
      rw [List.nil_append]
      exact .of_traces hfront hkept htrace
  · rintro e mid _ _ ⟨-, ⟨q, hq, -⟩, -⟩
    cases hq

theorem importDir_takes (hr : env.registry.WellFormed) (hb : env.builtin ≠ none) (depth : Nat)
    (dir : String) :
    Takes env (importDir depth dir) fun events _ env' => env.Explores events env' := by
  refine located_takes hr hb depth ((locateDir_takes dir).mono ?_)
  rintro _ _ _ - ⟨rfl, hreg⟩
  exact ⟨fun _ => rfl, hreg⟩

theorem importPackage_takes (hr : env.registry.WellFormed) (hb : env.builtin ≠ none) (depth : Nat)
    (path : String) :
    Takes env (importPackage depth path) fun events _ env' => env.Explores events env' := by
  have hlocated : Takes env (importPackage.locateAndAnalyze depth path)
      fun events _ env' => env.Explores events env' := by
    refine located_takes hr hb depth ((locate_takes path).mono ?_)
    rintro _ _ _ - ⟨rfl, -, hreg⟩
    exact ⟨fun _ => rfl, hreg⟩
  unfold importPackage
  refine Takes.after_get ?_
  dsimp only
  split
  · split
    · exact takes_pure (.of_same fun _ => rfl)
    · exact hlocated
  · exact hlocated

theorem analyzePackage_explores (hr : env.registry.WellFormed) (hb : env.builtin ≠ none)
    (depth : Nat) {pkg : PackageId} (hp : env.registry.Registered pkg) :
    Takes env (analyzePackage depth pkg) fun events _ env' => env.Explores events env' := by
  have hnothing : ∀ t, parsedIn t [] = [] := fun _ => rfl
  refine (analyzePackage_takes depth pkg env hr hb hp).mono fun _ _ _ _ htrace => ?_
  exact .of_traces hnothing (fun _ => rfl) htrace

theorem analyzeFile_takes (hr : env.registry.WellFormed) (hb : env.builtin ≠ none) (depth : Nat)
    {pkg : PackageId} (hp : env.registry.Registered pkg) (file : SourceFile) :
    ∃ events, Steps (env.opened pkg file) events (stateAfter (analyzeFile depth pkg file) env) := by
  obtain ⟨builtin, hbuiltin⟩ := Option.ne_none_iff_exists'.mp hb
  have hopened := (opened_quiet hr pkg file).grows
  have hscope : (env.scopeOf pkg builtin).Sound (env.opened pkg file).registry :=
    Environment.scopeOf_sound (hopened.retains.packages pkg hp) builtin
  have hitems := items_take (analyzePackage_takes depth) (items file) hopened.wellFormed
    (hopened.setup.builtin ▸ hb) hscope
  have hbody : Takes (env.opened pkg file) _ (Environment.Traces _ (.body (items file))) :=
    takes_discard hitems (fun _ _ _ h => h) fun _ _ _ h => h
  have hget : (get : Session Environment) env = .ok env env := rfl
  have hrun : analyzeFile depth pkg file env =
      discard ((items file).foldlM (analyzeItem (analyzePackage depth)) (env.scopeOf pkg builtin))
        (env.opened pkg file) := by
    rw [analyzeFile, analyzeFileWith, bind_eq_of_ok hget, hbuiltin, items, ← foldlM_analyzeDecl]
    rfl
  obtain ⟨events, hsteps⟩ := hbody.stateAfter
  refine ⟨events, ?_⟩
  unfold stateAfter at hsteps ⊢
  rwa [hrun]

end Calls

namespace Environment

variable {env env' : Environment}

/-- What a request comes to. A file that is given has its documentation noted first. -/
theorem perform_cases (hr : env.registry.WellFormed) (hb : env.builtin ≠ none)
    {request : Request} (hn : env.Names request) :
    (∃ events, Steps env events (env.perform request)) ∨
      (∃ depth pkg file events, request = .analyzeFile depth pkg file ∧
        Steps (env.opened pkg file) events (env.perform request)) ∨
      (env.perform request).registry.packages = env.registry.packages ∧
        (env.perform request).log = env.log ∧ (env.perform request).parser = env.parser ∧
        ((∀ q, request ≠ .recordImplementations q) →
          (env.perform request).registry.graph = env.registry.graph) ∧
        (env.perform request).locator = env.locator ∧
          (env.perform request).importRoot = env.importRoot := by
  cases request with
  | append info =>
    refine .inl ⟨[], ?_⟩
    change Steps env [] (stateAfter (Session.append (.ofInfo info)) env)
    cases happend : env.registry.append (.ofInfo info) with
    | ok found => rw [stateAfter, append_eq_of_ok happend]; exact (Step.append happend).steps
    | error e => rw [stateAfter, append_eq_of_error happend]; exact .refl
  | ensureRef pkg name => exact .inl ⟨[], (Step.edits (.single (.ensureRef hn name))).steps⟩
  | importPackage depth path => exact .inl (importPackage_takes hr hb depth path).stateAfter
  | importDir depth dir => exact .inl (importDir_takes hr hb depth dir).stateAfter
  | analyzeFile depth pkg file =>
    obtain ⟨events, hsteps⟩ := analyzeFile_takes hr hb depth hn file
    exact .inr (.inl ⟨depth, pkg, file, events, rfl, hsteps⟩)
  | analyzePackage depth pkg =>
    exact .inl (analyzePackage_takes depth pkg env hr hb hn).stateAfter
  | recordImplementations pkg =>
    refine .inr (.inr ⟨?_, rfl, rfl, fun hnot => absurd rfl (hnot pkg), rfl, rfl⟩)
    change (env.registry.recordImplementations pkg).2.packages = _
    unfold Registry.recordImplementations
    split <;> rfl
  | setListener | setTagDecoder => exact .inr (.inr ⟨rfl, rfl, rfl, fun _ => rfl, rfl, rfl⟩)

theorem perform_tree (hr : env.registry.WellFormed) (hb : env.builtin ≠ none) {request : Request}
    (hn : env.Names request) (ht : env.registry.PackageTree) :
    (env.perform request).registry.PackageTree := by
  rcases perform_cases hr hb hn with ⟨_, hsteps⟩ | ⟨_, pkg, file, _, -, hsteps⟩ | ⟨hsame, -⟩
  · exact hsteps.tree ht
  · exact hsteps.tree (ht.modifyPackage pkg fun _ => ⟨rfl, rfl, rfl⟩)
  · refine ht.of_links (g := id) (fun p p' heq => ?_) fun q => ?_
    · obtain rfl : p = p' := heq
      exact ⟨rfl, rfl, rfl⟩
    · rw [Registry.package?, hsame]
      rfl

theorem perform_explored (hr : env.registry.WellFormed) (hb : env.builtin ≠ none)
    {request : Request} (hn : env.Names request) {q : PackageId} (hq : env.explored q = true) :
    (env.perform request).explored q = true := by
  rcases perform_cases hr hb hn with ⟨_, hsteps⟩ | ⟨_, pkg, file, _, -, hsteps⟩ | ⟨hsame, -⟩
  · exact (hsteps.grows hr).explored hq
  · have hopened := (opened_quiet hr pkg file).grows
    exact (hopened.trans (hsteps.grows hopened.wellFormed)).explored hq
  · change ((env.perform request).registry.package? q).any _ = true
    rw [Registry.package?, hsame]
    exact hq

theorem perform_parser_eq (hr : env.registry.WellFormed) (hb : env.builtin ≠ none)
    {request : Request} (hn : env.Names request) : (env.perform request).parser = env.parser := by
  rcases perform_cases hr hb hn with ⟨_, hsteps⟩ | ⟨_, pkg, file, _, -, hsteps⟩ | ⟨-, -, hsame, -⟩
  · exact (hsteps.grows hr).parser
  · exact (hsteps.grows (opened_quiet hr pkg file).grows.wellFormed).parser
  · exact hsame

theorem perform_locator_eq (hr : env.registry.WellFormed) (hb : env.builtin ≠ none)
    {request : Request} (hn : env.Names request) :
    (env.perform request).locator = env.locator ∧
      (env.perform request).importRoot = env.importRoot := by
  rcases perform_cases hr hb hn with
    ⟨_, hsteps⟩ | ⟨_, pkg, file, _, -, hsteps⟩ | ⟨-, -, -, -, hlocator, hroot⟩
  · exact ⟨hsteps.locator, hsteps.log.2.1⟩
  · exact ⟨hsteps.locator, hsteps.log.2.1⟩
  · exact ⟨hlocator, hroot⟩

theorem performAll_keeps {P : Environment → Prop} {requests : List Request}
    (hP : ∀ request ∈ requests, ∀ {env}, Environment.WellFormed env → env.builtin ≠ none →
      env.Names request → P env → P (env.perform request))
    (hw : env.WellFormed) (hb : env.builtin ≠ none) (hn : env.NamesAll requests) (h : P env) :
    P (env.performAll requests) := by
  induction requests generalizing env with
  | nil => exact h
  | cons request rest ih =>
    have hlasts := perform_lasts hw.registry hn.1
    refine ih (fun r hr => hP r (List.mem_cons_of_mem _ hr)) (hlasts.keeps hw)
      (hlasts.builtin.symm ▸ hb) hn.2 ?_
    exact hP request List.mem_cons_self hw hb hn.1 h

theorem new_builtin_ne_none (currentDir : Option String) (locator : Locator)
    (parser : SourceParser) : (Environment.new currentDir locator parser).builtin ≠ none := by
  change Registry.new.builtin? ≠ none
  rw [Registry.new_builtin?]
  exact nofun

section Sessions

variable (currentDir : Option String) (locator : Locator) (parser : SourceParser)

theorem performAll_builtin {requests : List Request}
    (hn : (Environment.new currentDir locator parser).NamesAll requests) :
    ((Environment.new currentDir locator parser).performAll requests).builtin ≠ none :=
  performAll_keeps (P := fun env => env.builtin ≠ none)
    (fun _ _ _ hw hb hn _ => (perform_lasts hw.registry hn).builtin.symm ▸ hb)
    (new_wellFormed currentDir locator parser) (new_builtin_ne_none currentDir locator parser) hn
    (new_builtin_ne_none currentDir locator parser)

theorem performAll_locator {requests : List Request}
    (hn : (Environment.new currentDir locator parser).NamesAll requests) :
    ((Environment.new currentDir locator parser).performAll requests).locator = locator ∧
      ((Environment.new currentDir locator parser).performAll requests).importRoot =
        currentDir.getD "." :=
  performAll_keeps
    (P := fun env => env.locator = locator ∧ env.importRoot = currentDir.getD ".")
    (fun _ _ _ hw hb hn h =>
      let hkept := perform_locator_eq hw.registry hb hn
      ⟨hkept.1.trans h.1, hkept.2.trans h.2⟩)
    (new_wellFormed currentDir locator parser) (new_builtin_ne_none currentDir locator parser) hn
    ⟨rfl, rfl⟩

theorem performAll_tree {requests : List Request}
    (hn : (Environment.new currentDir locator parser).NamesAll requests) :
    ((Environment.new currentDir locator parser).performAll requests).registry.PackageTree :=
  performAll_keeps (P := fun env => env.registry.PackageTree)
    (fun _ _ _ hw hb hn ht => perform_tree hw.registry hb hn ht)
    (new_wellFormed currentDir locator parser) (new_builtin_ne_none currentDir locator parser) hn
    Registry.new_packageTree

/-- Whatever is asked of a new session, and whatever of it fails, the links of its packages are
those of their import paths and lead nowhere in a circle. Two sessions that know the same paths
link them alike, and only a path that is taken is refused, which changes nothing. A table that gets
an entry for each package that is registered, and that declarations leave alone, finds the packages
by their paths. -/
theorem packages_form_a_tree {requests : List Request}
    (hn : (Environment.new currentDir locator parser).NamesAll requests) :
    let env := (Environment.new currentDir locator parser).performAll requests
    env.registry.PackageTree ∧
      (∀ q, ¬Relation.TransGen env.registry.ParentOf q q) ∧
      (∀ currentDir' locator' parser' requests',
        (Environment.new currentDir' locator' parser').NamesAll requests' →
        let env' := (Environment.new currentDir' locator' parser').performAll requests'
        (∀ path, (env'.registry.byPath? path).isSome ↔ (env.registry.byPath? path).isSome) →
          ∀ above path, env'.registry.LinksPaths above path ↔
            env.registry.LinksPaths above path) ∧
      (∀ info, ((env.registry.byPath? info.importPath).isSome ↔
          ∃ e env', Session.append (.ofInfo info) env = .error e env') ∧
        ∀ e env', Session.append (.ofInfo info) env = .error e env' →
          e = .failed (.duplicatePackage info.importPath) ∧ env' = env) ∧
      (∀ path : String, env.registry.pathIndex[path]? = env.registry.byPath? path) ∧
      (∀ info q reg', env.registry.append (.ofInfo info) = .ok (q, reg') →
        reg'.pathIndex = env.registry.pathIndex.insert info.importPath q) ∧
      ∀ reg', Registry.Edits env.registry reg' → reg'.pathIndex = env.registry.pathIndex := by
  intro env
  have htree := performAll_tree currentDir locator parser hn
  refine ⟨htree, htree.acyclic, ?_, append_refused_iff env, htree.getElem?_pathIndex,
    fun _ _ _ => Registry.pathIndex_append, fun _ => Registry.pathIndex_edits⟩
  intro currentDir' locator' parser' requests' hn' env' hpaths above path
  rw [(performAll_tree currentDir' locator' parser' hn').linksPaths_iff, htree.linksPaths_iff,
    hpaths, hpaths]

end Sessions

/-- A package before its parent, its path once more, and the package below them. -/
def outOfOrder : List Request :=
  [.append ⟨"b", "a/b", "", []⟩, .append ⟨"a", "a", "", []⟩, .append ⟨"b", "a/b", "", []⟩,
    .append ⟨"c", "a/b/c", "", []⟩, .append ⟨"", "a/", "", []⟩]

theorem outOfOrder_is_linked :
    (Environment.new none noPackages noFiles).NamesAll outOfOrder ∧
      let reg := ((Environment.new none noPackages noFiles).performAll outOfOrder).registry
      (∀ q, ¬Relation.TransGen reg.ParentOf q q) ∧ reg.LinksPaths "a" "a/b" ∧
        reg.LinksPaths "a" "a/" ∧ reg.LinksPaths "a/b" "a/b/c" ∧
        (reg.package? ⟨2⟩).map (·.subpackages) = some [⟨1⟩, ⟨4⟩] := by
  have hn : (Environment.new none noPackages noFiles).NamesAll outOfOrder :=
    ⟨trivial, trivial, trivial, trivial, trivial, trivial⟩
  obtain ⟨htree, hacyclic, -⟩ := packages_form_a_tree none noPackages noFiles hn
  refine ⟨hn, hacyclic, htree.linksPaths_iff.mpr ?_, htree.linksPaths_iff.mpr ?_,
    htree.linksPaths_iff.mpr ?_, by decide +kernel⟩
  · exact ⟨by decide +kernel, by decide +kernel, "b", by decide, rfl⟩
  · exact ⟨by decide +kernel, by decide +kernel, "", by decide, rfl⟩
  · exact ⟨by decide +kernel, by decide +kernel, "c", by decide, rfl⟩

end Environment

end GoPackages
