import GoPackages.Proofs.Environment.PackageCalls
import GoPackages.Proofs.Environment.Protocol

/-!
# Importing a package again

What was imported with success may be asked for again: the package is located once more at most,
and nothing is read or told. The path that was asked for need not be that of the package that was
located, so it may be the path of another package, one that was registered by hand or that the
first import came to. Such a package is not explored behind the back of the first import, where
the locator knows its packages by their own paths.
-/
namespace GoPackages

open Environment (Grows Proceeds Step Steps)

/-- Seen from a directory, the locator has a package of the same path for the path of every package
that it answers with. -/
def Locator.KnowsOwnPaths (locator : Locator) (fromDir : String) : Prop :=
  ∀ path info, locator.locate path fromDir = .ok info →
    ∃ own, locator.locate info.importPath fromDir = .ok own ∧ own.importPath = info.importPath

/-- Requests to find a package, as opposed to those that read files or speak to the listener. -/
def Event.Locates : Event → Prop
  | .locate _ _ | .locateDir _ => True
  | .parse _ _ | .file _ _ => False

namespace Environment

variable {env mid env' world : Environment} {path : String} {info : PackageInfo}
  {q t : PackageId}

/-- The environment as it is, with some requests added to its history. -/
def noted (env : Environment) (events : List Event) : Environment :=
  { env with log := env.log ++ events.toArray }

@[simp] theorem noted_nil (env : Environment) : env.noted [] = env := by
  rw [noted, Array.append_empty]

theorem Grows.byPath?_of_registered (h : Grows env env') (hreg : env.registry.Registered q)
    (hq : env'.registry.byPath? path = some q) : env.registry.byPath? path = some q := by
  obtain ⟨p, hp⟩ := hreg
  obtain ⟨p', hp', hsame, -⟩ := h.packages q p hp
  obtain ⟨⟨_, hp'', hpath⟩, -⟩ := Registry.byPath?_eq_some_iff.mp hq
  obtain rfl := Option.some.inj (hp'.symm.trans hp'')
  cases hold : env.registry.byPath? path with
  | none => exact absurd (hsame.symm.trans hpath) (Registry.importPath_ne_of_byPath? hold hp)
  | some s => exact (h.byPath? hold).symm.trans hq

/-- The locator has some path for the package. -/
def Locatable (env : Environment) (q : PackageId) : Prop :=
  ∃ path info, env.locate path = .ok info ∧ env.registry.byPath? info.importPath = some q

theorem Locatable.locate_own (h : env.Locatable q)
    (hown : env.locator.KnowsOwnPaths env.importRoot)
    (hq : env.registry.byPath? path = some q) :
    ∃ own, env.locate path = .ok own ∧ own.importPath = path := by
  obtain ⟨asked, info, hlocate, hfound⟩ := h
  obtain ⟨⟨p, hp, hpath⟩, -⟩ := Registry.byPath?_eq_some_iff.mp hq
  obtain ⟨⟨p', hp', hpath'⟩, -⟩ := Registry.byPath?_eq_some_iff.mp hfound
  obtain rfl := Option.some.inj (hp.symm.trans hp')
  obtain rfl := hpath.symm.trans hpath'
  exact hown asked info hlocate

/-- A package that comes to be explored while another one is traced is that one, or was located
for an import without a qualifier. -/
theorem Reaches.eq_or_locatable {seen : Set PackageId} {p : PackageId}
    (h : world.Reaches seen (.package p) q) : q = p ∨ world.Locatable q := by
  obtain ⟨a, rfl, hchain⟩ := h
  cases hchain with
  | refl => exact .inl rfl
  | tail _ hlast =>
    obtain ⟨-, _, -, file, -, spec, -, -, info, hlocate, hfound⟩ := hlast
    exact .inr ⟨_, info, hlocate, hfound⟩

theorem Trace.mem_of_ok {heard : List FileEvent} {seen seen' : Set PackageId} {events : List Event}
    (h : world.Trace (.package q) heard seen events (.ok ()) seen') : q ∈ seen' := by
  cases h with
  | known hq => exact hq
  | explored => exact Set.mem_insert _ _

/-- What an import with success leaves behind: the package that was located is explored, and only
packages that the locator has paths for have come to be explored with it. -/
structure Imports (env : Environment) (info : PackageInfo) (q : PackageId) (env' : Environment) :
    Prop where
  grows : Grows env env'
  locator : env'.locator = env.locator
  importRoot : env'.importRoot = env.importRoot
  found : env'.registry.byPath? info.importPath = some q
  explored : env'.explored q = true
  others : ∀ t, env'.explored t = true → env.explored t = true ∨ t = q ∨ env'.Locatable t

/-- The path that was asked for may be that of another package, but not of one that the import has
explored. -/
theorem Imports.eq_of_explored (h : Imports env info q env')
    (hown : env.locator.KnowsOwnPaths env.importRoot) (hlocate : env.locate path = .ok info)
    (hnew : ∀ t, env.registry.byPath? path = some t → env.explored t = false)
    (ht : env'.registry.byPath? path = some t) (hex : env'.explored t = true) : t = q := by
  rcases h.others t hex with hold | rfl | hlocatable
  · have hthen := h.grows.byPath?_of_registered (registered_of_explored hold) ht
    exact nomatch hold.symm.trans (hnew t hthen)
  · rfl
  · obtain ⟨own, hfound, hpath⟩ :=
      hlocatable.locate_own (h.locator ▸ h.importRoot ▸ hown) ht
    rw [h.grows.setup.locate, hlocate] at hfound
    obtain rfl := Except.ok.inj hfound
    exact Option.some.inj (ht.symm.trans (hpath ▸ h.found))

end Environment

open Environment (Imports)

section Again

variable {env env' : Environment} {info : PackageInfo} {q : PackageId} {path : String}

theorem imports_of_ok (hr : env.registry.WellFormed) (hb : env.builtin ≠ none) {depth : Nat}
    {find : Session PackageInfo} {answer : Except Error PackageInfo}
    (hfind : Takes env find fun _ outcome env' => outcome = answer ∧ env'.registry = env.registry)
    (h : (do
      let pkg ← Session.ensurePackage (← find)
      analyzePackage depth pkg
      return pkg) env = .ok q env') :
    ∃ info, answer = .ok info ∧ Imports env info q env' := by
  obtain ⟨info, env₁, hinfo, h⟩ := bind_ok h
  obtain ⟨pkg, env₂, hensure, h⟩ := bind_ok h
  obtain ⟨_, _, hrun, h⟩ := bind_ok h
  cases h
  obtain ⟨_, hsteps₁, rfl, hreg⟩ := hfind.of_ok hinfo
  have h₁ := hsteps₁.grows hr
  obtain ⟨_, hsteps₂, -, ⟨_, hq, hpath⟩, hkept⟩ :=
    (ensurePackage_takes h₁.wellFormed info).of_ok hensure
  obtain rfl := Except.ok.inj hq
  have h₂ := h₁.trans (hsteps₂.grows h₁.wellFormed)
  have hsame : ∀ t, env₂.explored t = env.explored t := fun t => by
    rw [hkept t, Environment.explored, hreg]
    rfl
  obtain ⟨⟨p, hp, -⟩, -⟩ := Registry.byPath?_eq_some_iff.mp hpath
  obtain ⟨_, hsteps₃, htrace⟩ := (analyzePackage_takes depth q env₂ h₂.wellFormed
    (h₂.setup.builtin ▸ hb) ⟨p, hp⟩).of_ok hrun
  have h₃ := hsteps₃.grows h₂.wellFormed
  have hsteps := (hsteps₁.trans hsteps₂).trans hsteps₃
  refine ⟨info, rfl, h₂.trans h₃, hsteps.locator, hsteps.log.2.1, h₃.byPath? hpath,
    htrace.mem_of_ok, fun t ht => ?_⟩
  rcases htrace.reached.2 t ht with hold | hreach
  · exact .inl ((hsame t).symm.trans hold)
  · exact .inr hreach.eq_or_locatable

/-- A package that is found explored is only located. -/
theorem located_again {find : Session PackageInfo} {events : List Event}
    (hfind : find env = .ok info (env.noted events))
    (hq : env.registry.byPath? info.importPath = some q) (hex : env.explored q = true)
    (depth : Nat) :
    (do
      let pkg ← Session.ensurePackage (← find)
      analyzePackage depth pkg
      return pkg) env = .ok q (env.noted events) := by
  have hensure : Session.ensurePackage info (env.noted events) = .ok q (env.noted events) := by
    change (Session.ofExcept (env.registry.ensurePackage info) >>= _) _ = _
    rw [Registry.ensurePackage, hq]
    rfl
  have hknown : analyzePackage depth q (env.noted events) = .ok () (env.noted events) :=
    analyzePackage_known depth hex
  rw [bind_eq_of_ok hfind, bind_eq_of_ok hensure, bind_eq_of_ok hknown]
  rfl

theorem importDir_imports (hr : env.registry.WellFormed) (hb : env.builtin ≠ none) {depth : Nat}
    {dir : String} (h : importDir depth dir env = .ok q env') :
    ∃ info, env.locator.locateDir dir = .ok info ∧ Imports env info q env' :=
  imports_of_ok hr hb (Takes.of_step (.locateDir dir)
    (k := Session.ofExcept (env.locator.locateDir dir)) rfl (takes_ofExcept ⟨rfl, rfl⟩)) h

theorem importDir_located {dir : String} (hlocate : env.locator.locateDir dir = .ok info)
    (hq : env.registry.byPath? info.importPath = some q) (hex : env.explored q = true)
    (depth : Nat) : importDir depth dir env = .ok q (env.noted [.locateDir dir]) := by
  have hfound : Session.locateDir dir env = .ok info (env.noted [.locateDir dir]) := by
    change Session.ofExcept (env.locator.locateDir dir) _ = _
    rw [hlocate]
    rfl
  exact located_again hfound hq hex depth

theorem importDir_again (hr : env.registry.WellFormed) (hb : env.builtin ≠ none) {depth : Nat}
    {dir : String} (h : importDir depth dir env = .ok q env') (depth' : Nat) :
    importDir depth' dir env' = .ok q (env'.noted [.locateDir dir]) := by
  obtain ⟨info, hlocate, himports⟩ := importDir_imports hr hb h
  exact importDir_located (himports.locator ▸ hlocate) himports.found himports.explored depth'

theorem importPackage_imports (hr : env.registry.WellFormed) (hb : env.builtin ≠ none)
    {depth : Nat} (h : importPackage depth path env = .ok q env') :
    (env' = env ∧ env.registry.byPath? path = some q ∧ env.explored q = true) ∨
      (∀ t, env.registry.byPath? path = some t → env.explored t = false) ∧
        ∃ info, env.locate path = .ok info ∧ Imports env info q env' := by
  rcases importPackage_cases depth path env with ⟨t, ht, hex, hrun⟩ | ⟨hnew, hrun⟩
  · cases (hrun depth).symm.trans h
    exact .inl ⟨rfl, ht, hex⟩
  · have hfind : Takes env (Session.locate path) fun _ outcome env' =>
        outcome = env.locate path ∧ env'.registry = env.registry :=
      (locate_takes path).mono fun _ _ _ _ hl => hl.2
    exact .inr ⟨hnew, imports_of_ok hr hb hfind (hrun ▸ h)⟩

theorem importPackage_known (hq : env.registry.byPath? path = some q)
    (hex : env.explored q = true) (depth : Nat) : importPackage depth path env = .ok q env := by
  rcases importPackage_cases depth path env with ⟨t, ht, -, hrun⟩ | ⟨hnew, -⟩
  · obtain rfl := Option.some.inj (hq.symm.trans ht)
    exact hrun depth
  · exact nomatch hex.symm.trans (hnew q hq)

theorem importPackage_again (hr : env.registry.WellFormed) (hb : env.builtin ≠ none)
    (hown : env.locator.KnowsOwnPaths env.importRoot) {depth : Nat}
    (h : importPackage depth path env = .ok q env') (depth' : Nat) :
    ∃ events, (∀ e ∈ events, Event.Locates e) ∧
      importPackage depth' path env' = .ok q (env'.noted events) := by
  have hnothing : ∀ e ∈ ([] : List Event), e.Locates := nofun
  rcases importPackage_imports hr hb h with ⟨rfl, hq, hex⟩ | ⟨hnew, info, hlocate, himports⟩
  · exact ⟨[], hnothing, by rw [importPackage_known hq hex, Environment.noted_nil]⟩
  rcases importPackage_cases depth' path env' with ⟨t, ht, hex, hrun'⟩ | ⟨-, hrun'⟩
  · obtain rfl := himports.eq_of_explored hown hlocate hnew ht hex
    exact ⟨[], hnothing, by rw [hrun' depth', Environment.noted_nil]⟩
  · have hfound : Session.locate path env' =
        .ok info (env'.noted [.locate path env'.importRoot]) := by
      change Session.ofExcept (env'.locate path) _ = _
      rw [himports.grows.setup.locate, hlocate]
      rfl
    refine ⟨[.locate path env'.importRoot], fun e he => ?_, ?_⟩
    · obtain rfl := List.mem_singleton.mp he
      trivial
    · rw [hrun']
      exact located_again hfound himports.found himports.explored depth'

end Again

/-- In every session, what was imported by path or by directory is imported again with the same
answer, however deep imports may nest, and the packages, their types and what the listener heard
stay as they are: a package may be located once more, and nothing is parsed. By path, this is so
where the locator knows its packages by their own paths. -/
theorem importing_is_idempotent (currentDir : Option String) (locator : Locator)
    (parser : SourceParser) {requests : List Environment.Request}
    (h : (Environment.new currentDir locator parser).NamesAll requests) :
    let env := (Environment.new currentDir locator parser).performAll requests
    (locator.KnowsOwnPaths (currentDir.getD ".") → ∀ depth path q env',
      importPackage depth path env = .ok q env' → ∀ depth', ∃ events,
        (∀ e ∈ events, Event.Locates e) ∧
          importPackage depth' path env' = .ok q (env'.noted events)) ∧
      ∀ depth dir q env', importDir depth dir env = .ok q env' → ∀ depth',
        importDir depth' dir env' = .ok q (env'.noted [.locateDir dir]) := by
  intro env
  have hw : env.WellFormed :=
    Environment.wellFormed_performAll (Environment.new_wellFormed currentDir locator parser) h
  have hb := Environment.performAll_builtin currentDir locator parser h
  obtain ⟨hlocator, hroot⟩ := Environment.performAll_locator currentDir locator parser h
  refine ⟨fun hown depth path q env' hrun depth' => ?_, fun depth dir q env' hrun depth' => ?_⟩
  · exact importPackage_again hw.registry hb (hlocator.symm ▸ hroot.symm ▸ hown) hrun depth'
  · exact importDir_again hw.registry hb hrun depth'

def secondPaths : Locator where
  locate path _ :=
    if path ∈ ["p", "main"] then .ok ⟨"p", "p", "", ["p"]⟩
    else if path ∈ ["q", "other"] then .ok ⟨"q", "q", "", ["q"]⟩
    else .error .builtinNotFound
  locateDir _ := .error .builtinNotFound

theorem secondPaths_knowsOwnPaths (fromDir : String) : secondPaths.KnowsOwnPaths fromDir := by
  intro path info h
  unfold secondPaths at h
  dsimp only at h
  split at h
  · obtain rfl := Except.ok.inj h
    exact ⟨_, rfl, rfl⟩
  · split at h
    · obtain rfl := Except.ok.inj h
      exact ⟨_, rfl, rfl⟩
    · cases h

def importingOther : SourceParser :=
  filesOf [("p", dotImport "\"other\""), ("q", ⟨"q", none, []⟩)]

/-- A package was registered by hand under a path that the locator has for another one. -/
def mainByHand : List Environment.Request :=
  [.append ⟨"main", "main", "", ["main"]⟩, .setListener (rejecting "none")]

/-- The first import reads two packages; the second one leaves all as it is, also the package that
has the path itself. -/
theorem mainByHand_imported_again :
    let start := Environment.new none secondPaths importingOther
    let env := start.performAll mainByHand
    let env' := stateAfter (importPackage 2 "main") env
    start.NamesAll mainByHand ∧ secondPaths.KnowsOwnPaths "." ∧
      importPackage 2 "main" env = .ok ⟨2⟩ env' ∧
      (env'.parsed ⟨2⟩ = ["p"] ∧ env'.parsed ⟨3⟩ = ["q"] ∧ env'.heard.length = 4 ∧
        env'.registry.byPath? "main" = some ⟨1⟩) ∧
      ∃ events, (∀ e ∈ events, Event.Locates e) ∧
        importPackage 0 "main" env' = .ok ⟨2⟩ (env'.noted events) := by
  intro start env env'
  have hn : start.NamesAll mainByHand := by decide +kernel
  have hown : secondPaths.KnowsOwnPaths "." := secondPaths_knowsOwnPaths "."
  have hrun : importPackage 2 "main" env = .ok ⟨2⟩ env' := eq_ok_stateAfter (by decide +kernel)
  refine ⟨hn, hown, hrun, by decide +kernel, ?_⟩
  exact (importing_is_idempotent none secondPaths importingOther hn).1 hown _ _ _ _ hrun 0

end GoPackages
