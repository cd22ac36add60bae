import GoPackages.Proofs.Environment.WellFormed

/-!
# How packages are visited

The course of an analysis that succeeds, as a relation: which packages are entered in the
middle of which files, and where the session stands as such a file goes on. All that such an
analysis does apart from entering packages, reading files and marking packages as explored is
quiet: the history of parsed files and the explored packages stay what they are.
-/
namespace GoPackages

open Source (ImportSpec SourceFile)
open Registry (Retains Edits)
open Environment (SameSetup)

namespace Environment

def explored (env : Environment) (q : PackageId) : Bool :=
  (env.registry.package? q).any (·.explored)

def files (env : Environment) (q : PackageId) : List String :=
  ((env.registry.package? q).map (·.files)).getD []

def markExplored (env : Environment) (q : PackageId) : Environment :=
  { env with registry := env.registry.modifyPackage q (·.markExplored) }

def opened (env : Environment) (pkg : PackageId) (file : SourceFile) : Environment :=
  { env with registry := env.registry.modifyPackage pkg (·.appendDoc (file.doc.getD [])) }

def scopeOf (env : Environment) (pkg builtin : PackageId) : FileScope where
  package := pkg
  decodeTag := env.tagDecoder
  dotImports := if pkg = builtin then [] else [builtin]

end Environment

def FileScope.addDotImport (scope : FileScope) (q : PackageId) : FileScope :=
  if q ∈ scope.dotImports then scope
  else { scope with dotImports := scope.dotImports ++ [q] }

@[simp] theorem FileScope.addDotImport_package (scope : FileScope) (q : PackageId) :
    (scope.addDotImport q).package = scope.package := by
  unfold addDotImport
  split <;> rfl

theorem FileScope.Sound.addDotImport {scope : FileScope} {reg : Registry} (h : scope.Sound reg)
    (q : PackageId) : (scope.addDotImport q).Sound reg := by
  unfold FileScope.addDotImport
  split
  · exact h
  · exact ⟨h.package, h.aliases, h.typeParams⟩

/-- What is under way: a package, the rest of its files, or the rest of the items of a file. -/
inductive Task where
  | package (pkg : PackageId)
  | files (pkg : PackageId) (paths : List String)
  | body (scope : FileScope) (items : List Item)

/-- A package that was imported without a qualifier, and the session as the importing file goes on
to its next item. -/
structure Entry where
  imported : PackageId
  after : Environment

/-- A task that succeeds, with all imports without a qualifier in the course of it. -/
inductive Visit : Task → Environment → List Entry → Environment → Prop where
  | known {env pkg} : env.explored pkg = true → Visit (.package pkg) env [] env
  | package {env env' pkg entries} : env.explored pkg = false →
      Visit (.files pkg (env.files pkg)) env entries env' →
      Visit (.package pkg) env entries (env'.markExplored pkg)
  | noFiles {env pkg} : Visit (.files pkg []) env [] env
  | skip {env env₁ env' pkg path rest entries} : announce pkg path env = .ok .skip env₁ →
      Visit (.files pkg rest) env₁ entries env' →
      Visit (.files pkg (path :: rest)) env entries env'
  | file {env env₁ env₂ env₃ env₄ env' pkg path rest file builtin entries entries'} :
      announce pkg path env = .ok .proceed env₁ → Session.parse pkg path env₁ = .ok file env₂ →
      env₂.builtin = some builtin →
      Visit (.body (env₂.scopeOf pkg builtin) (items file)) (env₂.opened pkg file) entries env₃ →
      conclude pkg path (.ok ()) env₃ = .ok () env₄ →
      Visit (.files pkg rest) env₄ entries' env' →
      Visit (.files pkg (path :: rest)) env (entries ++ entries') env'
  | noItems {env scope} : Visit (.body scope []) env [] env
  | item {env env₁ env' scope scope' item rest entries enter} :
      (∀ spec, item = .importSpec spec → spec.name ≠ some .dot) →
      analyzeItem enter scope item env = .ok scope' env₁ →
      Visit (.body scope' rest) env₁ entries env' →
      Visit (.body scope (item :: rest)) env entries env'
  | dotImport {env env₁ env₂ env₃ env' scope spec rest info q entries entries'} :
      spec.name = some .dot →
      Session.locate (Source.literalValue spec.path) env = .ok info env₁ →
      Session.ensurePackage info env₁ = .ok q env₂ →
      Visit (.package q) env₂ entries env₃ →
      Visit (.body (scope.addDotImport q) rest) env₃ entries' env' →
      Visit (.body scope (.importSpec spec :: rest)) env (entries ++ ⟨q, env₃⟩ :: entries') env'

section Succeeds

variable {enter : PackageId → Session Unit} {env env' : Environment}

def EntersVisit (enter : PackageId → Session Unit) : Prop :=
  ∀ q env env', enter q env = .ok () env' → ∃ entries, Visit (.package q) env entries env'

theorem importSpec_dot_ok {scope scope' : FileScope} {spec : ImportSpec}
    (hdot : spec.name = some .dot) (h : importSpec enter scope spec env = .ok scope' env') :
    ∃ info env₁ q env₂, Session.locate (Source.literalValue spec.path) env = .ok info env₁ ∧
      Session.ensurePackage info env₁ = .ok q env₂ ∧ enter q env₂ = .ok () env' ∧
      scope' = scope.addDotImport q := by
  unfold importSpec at h
  obtain ⟨info, env₁, hlocate, h⟩ := bind_ok h
  obtain ⟨q, env₂, hensure, h⟩ := bind_ok h
  rw [hdot] at h
  obtain ⟨_, env₃, henter, h⟩ := bind_ok h
  cases h
  exact ⟨info, env₁, q, env₂, hlocate, hensure, henter, rfl⟩

theorem visit_body (henter : EntersVisit enter) (items : List Item) :
    ∀ {scope scope' : FileScope} {env env' : Environment},
      items.foldlM (analyzeItem enter) scope env = .ok scope' env' →
        ∃ entries, Visit (.body scope items) env entries env' := by
  induction items with
  | nil =>
    intro scope scope' env env' h
    cases h
    exact ⟨[], .noItems⟩
  | cons item rest ih =>
    intro scope scope' env env' h
    rw [List.foldlM_cons] at h
    obtain ⟨scope₁, env₁, hitem, h⟩ := bind_ok h
    obtain ⟨entries, hrest⟩ := ih h
    by_cases hdot : ∃ spec, item = .importSpec spec ∧ spec.name = some .dot
    · obtain ⟨spec, rfl, hdot⟩ := hdot
      obtain ⟨info, mid₁, q, mid₂, hlocate, hensure, hq, rfl⟩ := importSpec_dot_ok hdot hitem
      obtain ⟨inner, hq⟩ := henter q mid₂ env₁ hq
      exact ⟨_, .dotImport hdot hlocate hensure hq hrest⟩
    · have hplain : ∀ spec, item = .importSpec spec → spec.name ≠ some .dot :=
        fun spec hi hd => hdot ⟨spec, hi, hd⟩
      exact ⟨entries, .item hplain hitem hrest⟩

theorem attempt_ok {α : Type} {m : Session α} {outcome : Except Error α}
    (h : Session.attempt m env = .ok outcome env') {a : α} (ho : outcome = .ok a) :
    m env = .ok a env' := by
  unfold Session.attempt at h
  cases hm : m env with
  | ok b mid =>
    rw [hm] at h
    cases h
    cases ho
    rfl
  | error e mid =>
    rw [hm] at h
    cases e with
    | failed e => cases h; cases ho
    | tooDeep => cases h

theorem ofExcept_ok {α : Type} {outcome : Except Error α} {a : α}
    (h : Session.ofExcept outcome env = .ok a env') : outcome = .ok a ∧ env' = env := by
  cases outcome with
  | ok b => cases h; exact ⟨rfl, rfl⟩
  | error e => cases h

theorem visit_of_file (henter : EntersVisit enter) {pkg : PackageId} {file : SourceFile}
    (h : analyzeFileWith enter pkg file env = .ok () env') :
    ∃ builtin entries, env.builtin = some builtin ∧
      Visit (.body (env.scopeOf pkg builtin) (items file)) (env.opened pkg file) entries env' := by
  unfold analyzeFileWith at h
  obtain ⟨_, _, hget, h⟩ := bind_ok h
  cases hget
  cases hbuiltin : env.builtin with
  | none => rw [hbuiltin] at h; cases h
  | some builtin =>
    rw [hbuiltin] at h
    obtain ⟨_, env₁, hdoc, h⟩ := bind_ok h
    obtain ⟨reg, hstep, rfl⟩ := Session.analyze_ok hdoc
    cases hstep
    obtain ⟨scope, h⟩ := discard_ok h
    rw [foldlM_analyzeDecl] at h
    obtain ⟨entries, hvisit⟩ := visit_body henter _ h
    exact ⟨builtin, entries, rfl, hvisit⟩

theorem visit_files (henter : EntersVisit enter) {pkg : PackageId} (paths : List String) :
    ∀ {env env' : Environment}, visitFiles enter pkg paths env = .ok () env' →
      ∃ entries, Visit (.files pkg paths) env entries env' := by
  induction paths with
  | nil =>
    intro env env' h
    cases h
    exact ⟨[], .noFiles⟩
  | cons path rest ih =>
    intro env env' h
    obtain ⟨_, env₁, hfile, h⟩ := bind_ok h
    obtain ⟨entries', hrest⟩ := ih h
    obtain ⟨action, env₂, hannounce, hfile⟩ := bind_ok hfile
    cases action with
    | skip => cases hfile; exact ⟨entries', .skip hannounce hrest⟩
    | abort e => cases hfile
    | proceed =>
      obtain ⟨outcome, env₃, hattempt, hfile⟩ := bind_ok hfile
      obtain ⟨_, env₄, hconclude, hfile⟩ := bind_ok hfile
      obtain ⟨rfl, rfl⟩ := ofExcept_ok hfile
      obtain ⟨file, env₅, hparse, hfile⟩ := bind_ok (attempt_ok hattempt rfl)
      obtain ⟨builtin, entries, hbuiltin, hitems⟩ := visit_of_file henter hfile
      exact ⟨_, .file hannounce hparse hbuiltin hitems hconclude hrest⟩

theorem unlessExplored_ok {pkg : PackageId} {step : Session Unit}
    (h : (do if ← isExplored pkg then return else step) env = .ok () env') :
    env.explored pkg = true ∧ env' = env ∨
      env.explored pkg = false ∧ step env = .ok () env' := by
  change (if env.explored pkg = true then pure () else step) env = _ at h
  cases hex : env.explored pkg with
  | true =>
    rw [hex] at h
    cases h
    exact .inl ⟨rfl, rfl⟩
  | false =>
    rw [hex] at h
    exact .inr ⟨rfl, h⟩

theorem visit_explore (henter : EntersVisit enter) {pkg : PackageId}
    (hex : env.explored pkg = false) (h : explore enter pkg env = .ok () env') :
    ∃ entries, Visit (.package pkg) env entries env' := by
  obtain ⟨_, _, hget, h⟩ := bind_ok h
  cases hget
  obtain ⟨_, env₁, hfiles, h⟩ := bind_ok h
  obtain ⟨entries, hvisit⟩ := visit_files henter _ hfiles
  obtain ⟨reg, hstep, rfl⟩ := Session.analyze_ok h
  cases hstep
  exact ⟨entries, .package hex hvisit⟩

theorem analyzePackage_visits (depth : Nat) : EntersVisit (analyzePackage depth) := by
  induction depth with
  | zero =>
    intro q env env' h
    rcases unlessExplored_ok h with ⟨hex, rfl⟩ | ⟨-, h⟩
    · exact ⟨[], .known hex⟩
    · cases h
  | succ depth ih =>
    intro q env env' h
    rcases unlessExplored_ok h with ⟨hex, rfl⟩ | ⟨hex, h⟩
    · exact ⟨[], .known hex⟩
    · exact visit_explore ih hex h

end Succeeds

end GoPackages
