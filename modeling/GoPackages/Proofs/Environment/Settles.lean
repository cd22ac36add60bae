import GoPackages.Proofs.Analysis.Works
import GoPackages.Proofs.Environment.Files
import GoPackages.Proofs.Registry.Outlines

/-!
# How a session goes on

What holds between the environments before and after any step of a session, whether the step
succeeds or stops: everything that exists stays, the registry stays well-formed, and packages
that come in were located. Whether a step may also stop because imports nest too deep is left
open here; it depends on which packages may be entered.
-/
namespace GoPackages

open Source (ImportSpec SourceFile)
open Registry (Edits Retains WellFormed)
open Environment (SameSetup)

structure Follows (env env' : Environment) : Prop where
  setup : SameSetup env env'
  parser : env'.parser = env.parser
  retains : Retains env.registry env'.registry
  wellFormed : env'.registry.WellFormed
  packages : ∀ q p, env.registry.package? q = some p → ∃ p', env'.registry.package? q = some p' ∧
    p'.importPath = p.importPath ∧ p'.files = p.files ∧ (p.explored = true → p'.explored = true)
  located : ∀ q p', env'.registry.package? q = some p' → env.registry.Registered q ∨
    ∃ path info, env.locate path = .ok info ∧ p'.importPath = info.importPath ∧
      p'.files = info.files

namespace Follows

variable {env mid env' : Environment}

theorem of_registry_eq (hr : env.registry.WellFormed) (hs : SameSetup env env')
    (hp : env'.parser = env.parser) (h : env'.registry = env.registry) : Follows env env' where
  setup := hs
  parser := hp
  retains := h ▸ .refl _
  wellFormed := h ▸ hr
  packages _ p hq := ⟨p, h ▸ hq, rfl, rfl, id⟩
  located _ p hq := .inl ⟨p, h ▸ hq⟩

theorem refl (hr : env.registry.WellFormed) : Follows env env :=
  of_registry_eq hr (.refl env) rfl rfl

theorem trans (h : Follows env mid) (h' : Follows mid env') : Follows env env' where
  setup := h.setup.trans h'.setup
  parser := h'.parser.trans h.parser
  retains := h.retains.trans h'.retains
  wellFormed := h'.wellFormed
  packages q p hq := by
    obtain ⟨p₁, hp₁, hpath₁, hfiles₁, hex₁⟩ := h.packages q p hq
    obtain ⟨p₂, hp₂, hpath₂, hfiles₂, hex₂⟩ := h'.packages q p₁ hp₁
    exact ⟨p₂, hp₂, hpath₂.trans hpath₁, hfiles₂.trans hfiles₁, fun hex => hex₂ (hex₁ hex)⟩
  located q p hq := by
    rcases h'.located q p hq with ⟨p₁, hp₁⟩ | ⟨path, info, hl, hinfo⟩
    · rcases h.located q p₁ hp₁ with hold | ⟨path, info, hl, hpath, hfiles⟩
      · exact .inl hold
      · obtain ⟨p₂, hp₂, hpath₂, hfiles₂, -⟩ := h'.packages q p₁ hp₁
        obtain rfl := Option.some.inj (hp₂.symm.trans hq)
        exact .inr ⟨path, info, hl, hpath₂.trans hpath, hfiles₂.trans hfiles⟩
    · exact .inr ⟨path, info, h.setup.locate ▸ hl, hinfo⟩

theorem of_edits (hr : env.registry.WellFormed) {reg : Registry} (h : Edits env.registry reg) :
    Follows env { env with registry := reg } := by
  obtain ⟨hkeep, hwell⟩ := h.wellFormed hr
  refine ⟨⟨rfl, rfl⟩, rfl, hkeep, hwell, fun q p hq => ?_, fun q p' hq => ?_⟩
  · have ho := h.outline q
    rw [hq] at ho
    obtain ⟨p', hp', heq⟩ := Option.map_eq_some_iff.mp ho
    simp only [Package.outline, Prod.mk.injEq] at heq
    exact ⟨p', hp', heq.1, heq.2.1, fun hex => heq.2.2.trans hex⟩
  · have ho := h.outline q
    rw [show reg.package? q = some p' from hq] at ho
    obtain ⟨p, hp, -⟩ := Option.map_eq_some_iff.mp ho.symm
    exact .inl ⟨p, hp⟩

theorem of_modifyPackage (hr : env.registry.WellFormed) (q : PackageId) {f : Package → Package}
    (hf : ∀ p, env.registry.PackageFits p → env.registry.PackageFits (f p))
    (hfiles : ∀ p, (f p).importPath = p.importPath ∧ (f p).files = p.files)
    (hexplored : ∀ p, p.explored = true → (f p).explored = true) :
    Follows env { env with registry := env.registry.modifyPackage q f } := by
  have hkeep := Registry.retains_modifyPackage env.registry q f
  refine ⟨⟨rfl, rfl⟩, rfl, hkeep, hr.modifyPackage q hf, fun other p hp => ?_, fun other p hp => ?_⟩
  · refine ⟨_, Registry.package?_modifyPackage_of_some hp f, ?_⟩
    split
    · exact ⟨(hfiles p).1, (hfiles p).2, hexplored p⟩
    · exact ⟨rfl, rfl, id⟩
  · rcases Registry.package?_modifyPackage_cases hp with hold | ⟨old, hold, -⟩
    · exact .inl ⟨p, hold⟩
    · exact .inl ⟨old, hold⟩

theorem of_append (hr : env.registry.WellFormed) {path : String} {info : PackageInfo}
    (hl : env.locate path = .ok info) {id : PackageId} {reg : Registry}
    (h : env.registry.append (.ofInfo info) = .ok (id, reg)) :
    Follows env { env with registry := reg } := by
  obtain ⟨hkeep, hwell⟩ := Registry.append_wellFormed hr (Registry.packageFits_ofInfo _ info) h
  refine ⟨⟨rfl, rfl⟩, rfl, hkeep, hwell, fun q p hq => ?_, fun q p' hq => ?_⟩
  · obtain ⟨p', hp', hu⟩ := Registry.package?_append h hq
    simp only [Registry.unlinked, Package.mk.injEq] at hu
    obtain ⟨-, hpath, -, hfiles, -, -, -, -, -, -, -, -, -, -, hex⟩ := hu
    exact ⟨p', hp', hpath, hfiles, fun h => hex.trans h⟩
  · obtain ⟨-, -, -, -, hall⟩ := Registry.append_ok h
    have hq' := hall q
    rw [show reg.package? q = some p' from hq] at hq'
    split at hq'
    · have hu := Option.some.inj hq'
      simp only [Registry.unlinked, Package.mk.injEq] at hu
      exact .inr ⟨path, info, hl, hu.2.1, hu.2.2.2.1⟩
    · obtain ⟨p, hp, -⟩ := Option.map_eq_some_iff.mp hq'.symm
      exact .inl ⟨p, hp⟩

end Follows

/-- What a step does: the session goes on, with a good answer if there is one. Where `deep` does
not hold, the step does not stop because imports nest too deep. -/
def Settles {α : Type} (deep : Prop) (env : Environment) (m : Session α)
    (good : α → Environment → Prop) : Prop :=
  match m env with
  | .ok a env' => Follows env env' ∧ good a env'
  | .error (.failed _) env' => Follows env env'
  | .error .tooDeep env' => deep ∧ Follows env env'

section Rules

variable {α β : Type} {deep : Prop} {env : Environment} {m : Session α}
  {good : α → Environment → Prop}

theorem Settles.bind {k : α → Session β} {good' : β → Environment → Prop}
    (h : Settles deep env m good)
    (hk : ∀ a mid, Follows env mid → good a mid → Settles deep mid (k a) good') :
    Settles deep env (m >>= k) good' := by
  unfold Settles at h ⊢
  simp only [Bind.bind, EStateM.bind]
  cases hm : m env with
  | error e mid =>
    rw [hm] at h
    cases e with
    | failed e => exact h
    | tooDeep => exact h
  | ok a mid =>
    rw [hm] at h
    have hrest := hk a mid h.1 h.2
    unfold Settles at hrest
    dsimp only
    cases hka : k a mid with
    | ok b env' => rw [hka] at hrest; exact ⟨h.1.trans hrest.1, hrest.2⟩
    | error e env' =>
      rw [hka] at hrest
      cases e with
      | failed e => exact h.1.trans hrest
      | tooDeep => exact ⟨hrest.1, h.1.trans hrest.2⟩

theorem Settles.mono (h : Settles deep env m good) {good' : α → Environment → Prop}
    (hg : ∀ a env', Follows env env' → good a env' → good' a env') :
    Settles deep env m good' := by
  unfold Settles at h ⊢
  cases hm : m env with
  | ok a env' => rw [hm] at h; exact ⟨h.1, hg a env' h.1 h.2⟩
  | error e env' =>
    rw [hm] at h
    cases e with
    | failed e => exact h
    | tooDeep => exact h

theorem settles_pure (hr : env.registry.WellFormed) {a : α} (ha : good a env) :
    Settles deep env (pure a) good := ⟨.refl hr, ha⟩

theorem settles_fail (hr : env.registry.WellFormed) (e : Error) :
    Settles deep env (Session.fail e : Session α) good := .refl hr

theorem Settles.after_get {k : Environment → Session α} (h : Settles deep env (k env) good) :
    Settles deep env (get >>= k) good := h

theorem settles_modify (hr : env.registry.WellFormed) {f : Environment → Environment}
    (hs : SameSetup env (f env)) (hp : (f env).parser = env.parser)
    (h : (f env).registry = env.registry) :
    Settles deep env (modify f) fun _ env' => env' = f env :=
  ⟨.of_registry_eq hr hs hp h, rfl⟩

theorem settles_ofExcept (hr : env.registry.WellFormed) (e : Except Error α) :
    Settles deep env (Session.ofExcept e) fun a env' => e = .ok a ∧ env' = env := by
  cases e with
  | ok a => exact settles_pure hr ⟨rfl, rfl⟩
  | error e => exact settles_fail hr e

theorem settles_analyze (hr : env.registry.WellFormed) {step : Analysis α}
    {good : α → Registry → Prop} (h : Works env.registry step good) :
    Settles deep env (Session.analyze step) fun a env' => good a env'.registry := by
  unfold Settles Session.analyze
  unfold Works After at h
  cases hs : step env.registry with
  | ok a reg => rw [hs] at h; exact ⟨.of_edits hr h.1, h.2⟩
  | error e reg => rw [hs] at h; exact Follows.of_edits hr h

theorem settles_attempt (h : Settles deep env m fun _ _ => True) :
    Settles deep env (Session.attempt m) fun _ _ => True := by
  unfold Settles at h ⊢
  unfold Session.attempt
  cases hm : m env with
  | ok a env' => rw [hm] at h; exact ⟨h.1, trivial⟩
  | error e env' =>
    rw [hm] at h
    cases e with
    | failed e => exact ⟨h, trivial⟩
    | tooDeep => exact h

theorem Settles.not_tooDeep (h : Settles False env m good) (env' : Environment) :
    m env ≠ .error .tooDeep env' := by
  intro hm
  rw [Settles, hm] at h
  exact h.1

end Rules

section Collaborators

variable {deep : Prop} {env : Environment}

theorem locate_settles (hr : env.registry.WellFormed) (path : String) :
    Settles deep env (Session.locate path) fun info _ => env.locate path = .ok info := by
  refine Settles.after_get (Settles.bind (settles_modify hr ⟨rfl, rfl⟩ rfl rfl) ?_)
  rintro _ _ hfollows rfl
  exact (settles_ofExcept hfollows.wellFormed (env.locate path)).mono fun _ _ _ h => h.1

theorem locateDir_settles (hr : env.registry.WellFormed) (dir : String) :
    Settles deep env (Session.locateDir dir) fun _ _ => True := by
  refine Settles.after_get (Settles.bind (settles_modify hr ⟨rfl, rfl⟩ rfl rfl) ?_)
  rintro _ _ hfollows rfl
  exact (settles_ofExcept hfollows.wellFormed _).mono fun _ _ _ _ => trivial

theorem parse_settles (hr : env.registry.WellFormed) (pkg : PackageId) (path : String) :
    Settles deep env (Session.parse pkg path) fun file _ => env.parser path = .ok file := by
  refine Settles.after_get (Settles.bind (settles_modify hr ⟨rfl, rfl⟩ rfl rfl) ?_)
  rintro _ _ hfollows rfl
  exact (settles_ofExcept hfollows.wellFormed (env.parser path)).mono fun _ _ _ h => h.1

theorem ensurePackage_settles (hr : env.registry.WellFormed) {path : String} {info : PackageInfo}
    (hl : env.locate path = .ok info) :
    Settles deep env (Session.ensurePackage info) fun q env' =>
      ∃ p, env'.registry.package? q = some p ∧ p.importPath = info.importPath := by
  refine Settles.after_get ?_
  cases he : env.registry.ensurePackage info with
  | error e => exact settles_fail hr e
  | ok found =>
    obtain ⟨q, reg⟩ := found
    obtain ⟨hpath, hgrown⟩ := Registry.ensurePackage_ok he
    obtain ⟨⟨p, hp, himport⟩, -⟩ := Registry.byPath?_eq_some_iff.mp hpath
    have hfollows : Follows env { env with registry := reg } := by
      rcases hgrown with rfl | happend
      · exact .refl hr
      · exact .of_append hr hl happend
    exact ⟨hfollows, p, hp, himport⟩

theorem announce_settles (hr : env.registry.WellFormed) (pkg : PackageId) (path : String) :
    Settles deep env (announce pkg path) fun _ _ => True := by
  unfold announce
  refine Settles.after_get ?_
  split
  next =>
    refine Settles.bind (settles_modify hr ⟨rfl, rfl⟩ rfl rfl) fun _ _ hfollows _ => ?_
    exact settles_pure hfollows.wellFormed trivial
  next => exact settles_pure hr trivial

theorem conclude_settles (hr : env.registry.WellFormed) (pkg : PackageId) (path : String)
    (outcome : Except Error Unit) :
    Settles deep env (conclude pkg path outcome) fun _ _ => True := by
  unfold conclude
  refine Settles.after_get ?_
  split
  next =>
    refine Settles.bind (settles_modify hr ⟨rfl, rfl⟩ rfl rfl) fun _ _ hfollows _ => ?_
    exact (settles_ofExcept hfollows.wellFormed _).mono fun _ _ _ _ => trivial
  next => exact settles_pure hr trivial

end Collaborators

section Files

variable {deep : Prop} {enter : PackageId → Session Unit}
  {mayEnter : Environment → PackageId → Prop}

def Entering (deep : Prop) (mayEnter : Environment → PackageId → Prop)
    (enter : PackageId → Session Unit) : Prop :=
  ∀ env q, env.registry.WellFormed → mayEnter env q → Settles deep env (enter q) fun _ _ => True

/-- The package that an import without a qualifier leads to may be entered, now and later. -/
def ImportAllowed (mayEnter : Environment → PackageId → Prop) (env : Environment)
    (spec : ImportSpec) : Prop :=
  spec.name = some .dot → ∀ info, env.locate (Source.literalValue spec.path) = .ok info →
    ∀ env' q p, Follows env env' → env'.registry.package? q = some p →
      p.importPath = info.importPath → mayEnter env' q

def FileAllowed (mayEnter : Environment → PackageId → Prop) (env : Environment)
    (file : SourceFile) : Prop :=
  ∀ spec, .importSpec spec ∈ items file → ImportAllowed mayEnter env spec

variable {env env' : Environment}

theorem ImportAllowed.later {spec : ImportSpec} (h : ImportAllowed mayEnter env spec)
    (hf : Follows env env') : ImportAllowed mayEnter env' spec :=
  fun hdot info hl mid q p hmid hp hpath =>
    h hdot info (hf.setup.locate ▸ hl) mid q p (hf.trans hmid) hp hpath

theorem FileScope.Sound.follows {scope : FileScope} (hs : scope.Sound env.registry)
    (hf : Follows env env') : scope.Sound env'.registry := hs.retained hf.retains

theorem importSpec_settles (henter : Entering deep mayEnter enter) {scope : FileScope}
    (hr : env.registry.WellFormed) (hs : scope.Sound env.registry) {spec : ImportSpec}
    (hallowed : ImportAllowed mayEnter env spec) :
    Settles deep env (importSpec enter scope spec) fun scope' env' =>
      scope'.Sound env'.registry := by
  unfold importSpec
  refine Settles.bind (locate_settles hr _) fun info env₁ h₁ hl => ?_
  refine Settles.bind (ensurePackage_settles h₁.wellFormed (h₁.setup.locate ▸ hl)) ?_
  rintro q env₂ h₂ ⟨p, hp, hpath⟩
  have h₁₂ := h₁.trans h₂
  have hs₂ := hs.follows h₁₂
  split
  next => exact Settles.after_get (settles_pure h₂.wellFormed (hs₂.insert_alias ⟨p, hp⟩ _))
  next name _ => exact settles_pure h₂.wellFormed (hs₂.insert_alias ⟨p, hp⟩ name)
  next hdot =>
    have hmay := hallowed hdot info hl env₂ q p h₁₂ hp hpath
    refine Settles.bind (henter env₂ q h₂.wellFormed hmay) fun _ env₃ h₃ _ => ?_
    have hs₃ := hs₂.follows h₃
    refine settles_pure h₃.wellFormed ?_
    split
    · exact hs₃
    · exact ⟨hs₃.package, hs₃.aliases, hs₃.typeParams⟩
  next => exact settles_pure h₂.wellFormed hs₂

theorem analyzeItem_settles (henter : Entering deep mayEnter enter) {scope : FileScope}
    (hr : env.registry.WellFormed) (hs : scope.Sound env.registry) {item : Item}
    (hallowed : ∀ spec, item = .importSpec spec → ImportAllowed mayEnter env spec) :
    Settles deep env (analyzeItem enter scope item) fun scope' env' =>
      scope'.Sound env'.registry := by
  have hdecl : ∀ {step : Analysis Unit}, (Works env.registry step fun _ _ => True) →
      Settles deep env (do Session.analyze step; return scope) fun scope' env' =>
        scope'.Sound env'.registry := fun h =>
    Settles.bind (settles_analyze hr h) fun _ _ hf _ => settles_pure hf.wellFormed (hs.follows hf)
  cases item with
  | importSpec spec => exact importSpec_settles henter hr hs (hallowed spec rfl)
  | typeSpec doc spec => exact hdecl (declareTypeSpec_works hr hs doc spec)
  | valueSpec kind doc spec source =>
    exact hdecl (declareValueSpec_works hr hs kind doc spec source)
  | func decl => exact hdecl (declareFunc_works hr hs decl)

theorem items_settle (henter : Entering deep mayEnter enter) (items : List Item) :
    ∀ {env : Environment} {scope : FileScope}, env.registry.WellFormed →
      scope.Sound env.registry →
      (∀ spec, .importSpec spec ∈ items → ImportAllowed mayEnter env spec) →
        Settles deep env (items.foldlM (analyzeItem enter) scope) fun _ _ => True := by
  induction items with
  | nil => exact fun hr _ _ => settles_pure hr trivial
  | cons item rest ih =>
    intro env scope hr hs hallowed
    rw [List.foldlM_cons]
    refine Settles.bind (analyzeItem_settles henter hr hs fun spec he =>
      hallowed spec (he ▸ List.mem_cons_self)) fun scope' mid hf hs' => ?_
    exact ih hf.wellFormed hs' fun spec hm =>
      (hallowed spec (List.mem_cons_of_mem item hm)).later hf

theorem analyzeFileWith_settles (henter : Entering deep mayEnter enter)
    (hr : env.registry.WellFormed) {pkg : PackageId} (hp : env.registry.Registered pkg)
    {file : SourceFile} (hallowed : FileAllowed mayEnter env file) :
    Settles deep env (analyzeFileWith enter pkg file) fun _ _ => True := by
  unfold analyzeFileWith
  refine Settles.after_get ?_
  split
  next => exact settles_fail hr _
  next builtin _ =>
    have hdoc : Settles deep env (Session.analyze (modify
        (·.modifyPackage pkg (·.appendDoc (file.doc.getD []))))) fun _ _ => True :=
      ⟨.of_modifyPackage hr pkg (fun p hp => { hp with }) (fun _ => ⟨rfl, rfl⟩) fun _ h => h,
        trivial⟩
    refine Settles.bind hdoc fun _ mid hf _ => ?_
    have hscope : FileScope.Sound { package := pkg, decodeTag := env.tagDecoder
                                    dotImports := if pkg = builtin then [] else [builtin] }
        mid.registry :=
      ⟨hf.retains.packages pkg hp, fun _ _ hq => (by cases hq), fun _ _ hl => (by cases hl)⟩
    rw [foldlM_analyzeDecl]
    refine Settles.bind (items_settle henter (items file) hf.wellFormed hscope
      fun spec hm => (hallowed spec hm).later hf) ?_
    exact fun _ _ hf' _ => settles_pure hf'.wellFormed trivial

theorem fileAllowed_of_all (h : ∀ env q, mayEnter env q) (env : Environment) (file : SourceFile) :
    FileAllowed mayEnter env file :=
  fun _ _ _ _ _ env' q _ _ _ _ => h env' q

def PathsAllowed (mayEnter : Environment → PackageId → Prop) (env : Environment)
    (paths : List String) : Prop :=
  ∀ path ∈ paths, ∀ file, env.parser path = .ok file → FileAllowed mayEnter env file

theorem FileAllowed.later {file : SourceFile} (h : FileAllowed mayEnter env file)
    (hf : Follows env env') : FileAllowed mayEnter env' file :=
  fun spec hm => (h spec hm).later hf

theorem visitFile_settles (henter : Entering deep mayEnter enter) (hr : env.registry.WellFormed)
    {pkg : PackageId} (hp : env.registry.Registered pkg) {path : String}
    (hallowed : ∀ file, env.parser path = .ok file → FileAllowed mayEnter env file) :
    Settles deep env (visitFile enter pkg path) fun _ _ => True := by
  unfold visitFile
  refine Settles.bind (announce_settles hr pkg path) fun action env₁ h₁ _ => ?_
  cases action with
  | skip => exact settles_pure h₁.wellFormed trivial
  | abort e => exact settles_fail h₁.wellFormed e
  | proceed =>
    refine
      Settles.bind (settles_attempt (Settles.bind (parse_settles h₁.wellFormed pkg path) ?_)) ?_
    · intro file env₂ h₂ hparse
      have h₁₂ := h₁.trans h₂
      exact analyzeFileWith_settles henter h₂.wellFormed (h₁₂.retains.packages pkg hp)
        ((hallowed file (h₁.parser ▸ hparse)).later h₁₂)
    · intro outcome env₃ h₃ _
      refine Settles.bind (conclude_settles h₃.wellFormed pkg path outcome) fun _ _ h₄ _ => ?_
      exact (settles_ofExcept h₄.wellFormed outcome).mono fun _ _ _ _ => trivial

theorem visitFiles_settles (henter : Entering deep mayEnter enter) {pkg : PackageId}
    (paths : List String) : ∀ {env : Environment}, env.registry.WellFormed →
      env.registry.Registered pkg → PathsAllowed mayEnter env paths →
        Settles deep env (visitFiles enter pkg paths) fun _ _ => True := by
  induction paths with
  | nil => exact fun hr _ _ => settles_pure hr trivial
  | cons path rest ih =>
    intro env hr hp hallowed
    refine Settles.bind (visitFile_settles henter hr hp (hallowed path List.mem_cons_self)) ?_
    intro _ mid hf _
    refine ih hf.wellFormed (hf.retains.packages pkg hp) fun path' hm file hparse => ?_
    exact (hallowed path' (List.mem_cons_of_mem path hm) file (hf.parser ▸ hparse)).later hf

theorem explore_settles (henter : Entering deep mayEnter enter) (hr : env.registry.WellFormed)
    {pkg : PackageId}
    (hallowed : ∀ p, env.registry.package? pkg = some p → PathsAllowed mayEnter env p.files) :
    Settles deep env (explore enter pkg) fun _ _ => True := by
  refine Settles.after_get ?_
  have hvisit : Settles deep env (visitFiles enter pkg
      (((env.registry.package? pkg).map (·.files)).getD [])) fun _ _ => True := by
    cases hp : env.registry.package? pkg with
    | none => exact settles_pure hr trivial
    | some p => exact visitFiles_settles henter p.files hr ⟨p, hp⟩ (hallowed p hp)
  refine Settles.bind hvisit fun _ mid hf _ => ?_
  exact ⟨.of_modifyPackage hf.wellFormed pkg (fun p hp => { hp with }) (fun _ => ⟨rfl, rfl⟩)
    fun _ _ => rfl, trivial⟩

end Files

end GoPackages
