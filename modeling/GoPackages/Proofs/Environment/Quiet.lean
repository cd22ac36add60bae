import GoPackages.Proofs.Environment.Visits

/-!
# Quiet steps

What a visit changes beside the declarations of its files: packages are added, marked as
explored and read. Everything that is registered stays, and all steps but two leave alone which
packages are explored and which files were read.
-/
namespace GoPackages

open Source (ImportSpec SourceFile)
open Registry (Retains Edits)
open Environment (SameSetup)

def Event.parsed? (q : PackageId) : Event → Option String
  | .parse pkg path => if pkg = q then some path else none
  | .locate _ _ | .locateDir _ | .file _ _ => none

namespace Environment

def parsed (env : Environment) (q : PackageId) : List String :=
  env.log.toList.filterMap (Event.parsed? q)

theorem parsed_push {env env' : Environment} (event : Event) (h : env'.log = env.log.push event)
    (q : PackageId) : env'.parsed q = env.parsed q ++ (event.parsed? q).toList := by
  unfold parsed
  rw [h, Array.toList_push, List.filterMap_append, List.filterMap_cons]
  cases event.parsed? q <;> rfl

/-- The listener goes by the path of a file alone. -/
def Decides (env : Environment) (decide : String → FileAction) : Prop :=
  match env.listener with
  | some listener => ∀ heard p path, listener.before heard p path = decide path
  | none => ∀ path, decide path = .proceed

/-- Everything stays as it was found; packages may come in. -/
structure Grows (env env' : Environment) : Prop where
  setup : SameSetup env env'
  parser : env'.parser = env.parser
  listener : env'.listener = env.listener
  retains : Retains env.registry env'.registry
  wellFormed : env'.registry.WellFormed
  packages : ∀ q p, env.registry.package? q = some p → ∃ p', env'.registry.package? q = some p' ∧
    p'.importPath = p.importPath ∧ p'.files = p.files ∧ (p.explored = true → p'.explored = true)

variable {env mid env' : Environment} {q : PackageId}

theorem registered_of_explored (h : env.explored q = true) : env.registry.Registered q := by
  unfold explored at h
  cases hp : env.registry.package? q with
  | none => rw [hp] at h; cases h
  | some p => exact ⟨p, hp⟩

theorem registered_of_mem_files {path : String} (h : path ∈ env.files q) :
    env.registry.Registered q := by
  unfold files at h
  cases hp : env.registry.package? q with
  | none => rw [hp] at h; cases h
  | some p => exact ⟨p, hp⟩

namespace Grows

theorem refl (hr : env.registry.WellFormed) : Grows env env :=
  ⟨.refl env, rfl, rfl, .refl _, hr, fun _ p hp => ⟨p, hp, rfl, rfl, id⟩⟩

theorem trans (h : Grows env mid) (h' : Grows mid env') : Grows env env' where
  setup := h.setup.trans h'.setup
  parser := h'.parser.trans h.parser
  listener := h'.listener.trans h.listener
  retains := h.retains.trans h'.retains
  wellFormed := h'.wellFormed
  packages q p hp := by
    obtain ⟨p₁, hp₁, hpath₁, hfiles₁, hex₁⟩ := h.packages q p hp
    obtain ⟨p₂, hp₂, hpath₂, hfiles₂, hex₂⟩ := h'.packages q p₁ hp₁
    exact ⟨p₂, hp₂, hpath₂.trans hpath₁, hfiles₂.trans hfiles₁, hex₂ ∘ hex₁⟩

theorem of_follows (h : Follows env env') (hl : env'.listener = env.listener) : Grows env env' :=
  ⟨h.setup, h.parser, hl, h.retains, h.wellFormed, h.packages⟩

variable (h : Grows env env')
include h

theorem explored (hex : env.explored q = true) : env'.explored q = true := by
  unfold Environment.explored at hex ⊢
  cases hp : env.registry.package? q with
  | none => rw [hp] at hex; cases hex
  | some p =>
    obtain ⟨p', hp', -, -, hmono⟩ := h.packages q p hp
    rw [hp] at hex
    rw [hp']
    exact hmono hex

theorem unexplored (hex : env'.explored q = false) : env.explored q = false := by
  cases hold : env.explored q with
  | false => rfl
  | true => exact (h.explored hold).symm.trans hex

theorem files_eq (hq : env.registry.Registered q) : env'.files q = env.files q := by
  obtain ⟨p, hp⟩ := hq
  obtain ⟨p', hp', -, hfiles, -⟩ := h.packages q p hp
  unfold Environment.files
  rw [hp, hp']
  exact hfiles

theorem decides {decide : String → FileAction} (hd : env.Decides decide) : env'.Decides decide := by
  unfold Decides at hd ⊢
  rw [h.listener]
  exact hd

theorem byPath? {path : String} (hq : env.registry.byPath? path = some q) :
    env'.registry.byPath? path = some q :=
  Registry.byPath?_mono (fun q p hp => by
    obtain ⟨p', hp', hpath, -⟩ := h.packages q p hp
    exact ⟨p', hp', hpath⟩) hq

end Grows

/-- A step that neither explores a package nor reads a file. -/
structure Quiet (env env' : Environment) : Prop where
  grows : Grows env env'
  explored : ∀ q, env'.explored q = env.explored q
  parsed : ∀ q, env'.parsed q = env.parsed q

namespace Quiet

theorem refl (hr : env.registry.WellFormed) : Quiet env env :=
  ⟨.refl hr, fun _ => rfl, fun _ => rfl⟩

theorem trans (h : Quiet env mid) (h' : Quiet mid env') : Quiet env env' where
  grows := h.grows.trans h'.grows
  explored q := (h'.explored q).trans (h.explored q)
  parsed q := (h'.parsed q).trans (h.parsed q)

theorem of_push (hr : env.registry.WellFormed) (event : Event) (he : ∀ q, event.parsed? q = none)
    {heard : List FileEvent} : Quiet env { env with heard, log := env.log.push event } where
  grows := ⟨⟨rfl, rfl⟩, rfl, rfl, .refl _, hr, fun _ p hp => ⟨p, hp, rfl, rfl, id⟩⟩
  explored _ := rfl
  parsed q := by
    rw [parsed_push event rfl q, he q]
    exact List.append_nil _

theorem of_edits (hr : env.registry.WellFormed) {reg : Registry} (h : Edits env.registry reg) :
    Quiet env { env with registry := reg } where
  grows := .of_follows (.of_edits hr h) rfl
  explored q := by
    have hflag := congrArg (Option.any fun outline => outline.2.2) (h.outline q)
    rwa [Option.any_map, Option.any_map] at hflag
  parsed _ := rfl

theorem of_append (hr : env.registry.WellFormed) {info : PackageInfo} {id : PackageId}
    {reg : Registry} (h : env.registry.append (.ofInfo info) = .ok (id, reg)) :
    Quiet env { env with registry := reg } := by
  obtain ⟨hkeep, hwell⟩ := Registry.append_wellFormed hr (Registry.packageFits_ofInfo _ info) h
  refine ⟨⟨⟨rfl, rfl⟩, rfl, rfl, hkeep, hwell, fun q p hp => ?_⟩, fun q => ?_, fun _ => rfl⟩
  · obtain ⟨p', hp', hu⟩ := Registry.package?_append h hp
    have hpath := congrArg Package.importPath hu
    have hfiles := congrArg Package.files hu
    have hex := congrArg Package.explored hu
    exact ⟨p', hp', hpath, hfiles, hex.trans⟩
  · obtain ⟨-, rfl, -, -, hall⟩ := Registry.append_ok h
    have hflag := congrArg (Option.any Package.explored) (hall q)
    rw [Option.any_map] at hflag
    change (reg.package? q).any Package.explored = (env.registry.package? q).any Package.explored
    refine hflag.trans ?_
    split
    next hq =>
      subst hq
      have hnone : env.registry.package? ⟨env.registry.packages.size⟩ = none :=
        Array.getElem?_eq_none (Nat.le_refl _)
      rw [hnone]
      rfl
    next => exact Option.any_map ..

end Quiet

end Environment

open Environment (Grows Quiet)

section Steps

variable {env mid env' : Environment} {pkg : PackageId} {path : String}

theorem announce_ok (hr : env.registry.WellFormed) {action : FileAction}
    (h : announce pkg path env = .ok action mid) :
    Quiet env mid ∧ ∀ decide, env.Decides decide → env.registry.Registered pkg →
      action = decide path := by
  unfold announce at h
  obtain ⟨_, _, hget, h⟩ := bind_ok h
  cases hget
  cases hl : env.listener with
  | none =>
    rw [hl] at h
    cases h
    refine ⟨.refl hr, fun decide hd _ => ?_⟩
    rw [Environment.Decides, hl] at hd
    exact (hd path).symm
  | some listener =>
    cases hp : env.registry.package? pkg with
    | none =>
      rw [hl, hp] at h
      cases h
      refine ⟨.refl hr, fun decide _ ⟨p, hq⟩ => ?_⟩
      rw [hp] at hq
      cases hq
    | some p =>
      rw [hl, hp] at h
      cases h
      refine ⟨.of_push hr _ fun _ => rfl, fun decide hd _ => ?_⟩
      rw [Environment.Decides, hl] at hd
      exact hd env.heard p path

theorem conclude_quiet (hr : env.registry.WellFormed) {outcome : Except Error Unit}
    (h : conclude pkg path outcome env = .ok () mid) : Quiet env mid := by
  unfold conclude at h
  obtain ⟨_, _, hget, h⟩ := bind_ok h
  cases hget
  cases hl : env.listener with
  | none => rw [hl] at h; cases h; exact .refl hr
  | some listener =>
    cases hp : env.registry.package? pkg with
    | none => rw [hl, hp] at h; cases h; exact .refl hr
    | some p =>
      rw [hl, hp] at h
      obtain ⟨_, _, htell, h⟩ := bind_ok h
      cases htell
      obtain ⟨-, rfl⟩ := ofExcept_ok h
      exact .of_push hr _ fun _ => rfl

theorem locate_quiet (hr : env.registry.WellFormed) {info : PackageInfo}
    (h : Session.locate path env = .ok info mid) : Quiet env mid := by
  obtain ⟨_, _, hget, h⟩ := bind_ok h
  cases hget
  obtain ⟨_, _, hrecord, h⟩ := bind_ok h
  cases hrecord
  obtain ⟨-, rfl⟩ := ofExcept_ok h
  exact .of_push hr (.locate path env.importRoot) fun _ => rfl

theorem locateDir_quiet (hr : env.registry.WellFormed) {info : PackageInfo}
    (h : Session.locateDir path env = .ok info mid) : Quiet env mid := by
  obtain ⟨_, _, hget, h⟩ := bind_ok h
  cases hget
  obtain ⟨_, _, hrecord, h⟩ := bind_ok h
  cases hrecord
  obtain ⟨-, rfl⟩ := ofExcept_ok h
  exact .of_push hr (.locateDir path) fun _ => rfl

theorem ensurePackage_quiet (hr : env.registry.WellFormed) {info : PackageInfo} {q : PackageId}
    (h : Session.ensurePackage info env = .ok q mid) :
    Quiet env mid ∧ mid.registry.byPath? info.importPath = some q := by
  obtain ⟨reg, hensure, rfl⟩ := Session.ensurePackage_ok h
  obtain ⟨hpath, hgrown⟩ := Registry.ensurePackage_ok hensure
  refine ⟨?_, hpath⟩
  rcases hgrown with rfl | happend
  · exact .refl hr
  · exact .of_append hr happend

structure Located (env : Environment) (path : String) (q : PackageId) (env' : Environment) :
    Prop where
  quiet : Quiet env env'
  found : ∃ info, env.locate path = .ok info ∧ env'.registry.byPath? info.importPath = some q

theorem located (hr : env.registry.WellFormed) {info : PackageInfo} {q : PackageId}
    (hlocate : Session.locate path env = .ok info mid)
    (hensure : Session.ensurePackage info mid = .ok q env') : Located env path q env' := by
  have h₁ := locate_quiet hr hlocate
  obtain ⟨h₂, hfound⟩ := ensurePackage_quiet h₁.grows.wellFormed hensure
  exact ⟨h₁.trans h₂, info, (Session.locate_ok hlocate).1, hfound⟩

theorem Located.registered {q : PackageId} (h : Located env path q mid) :
    mid.registry.Registered q := by
  obtain ⟨_, -, hfound⟩ := h.found
  obtain ⟨⟨p, hp, -⟩, -⟩ := Registry.byPath?_eq_some_iff.mp hfound
  exact ⟨p, hp⟩

theorem parse_ok {file : SourceFile} (h : Session.parse pkg path env = .ok file mid) :
    env.parser path = .ok file ∧ mid = { env with log := env.log.push (.parse pkg path) } := by
  obtain ⟨_, _, hget, h⟩ := bind_ok h
  cases hget
  obtain ⟨_, _, hrecord, h⟩ := bind_ok h
  cases hrecord
  obtain ⟨hparse, rfl⟩ := ofExcept_ok h
  exact ⟨hparse, rfl⟩

theorem opened_quiet (hr : env.registry.WellFormed) (pkg : PackageId) (file : SourceFile) :
    Quiet env (env.opened pkg file) where
  grows := .of_follows (.of_modifyPackage hr pkg (fun _ hp => { hp with }) (fun _ => ⟨rfl, rfl⟩)
    fun _ h => h) rfl
  explored q := by
    have ho := Registry.map_modifyPackage (g := Package.outline)
      (f := (·.appendDoc (file.doc.getD []))) (fun _ => rfl) env.registry pkg q
    have hflag := congrArg (Option.any fun outline => outline.2.2) ho
    rwa [Option.any_map, Option.any_map] at hflag
  parsed _ := rfl

theorem markExplored_grows (hr : env.registry.WellFormed) (pkg : PackageId) :
    Grows env (env.markExplored pkg) :=
  .of_follows (.of_modifyPackage hr pkg (fun _ hp => { hp with }) (fun _ => ⟨rfl, rfl⟩)
    fun _ _ => rfl) rfl

theorem explored_markExplored_of_ne {q : PackageId} (h : pkg ≠ q) :
    (env.markExplored pkg).explored q = env.explored q := by
  unfold Environment.explored Environment.markExplored
  rw [Registry.package?_modifyPackage_of_ne h]

theorem explored_markExplored_self (h : env.registry.Registered pkg) :
    (env.markExplored pkg).explored pkg = true := by
  obtain ⟨p, hp⟩ := h
  unfold Environment.explored Environment.markExplored
  rw [Registry.package?_modifyPackage_self hp]
  rfl

theorem analyze_quiet (hr : env.registry.WellFormed) {step : Analysis Unit}
    (hw : Works env.registry step fun _ _ => True) {scope scope' : FileScope}
    (hs : scope.Sound env.registry)
    (h : (do Session.analyze step; return scope) env = .ok scope' mid) :
    Quiet env mid ∧ scope'.Sound mid.registry ∧ scope'.package = scope.package := by
  obtain ⟨rfl, _, reg, hstep, rfl⟩ := Session.analyze_pure_ok h
  have hquiet := Quiet.of_edits hr (After.of_ok hw hstep).1
  exact ⟨hquiet, hs.retained hquiet.grows.retains, rfl⟩

theorem analyzeItem_quiet {enter : PackageId → Session Unit} (hr : env.registry.WellFormed)
    {scope scope' : FileScope} (hs : scope.Sound env.registry) {item : Item}
    (hdot : ∀ spec, item = .importSpec spec → spec.name ≠ some .dot)
    (h : analyzeItem enter scope item env = .ok scope' mid) :
    Quiet env mid ∧ scope'.Sound mid.registry ∧ scope'.package = scope.package := by
  cases item with
  | importSpec spec =>
    obtain ⟨info, env₁, hlocate, h⟩ := bind_ok h
    obtain ⟨q, env₂, hensure, h⟩ := bind_ok h
    have hquiet₁ := locate_quiet hr hlocate
    obtain ⟨hquiet₂, hpath⟩ := ensurePackage_quiet hquiet₁.grows.wellFormed hensure
    obtain ⟨⟨p, hp, -⟩, -⟩ := Registry.byPath?_eq_some_iff.mp hpath
    have hquiet := hquiet₁.trans hquiet₂
    have hs₂ := hs.retained hquiet.grows.retains
    have hplain := hdot spec rfl
    cases hname : spec.name with
    | none => rw [hname] at h; cases h; exact ⟨hquiet, hs₂.insert_alias ⟨p, hp⟩ _, rfl⟩
    | some name =>
      rw [hname] at h hplain
      cases name with
      | dot => exact absurd rfl hplain
      | blank => cases h; exact ⟨hquiet, hs₂, rfl⟩
      | named name => cases h; exact ⟨hquiet, hs₂.insert_alias ⟨p, hp⟩ name, rfl⟩
  | typeSpec doc spec => exact analyze_quiet hr (declareTypeSpec_works hr hs doc spec) hs h
  | valueSpec kind doc spec source =>
    exact analyze_quiet hr (declareValueSpec_works hr hs kind doc spec source) hs h
  | func decl => exact analyze_quiet hr (declareFunc_works hr hs decl) hs h

end Steps

def Task.Sound (env : Environment) : Task → Prop
  | .package pkg => env.registry.Registered pkg
  | .files pkg paths => ∀ path ∈ paths, env.registry.Registered pkg
  | .body scope _ => scope.Sound env.registry

theorem Environment.scopeOf_sound {env env' : Environment} {pkg : PackageId}
    (h : env'.registry.Registered pkg) (builtin : PackageId) :
    (env.scopeOf pkg builtin).Sound env'.registry :=
  ⟨h, fun _ _ hq => (by cases hq), fun _ _ hl => (by cases hl)⟩

structure Opening (env : Environment) (pkg : PackageId) (path : String) (file : SourceFile)
    (env' : Environment) : Prop where
  read : env.parser path = .ok file
  grows : Grows env env'
  explored : ∀ q, env'.explored q = env.explored q
  parsed : ∀ q, env'.parsed q = env.parsed q ++ if pkg = q then [path] else []

theorem opening {env env₁ env₂ : Environment} (hr : env.registry.WellFormed) {pkg : PackageId}
    {path : String} {file : SourceFile} (hannounce : announce pkg path env = .ok .proceed env₁)
    (hparse : Session.parse pkg path env₁ = .ok file env₂) :
    Opening env pkg path file (env₂.opened pkg file) := by
  have h₁ := (announce_ok hr hannounce).1
  obtain ⟨hread, rfl⟩ := parse_ok hparse
  have hwell := h₁.grows.wellFormed
  have h₂ : Grows env₁ { env₁ with log := env₁.log.push (.parse pkg path) } :=
    ⟨⟨rfl, rfl⟩, rfl, rfl, .refl _, hwell, fun _ p hp => ⟨p, hp, rfl, rfl, id⟩⟩
  have h₃ := opened_quiet h₂.wellFormed pkg file
  refine ⟨h₁.grows.parser ▸ hread, (h₁.grows.trans h₂).trans h₃.grows, fun q => ?_, fun q => ?_⟩
  · exact (h₃.explored q).trans (h₁.explored q)
  · rw [h₃.parsed q, Environment.parsed_push (.parse pkg path) rfl q, h₁.parsed q,
      Event.parsed?]
    split <;> rfl

theorem Visit.grows {task : Task} {env env' : Environment} {entries : List Entry}
    (h : Visit task env entries env') :
    env.registry.WellFormed → task.Sound env → Grows env env' := by
  induction h with
  | known _ | noFiles | noItems => exact fun hr _ => .refl hr
  | @package env env' pkg entries _ _ ih =>
    intro hr _
    have hfiles := ih hr fun _ hm => Environment.registered_of_mem_files hm
    exact hfiles.trans (markExplored_grows hfiles.wellFormed pkg)
  | @skip env env₁ env' pkg path rest _ hannounce _ ih =>
    intro hr hs
    have h₁ := (announce_ok hr hannounce).1.grows
    have hp := h₁.retains.packages pkg (hs path List.mem_cons_self)
    exact h₁.trans (ih h₁.wellFormed fun _ _ => hp)
  | @file _ _ _ _ _ _ pkg path _ _ _ _ _ hannounce hparse _ _ hconclude _ ihBody ihRest =>
    intro hr hs
    have hopen := (opening hr hannounce hparse).grows
    have hp := hs path List.mem_cons_self
    have hbody := hopen.trans (ihBody hopen.wellFormed
      (Environment.scopeOf_sound (hopen.retains.packages pkg hp) _))
    have hdone := hbody.trans (conclude_quiet hbody.wellFormed hconclude).grows
    exact hdone.trans (ihRest hdone.wellFormed fun _ _ => hdone.retains.packages pkg hp)
  | item hdot hitem _ ih =>
    intro hr hs
    obtain ⟨hquiet, hs', -⟩ := analyzeItem_quiet hr hs hdot hitem
    exact hquiet.grows.trans (ih hquiet.grows.wellFormed hs')
  | dotImport _ hlocate hensure _ _ ihPackage ihRest =>
    intro hr hs
    have hfound := located hr hlocate hensure
    have hentered := hfound.quiet.grows.trans
      (ihPackage hfound.quiet.grows.wellFormed hfound.registered)
    exact hentered.trans (ihRest hentered.wellFormed
      ((FileScope.Sound.retained hs hentered.retains).addDotImport _))

/-- The stages of a file that is read: it is opened, its items come up, the listener is told. -/
structure FileStages (env : Environment) (pkg : PackageId) (path : String) (file : SourceFile)
    (scope : FileScope) (start stop env' : Environment) : Prop where
  opening : Opening env pkg path file start
  scope : scope.Sound start.registry
  items : Grows start stop
  told : Quiet stop env'

section FileStages

variable {env env₁ env₂ env₃ env₄ : Environment} {pkg builtin : PackageId} {path : String}
  {file : SourceFile} {scope : FileScope} {entries : List Entry}

theorem FileStages.grows (h : FileStages env pkg path file scope env₁ env₂ env₃) :
    Grows env env₃ :=
  (h.opening.grows.trans h.items).trans h.told.grows

theorem fileStages (hr : env.registry.WellFormed) (hp : env.registry.Registered pkg)
    (hannounce : announce pkg path env = .ok .proceed env₁)
    (hparse : Session.parse pkg path env₁ = .ok file env₂)
    (hbody : Visit (.body (env₂.scopeOf pkg builtin) (items file)) (env₂.opened pkg file)
      entries env₃)
    (hconclude : conclude pkg path (.ok ()) env₃ = .ok () env₄) :
    FileStages env pkg path file (env₂.scopeOf pkg builtin) (env₂.opened pkg file) env₃ env₄ := by
  have hopen := opening hr hannounce hparse
  have hscope : (env₂.scopeOf pkg builtin).Sound (env₂.opened pkg file).registry :=
    Environment.scopeOf_sound (hopen.grows.retains.packages pkg hp) builtin
  have hgrows := hbody.grows hopen.grows.wellFormed hscope
  exact ⟨hopen, hscope, hgrows, conclude_quiet hgrows.wellFormed hconclude⟩

end FileStages

end GoPackages
