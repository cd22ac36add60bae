import GoPackages.Proofs.Environment.PackageCalls
import GoPackages.Proofs.Environment.QualifiedNames

/-!
# What packages are recorded as

Without imports that have no qualifier, only one package is under way at a time. Its files are
recorded one after the other while the records of the packages before it stay valid, so between
two requests every explored package lists what its files were recorded as and every other package
lists nothing.
-/
namespace GoPackages

open Source (SourceFile)
open Registry (Adds Course Leads Meant Naming Once Tabled Lasting builtinId)
open Environment (Grows Quiet)

namespace Environment

def typesRead (env : Environment) (path : String) : List String :=
  match env.parser path with
  | .ok file => typeNames file
  | .error _ => []

def DeclaresOnce (env : Environment) : Prop := ∀ q, ((env.files q).flatMap env.typesRead).Nodup

def DotFree (env : Environment) : Prop := ∀ path file spec, env.parser path = .ok file →
  .importSpec spec ∈ items file → spec.name ≠ some .dot

def MaySkip (env : Environment) (path : String) : Prop :=
  ∃ listener heard p, env.listener = some listener ∧ listener.before heard p path = .skip

variable {env mid env' : Environment} {q : PackageId}

theorem typesRead_eq (h : Grows env env') : env'.typesRead = env.typesRead := by
  unfold typesRead
  rw [h.parser]

theorem DotFree.later (h : env.DotFree) (hg : Grows env env') : env'.DotFree := by
  unfold DotFree
  rw [hg.parser]
  exact h

theorem MaySkip.later {path : String} (h : env.MaySkip path) (hg : Grows env env') :
    env'.MaySkip path := by
  unfold MaySkip
  rw [hg.listener]
  exact h

theorem DeclaresOnce.earlier (h : env'.DeclaresOnce) (hg : Grows env env') :
    env.DeclaresOnce := by
  intro q
  by_cases hq : env.registry.Registered q
  · rw [← hg.files_eq hq, ← typesRead_eq hg]
    exact h q
  · have hnil : env.files q = [] :=
      List.eq_nil_iff_forall_not_mem.mpr fun _ hm => hq (registered_of_mem_files hm)
    rw [hnil]
    exact List.nodup_nil

end Environment

inductive PathsRecorded (env : Environment) (pkg : PackageId)
    (declares : String → Meant → Prop) : List String → List Listed → Prop where
  | nil : PathsRecorded env pkg declares [] []
  | skip {path rest log} : env.MaySkip path → PathsRecorded env pkg declares rest log →
      PathsRecorded env pkg declares (path :: rest) log
  | read {path rest file log log'} : env.parser path = .ok file →
      BodyRecorded env.locate env.registry pkg declares {} (items file) log →
      PathsRecorded env pkg declares rest log' →
      PathsRecorded env pkg declares (path :: rest) (log ++ log')

section Files

variable {env mid env' : Environment} {pkg : PackageId} {declares declares' : String → Meant → Prop}
  {path : String}

theorem PathsRecorded.mono {paths : List String} {log : List Listed}
    (h : PathsRecorded env pkg declares paths log) (hg : Grows env env')
    (hr : env.registry.Sound) (hl : Lasting env.registry env'.registry)
    (hd : ∀ n m, declares n m → declares' n m) : PathsRecorded env' pkg declares' paths log := by
  induction h with
  | nil => exact .nil
  | skip hskip _ ih => exact .skip (hskip.later hg) ih
  | read hparse hbody _ ih =>
    refine .read (hg.parser ▸ hparse) ?_ ih
    rw [hg.setup.locate]
    exact hbody.mono hr hl hd

theorem announce_registry {action : FileAction} (h : announce pkg path env = .ok action mid) :
    mid.registry = env.registry ∧ (action = .skip → env.MaySkip path) := by
  obtain ⟨_, _, hget, h⟩ := bind_ok h
  cases hget
  cases hl : env.listener with
  | none => rw [hl] at h; cases h; exact ⟨rfl, nofun⟩
  | some listener =>
    cases hp : env.registry.package? pkg with
    | none => rw [hl, hp] at h; cases h; exact ⟨rfl, nofun⟩
    | some p =>
      rw [hl, hp] at h
      cases h
      exact ⟨rfl, fun hskip => ⟨listener, env.heard, p, hl, hskip⟩⟩

theorem conclude_registry {outcome : Except Error Unit}
    (h : conclude pkg path outcome env = .ok () mid) : mid.registry = env.registry := by
  obtain ⟨_, _, hget, h⟩ := bind_ok h
  cases hget
  cases hl : env.listener with
  | none => rw [hl] at h; cases h; rfl
  | some listener =>
    cases hp : env.registry.package? pkg with
    | none => rw [hl, hp] at h; cases h; rfl
    | some p =>
      rw [hl, hp] at h
      obtain ⟨_, _, htell, h⟩ := bind_ok h
      cases htell
      obtain ⟨-, rfl⟩ := ofExcept_ok h
      rfl

theorem file_recorded {env₁ env₂ env₃ env₄ : Environment} {file : SourceFile}
    {builtin : PackageId} {entries : List Entry} (hw : env.registry.WellFormed)
    (hr : env.registry.Sound) (hreg : env.registry.Registered pkg) (hdot : env.DotFree)
    (hpkg : pkg ≠ builtinId) (hannounce : announce pkg path env = .ok .proceed env₁)
    (hparse : Session.parse pkg path env₁ = .ok file env₂)
    (hbody : Visit (.body (env₂.scopeOf pkg builtin) (items file)) (env₂.opened pkg file)
      entries env₃)
    (hconclude : conclude pkg path (.ok ()) env₃ = .ok () env₄) :
    env.parser path = .ok file ∧ Grows env env₄ ∧ ∃ new log,
      Advances pkg (env.typesRead path) (fun declares log => BodyRecorded env.locate env₄.registry
        pkg declares {} (items file) log) new log env.registry env₄.registry := by
  have hstages := fileStages hw hreg hannounce hparse hbody hconclude
  have hopen := hstages.opening
  have hsame : env₂.registry = env.registry := by
    obtain ⟨-, rfl⟩ := parse_ok hparse
    exact (announce_registry hannounce).1
  have hdoc : Gains pkg [] [] env.registry (env₂.opened pkg file).registry := by
    rw [← hsame]
    exact .of_listing pkg (fun _ => ⟨rfl, rfl, rfl, rfl⟩) (fun _ => rfl) fun _ => rfl
  obtain ⟨new, log, hadvances⟩ := body_recorded
    (fun spec hm => hdot path file spec hopen.read hm) hopen.grows.wellFormed
    (hdoc.course.leads hr).sound hstages.scope hpkg hbody
  have hnames : env.typesRead path = typeNames file := by
    unfold Environment.typesRead
    rw [hopen.read]
  rw [hopen.grows.setup.locate, ← conclude_registry hconclude] at hadvances
  refine ⟨hopen.read, hstages.grows, new, log, ?_⟩
  rw [hnames]
  refine ⟨hdoc.trans hadvances.gains hreg, hadvances.names, fun named ht honce => ?_⟩
  exact hadvances.records named (ht.adds hdoc.course.adds_of_nil) honce

theorem paths_recorded (hpkg : pkg ≠ builtinId) {paths : List String} :
    ∀ {env env' : Environment} {entries : List Entry}, env.registry.WellFormed →
      env.registry.Sound → env.registry.Registered pkg → env.DotFree →
      Visit (.files pkg paths) env entries env' → ∃ new log,
        Advances pkg (paths.flatMap env.typesRead)
          (fun declares log => PathsRecorded env' pkg declares paths log) new log
          env.registry env'.registry := by
  induction paths with
  | nil =>
    intro env env' entries _ _ _ _ hv
    cases hv
    exact ⟨[], [], .refl _ _, .refl _, fun _ _ _ => .nil⟩
  | cons path rest ih =>
    intro env env' entries hw hr hreg hdot hv
    have hgrows : Grows env env' := hv.grows hw fun _ _ => hreg
    cases hv with
    | skip hannounce hrest =>
      obtain ⟨hsame, hskip⟩ := announce_registry hannounce
      have hquiet := (announce_ok hw hannounce).1
      obtain ⟨new, log, hadvances⟩ := ih hquiet.grows.wellFormed (hsame ▸ hr) (hsame ▸ hreg)
        (hdot.later hquiet.grows) hrest
      rw [hsame, Environment.typesRead_eq hquiet.grows] at hadvances
      refine ⟨new, log, hadvances.gains, ?_, fun named ht honce => ?_⟩
      · exact hadvances.names.trans (List.sublist_append_right _ _)
      · exact .skip ((hskip rfl).later hgrows) (hadvances.records named ht honce)
    | file hannounce hparse _ hbody hconclude hrest =>
      obtain ⟨hread, hgrows₁, new, log, hadvances⟩ :=
        file_recorded hw hr hreg hdot hpkg hannounce hparse hbody hconclude
      obtain ⟨new', log', hadvances'⟩ := ih hgrows₁.wellFormed
        (hadvances.gains.course.leads hr).sound (hadvances.gains.registered hreg)
        (hdot.later hgrows₁) hrest
      rw [Environment.typesRead_eq hgrows₁] at hadvances'
      refine ⟨_, _, hadvances.trans hadvances' hreg hpkg ?_⟩
      intro _ _ hmid hl hd hbody hrest
      refine .read (hgrows.parser ▸ hread) ?_ hrest
      rw [hgrows.setup.locate]
      exact hbody.mono hmid hl hd

end Files

/-- The names that a package declares among `named`, in order. -/
def namesOf (named : List Naming) (q : PackageId) : List String :=
  (named.filter (·.package = q)).map Naming.name

section Names

variable {named new : List Naming} {q : PackageId}

theorem namesOf_append (named new : List Naming) (q : PackageId) :
    namesOf (named ++ new) q = namesOf named q ++ namesOf new q := by
  unfold namesOf
  rw [List.filter_append, List.map_append]

theorem namesOf_own (h : ∀ d ∈ new, d.package = q) : namesOf new q = new.map Naming.name := by
  unfold namesOf
  rw [List.filter_eq_self.mpr fun d hd => decide_eq_true (h d hd)]

theorem namesOf_other {pkg : PackageId} (h : ∀ d ∈ new, d.package = pkg) (hne : q ≠ pkg) :
    namesOf new q = [] := by
  unfold namesOf
  rw [List.filter_eq_nil_iff.mpr fun d hd heq => hne ((of_decide_eq_true heq).symm.trans (h d hd))]
  rfl

theorem once_of_namesOf : ∀ {named : List Naming}, (∀ q, (namesOf named q).Nodup) → Once named
  | [], _ => List.nodup_nil
  | d :: rest, h => by
    have hd : (d.name :: namesOf rest d.package).Nodup := by
      have hself := h d.package
      rwa [namesOf, List.filter_cons_of_pos (by simp), List.map_cons] at hself
    refine List.nodup_cons.mpr ⟨fun hm => ?_, once_of_namesOf fun q => ?_⟩
    · obtain ⟨d', hd', hkey⟩ := List.mem_map.mp hm
      obtain ⟨hpkg, hname⟩ := Prod.mk.inj hkey
      refine (List.nodup_cons.mp hd).1 (List.mem_map.mpr ⟨d', ?_, hname⟩)
      exact List.mem_filter.mpr ⟨hd', decide_eq_true hpkg⟩
    · exact (h q).sublist (((List.sublist_cons_self d rest).filter _).map _)

end Names

/-- A package lists what its files were recorded as, or nothing as long as it is not explored. -/
inductive PackageRecorded (env : Environment) (declares : String → Meant → Prop) (q : PackageId)
    (p : Package) : Prop where
  | unseen : p.explored = false → p.contents = p.blank → PackageRecorded env declares q p
  | explored {log : List Listed} : p.explored = true →
      p.contents = log.foldl Listed.record p.blank → PathsRecorded env q declares p.files log →
      PackageRecorded env declares q p

/-- Where a session stands between two packages, after the declarations `named`. -/
structure Survey (env : Environment) (named : List Naming) : Prop where
  wellFormed : env.registry.WellFormed
  tabled : Tabled named env.registry
  builtin : env.explored builtinId = true
  foreign : ∀ d ∈ named, d.package ≠ builtinId
  names : ∀ q, (namesOf named q).Sublist
    (if env.explored q then (env.files q).flatMap env.typesRead else [])
  packages : ∀ q p, q ≠ builtinId → env.registry.package? q = some p →
    PackageRecorded env (declaredIn q named) q p

section Packages

variable {env mid env' : Environment} {named new : List Naming} {log : List Listed}
  {pkg q : PackageId} {p p' : Package} {declares declares' : String → Meant → Prop}

theorem blank_of_contents (h : p'.contents = p.contents) : p'.blank = p.blank := by
  rw [← blank_contents, h, blank_contents]

theorem files_of_blank (h : p'.blank = p.blank) : p'.files = p.files := by
  have hfiles := congrArg Package.files h
  exact hfiles

@[simp] theorem blank_record (p : Package) (l : Listed) : (l.record p).blank = p.blank := by
  cases l with
  | type spec ty => cases spec with | mk doc name typeParams type isAlias => cases type <;> rfl
  | value kind v => by_cases h : kind = .consts <;> simp only [Listed.record, h] <;> rfl
  | function | method => rfl

theorem blank_records (log : List Listed) (p : Package) :
    (log.foldl Listed.record p).blank = p.blank := by
  induction log generalizing p with
  | nil => rfl
  | cons l log ih => rw [List.foldl_cons, ih, blank_record]

theorem PackageRecorded.later (h : PackageRecorded env declares q p)
    (hcontents : p'.contents = p.contents) (hex : p'.explored = p.explored)
    (hg : Grows env env') (hr : env.registry.Sound) (hl : Lasting env.registry env'.registry)
    (hd : ∀ n m, declares n m → declares' n m) : PackageRecorded env' declares' q p' := by
  have hblank := blank_of_contents hcontents
  cases h with
  | unseen hold hnone =>
    exact .unseen (hex.trans hold) (hcontents.trans (hnone.trans hblank.symm))
  | explored hold hlog hpaths =>
    rw [← hblank] at hlog
    rw [← files_of_blank hblank] at hpaths
    exact .explored (hex.trans hold) (hcontents.trans hlog) (hpaths.mono hg hr hl hd)

theorem Gains.explored (h : Gains pkg new log env.registry env'.registry) (q : PackageId) :
    env'.explored q = env.explored q := by
  unfold Environment.explored
  cases hp : env.registry.package? q with
  | some p =>
    obtain ⟨p', hp', -, hex⟩ := h.packages q p hp
    rw [hp']
    exact hex
  | none =>
    cases hp' : env'.registry.package? q with
    | none => rfl
    | some p' => exact (h.fresh q p' hp hp').2

theorem Survey.of_new (h : env.registry = .new) : Survey env [] where
  wellFormed := h ▸ Registry.new_wellFormed
  tabled := h ▸ Registry.new_tabled
  builtin := by
    unfold Environment.explored
    rw [h]
    decide +kernel
  foreign _ hd := by cases hd
  names _ := List.nil_sublist _
  packages q p hq hp := by
    rw [h] at hp
    exact absurd (Registry.eq_builtinId_of_new hp) hq

theorem Survey.others (h : Survey env named) (hgains : Gains pkg new log env.registry mid.registry)
    (hg : Grows env env') (hl : Lasting env.registry env'.registry) (hq : q ≠ builtinId)
    (hlog : logFor pkg q log = []) (hp' : mid.registry.package? q = some p') :
    PackageRecorded env' (declaredIn q (named ++ new)) q p' := by
  cases hp : env.registry.package? q with
  | none =>
    obtain ⟨hblank, hex⟩ := hgains.fresh q p' hp hp'
    exact .unseen hex hblank
  | some p =>
    obtain ⟨p₁, hp₁, hcontents, hex⟩ := hgains.packages q p hp
    obtain rfl := Option.some.inj (hp'.symm.trans hp₁)
    rw [hlog] at hcontents
    exact (h.packages q p hq hp).later hcontents hex hg h.tabled.sound hl
      fun _ _ hm => List.mem_append_left _ hm

theorem Survey.found (h : Survey env named) (hg : Grows env mid)
    (hgains : Gains builtinId [] [] env.registry mid.registry) : Survey mid named where
  wellFormed := hg.wellFormed
  tabled := h.tabled.adds hgains.course.adds_of_nil
  builtin := (hgains.explored builtinId).trans h.builtin
  foreign := h.foreign
  names q := by
    have hnames := h.names q
    rw [hgains.explored q, Environment.typesRead_eq hg]
    split at hnames
    next hex =>
      rw [if_pos hex, hg.files_eq (Environment.registered_of_explored hex)]
      exact hnames
    next hex => rwa [if_neg hex]
  packages q p' hq hp' := by
    have hlasting := hgains.lasting_of_nil h.tabled.sound
    have hrecorded := h.others hgains hg hlasting hq (logFor_nil _ _) hp'
    rwa [List.append_nil] at hrecorded

theorem once_of_names (honce : env.DeclaresOnce) (h : ∀ q, (namesOf named q).Sublist
    (if env.explored q then (env.files q).flatMap env.typesRead else [])) : Once named := by
  refine once_of_namesOf fun q => ?_
  have hnames := h q
  split at hnames
  · exact (honce q).sublist hnames
  · exact List.nodup_nil.sublist hnames

theorem adds_markExplored (env : Environment) (q : PackageId) :
    Adds env.registry (env.markExplored q).registry :=
  .of_listing (f := (·.markExplored)) q fun _ => ⟨rfl, rfl, rfl, rfl⟩

theorem lasting_markExplored (hr : env.registry.Sound) (q : PackageId) :
    Lasting env.registry (env.markExplored q).registry :=
  ⟨.refl 0 _, (adds_markExplored env q).leads hr⟩

theorem explored_markExplored {t : PackageId} (hq : env.registry.Registered q) :
    (env.markExplored q).explored t = if t = q then true else env.explored t := by
  split
  next heq =>
    subst heq
    exact explored_markExplored_self hq
  next hne => exact explored_markExplored_of_ne (Ne.symm hne)

theorem Survey.names_after (h : Survey env named) (hex : env.explored q = false)
    (hg : Grows env (env'.markExplored q)) (hq : env.registry.Registered q)
    (hgains : Gains q new log env.registry env'.registry)
    (hnew : (new.map Naming.name).Sublist ((env.files q).flatMap env.typesRead)) (t : PackageId) :
    (namesOf (named ++ new) t).Sublist (if (env'.markExplored q).explored t then
      ((env'.markExplored q).files t).flatMap (env'.markExplored q).typesRead else []) := by
  have hold := h.names t
  rw [namesOf_append, Environment.typesRead_eq hg,
    explored_markExplored (hgains.registered hq), hgains.explored t]
  by_cases ht : t = q
  · subst ht
    rw [hex] at hold
    have hnil : namesOf named t = [] := List.sublist_nil.mp hold
    rw [hnil, namesOf_own hgains.own, if_pos rfl, if_pos rfl, hg.files_eq hq]
    exact hnew
  · rw [namesOf_other hgains.own ht, List.append_nil, if_neg ht]
    split at hold
    next hext =>
      rw [if_pos hext, hg.files_eq (Environment.registered_of_explored hext)]
      exact hold
    next hext => rwa [if_neg hext]

theorem Survey.explored_package (h : Survey env named) (hq : env.registry.Registered q)
    (hex : env.explored q = false) (hpkg : q ≠ builtinId)
    (hgains : Gains q new log env.registry env'.registry)
    (hpaths : PathsRecorded (env'.markExplored q) q declares (env.files q) log)
    (hp' : (env'.markExplored q).registry.package? q = some p') :
    PackageRecorded (env'.markExplored q) declares q p' := by
  obtain ⟨p, hp⟩ := hq
  obtain ⟨p₁, hp₁, hcontents, -⟩ := hgains.packages q p hp
  have hmarked : (env'.markExplored q).registry.package? q = some p₁.markExplored :=
    Registry.package?_modifyPackage_self hp₁ _
  obtain rfl := Option.some.inj (hp'.symm.trans hmarked)
  have hfiles : env.files q = p.files := by rw [Environment.files, hp]; rfl
  rw [logFor_self] at hcontents
  cases h.packages q p hpkg hp with
  | unseen _ hnone =>
    have hblank : p₁.blank = p.blank := by
      rw [← blank_contents p₁, hcontents, blank_records, blank_contents]
    rw [hnone, ← hblank] at hcontents
    rw [hfiles, ← files_of_blank hblank] at hpaths
    exact .explored rfl hcontents hpaths
  | explored hold =>
    rw [Environment.explored, hp] at hex
    cases hold.symm.trans hex

/-- A package is explored as a whole. -/
theorem Survey.entered (h : Survey env named) (hq : env.registry.Registered q)
    (hex : env.explored q = false) (hdot : env.DotFree) {entries : List Entry}
    (hv : Visit (.files q (env.files q)) env entries env')
    (honce : (env'.markExplored q).DeclaresOnce) :
    ∃ new, Survey (env'.markExplored q) (named ++ new) := by
  have hpkg : q ≠ builtinId := by
    rintro rfl
    cases hex.symm.trans h.builtin
  obtain ⟨new, log, hadvances⟩ := paths_recorded hpkg h.wellFormed h.tabled.sound hq hdot hv
  have hgains := hadvances.gains
  have hfiles := hv.grows h.wellFormed fun _ _ => hq
  have hmarked := markExplored_grows hfiles.wellFormed q
  have hg := hfiles.trans hmarked
  have hnames := h.names_after hex hg hq hgains hadvances.names
  have hall := once_of_names honce hnames
  have htabled := hgains.course.tabled h.tabled hall
  have hmark := lasting_markExplored htabled.sound q
  have hpaths := (hadvances.records named h.tabled hall).mono hmarked htabled.sound hmark
    fun _ _ hm => hm
  refine ⟨new, hg.wellFormed, htabled.adds (adds_markExplored env' q), hg.explored h.builtin,
    fun d hd => ?_, hnames, fun t p' ht hp' => ?_⟩
  · exact (List.mem_append.mp hd).elim (h.foreign d) fun hd => hgains.own d hd ▸ hpkg
  · by_cases htq : t = q
    · subst htq
      exact h.explored_package hq hex hpkg hgains hpaths hp'
    · have hother :=
        Registry.package?_modifyPackage_of_ne (Ne.symm htq) env'.registry (·.markExplored)
      exact h.others hgains hg ((hgains.lasting h.tabled hall hpkg).trans hmark h.tabled.sound) ht
        (logFor_of_ne htq log) (hother.symm.trans hp')

end Packages

end GoPackages
