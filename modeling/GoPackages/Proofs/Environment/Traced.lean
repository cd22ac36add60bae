import GoPackages.Proofs.Environment.Trace

/-!
# What a trace comes to

Packages are explored in the course of a trace only where imports without a qualifier lead to
them, and a package that comes to be explored has had its files parsed from first to last, each
once, all but those that the listener skips.
-/
namespace GoPackages

open Source (ImportSpec SourceFile)

def Stage.current? : Stage → Option PackageId
  | .files q _ | .file q _ | .reading q _ => some q
  | .package _ | .body _ => none

namespace Environment

def ItemsLead (world : Environment) (items : List Item) (q : PackageId) : Prop :=
  ∃ spec, .importSpec spec ∈ items ∧ spec.name = some .dot ∧
    ∃ info, world.locate (Source.literalValue spec.path) = .ok info ∧
      world.registry.byPath? info.importPath = some q

def PathLeads (world : Environment) (path : String) (q : PackageId) : Prop :=
  ∃ file, world.parser path = .ok file ∧ world.ItemsLead (items file) q

/-- The packages that are entered next in the course of a stage. -/
def Leads (world : Environment) : Stage → PackageId → Prop
  | .package p, q => q = p
  | .files _ paths, q => ∃ path ∈ paths, world.PathLeads path q
  | .file _ path, q | .reading _ path, q => world.PathLeads path q
  | .body items, q => world.ItemsLead items q

def Enters (world : Environment) (a b : PackageId) : Prop :=
  ∃ path ∈ world.files a, world.PathLeads path b

/-- A chain of packages that were not explored before leads to a package. -/
def Reaches (world : Environment) (seen : Set PackageId) (stage : Stage) (q : PackageId) : Prop :=
  ∃ a, world.Leads stage a ∧ Relation.ReflTransGen (fun a b => a ∉ seen ∧ world.Enters a b) a q

variable {world : Environment} {stage : Stage} {heard : List FileEvent}
  {seen seen₁ seen' : Set PackageId} {events : List Event} {outcome : Except Error Unit}
  {q : PackageId}

theorem Reaches.of_leads {stage' : Stage} (h : world.Reaches seen stage q)
    (hl : ∀ a, world.Leads stage a → world.Leads stage' a) : world.Reaches seen stage' q := by
  obtain ⟨a, ha, hchain⟩ := h
  exact ⟨a, hl a ha, hchain⟩

theorem Reaches.of_subset (h : world.Reaches seen₁ stage q) (hseen : seen ⊆ seen₁) :
    world.Reaches seen stage q := by
  obtain ⟨a, ha, hchain⟩ := h
  refine ⟨a, ha, Relation.ReflTransGen.mono (fun _ _ hstep => ?_) _ _ hchain⟩
  exact ⟨fun hm => hstep.1 (hseen hm), hstep.2⟩

theorem Reaches.package {p : PackageId} (h : world.Reaches seen (.files p (world.files p)) q)
    (hp : p ∉ seen) : world.Reaches seen (.package p) q := by
  obtain ⟨a, ha, hchain⟩ := h
  exact ⟨p, rfl, .head ⟨hp, ha⟩ hchain⟩

theorem Reaches.firstFile {p : PackageId} {path : String} {rest : List String}
    (h : world.Reaches seen (.file p path) q) : world.Reaches seen (.files p (path :: rest)) q :=
  h.of_leads fun _ ha => ⟨path, List.mem_cons_self, ha⟩

theorem Reaches.laterFile {p : PackageId} {path : String} {rest : List String}
    (h : world.Reaches seen (.files p rest) q) : world.Reaches seen (.files p (path :: rest)) q :=
  h.of_leads fun _ ⟨other, hm, ha⟩ => ⟨other, List.mem_cons_of_mem path hm, ha⟩

theorem Reaches.file {p : PackageId} {path : String}
    (h : world.Reaches seen (.reading p path) q) : world.Reaches seen (.file p path) q :=
  h.of_leads fun _ ha => ha

theorem Reaches.reading {p : PackageId} {path : String} {file : SourceFile}
    (h : world.Reaches seen (.body (items file)) q) (hparse : world.parser path = .ok file) :
    world.Reaches seen (.reading p path) q :=
  h.of_leads fun _ ha => ⟨file, hparse, ha⟩

theorem Reaches.laterItem {item : Item} {rest : List Item}
    (h : world.Reaches seen (.body rest) q) : world.Reaches seen (.body (item :: rest)) q :=
  h.of_leads fun _ ⟨spec, hm, ha⟩ => ⟨spec, List.mem_cons_of_mem item hm, ha⟩

theorem Reaches.imported {p : PackageId} {spec : ImportSpec} {rest : List Item}
    {info : PackageInfo} (h : world.Reaches seen (.package p) q) (hdot : spec.name = some .dot)
    (hl : world.locate (Source.literalValue spec.path) = .ok info)
    (hp : world.registry.byPath? info.importPath = some p) :
    world.Reaches seen (.body (.importSpec spec :: rest)) q := by
  refine h.of_leads fun a ha => ?_
  obtain rfl : a = p := ha
  exact ⟨spec, List.mem_cons_self, hdot, info, hl, hp⟩

/-- Explored packages stay so, and the others are those that the trace leads to. -/
theorem Trace.reached (h : world.Trace stage heard seen events outcome seen') :
    seen ⊆ seen' ∧ ∀ q ∈ seen', q ∈ seen ∨ world.Reaches seen stage q := by
  induction h with
  | known | noFiles | skipped | aborted | unreadable | noItems | broken | unlocated =>
    exact ⟨subset_rfl, fun _ hq => .inl hq⟩
  | @explored p heard seen seen' events hp _ _ ih =>
    refine ⟨ih.1.trans (Set.subset_insert p seen'), fun q hq => ?_⟩
    rcases hq with rfl | hq
    · exact .inr ⟨q, rfl, .refl⟩
    · exact (ih.2 q hq).imp_right fun h => h.package hp
  | unexplored hp _ _ ih => exact ⟨ih.1, fun q hq => (ih.2 q hq).imp_right fun h => h.package hp⟩
  | nextFile _ _ ih ih' =>
    refine ⟨ih.1.trans ih'.1, fun q hq => ?_⟩
    rcases ih'.2 q hq with hq | hq
    · exact (ih.2 q hq).imp_right .firstFile
    · exact .inr (hq.of_subset ih.1).laterFile
  | lastFile _ ih => exact ⟨ih.1, fun q hq => (ih.2 q hq).imp_right .firstFile⟩
  | concluded _ _ _ _ _ _ ih | overruled _ _ _ _ _ _ ih | unwatched _ _ ih =>
    exact ⟨ih.1, fun q hq => (ih.2 q hq).imp_right .file⟩
  | read hparse _ ih => exact ⟨ih.1, fun q hq => (ih.2 q hq).imp_right (·.reading hparse)⟩
  | declared _ _ ih | qualified _ _ _ ih =>
    exact ⟨ih.1, fun q hq => (ih.2 q hq).imp_right .laterItem⟩
  | entered hdot hl hp _ _ ih ih' =>
    refine ⟨ih.1.trans ih'.1, fun t ht => ?_⟩
    rcases ih'.2 t ht with ht | ht
    · exact (ih.2 t ht).imp_right (·.imported hdot hl hp)
    · exact .inr (ht.of_subset ih.1).laterItem
  | blocked hdot hl hp _ ih =>
    exact ⟨ih.1, fun t ht => (ih.2 t ht).imp_right (·.imported hdot hl hp)⟩

/-- Only files of packages that are not explored are parsed: those of the package that is under
way, and those of the packages that the trace leads to. -/
theorem Trace.parsed (h : world.Trace stage heard seen events outcome seen') :
    ∀ {q path}, path ∈ parsedIn q events →
      stage.current? = some q ∨ q ∉ seen ∧ world.Reaches seen stage q := by
  induction h with
  | known | noFiles | skipped | aborted | noItems | broken | unlocated =>
    intro q path hm
    cases hm
  | @explored p _ _ _ _ hp _ _ ih | @unexplored p _ _ _ _ _ hp _ _ ih =>
    intro q path hm
    rcases ih hm with hcurrent | ⟨hq, hreach⟩
    · obtain rfl : p = q := Option.some.inj hcurrent
      exact .inr ⟨hp, p, rfl, .refl⟩
    · exact .inr ⟨hq, hreach.package hp⟩
  | nextFile hfile _ ih ih' =>
    intro q path hm
    rw [parsedIn_append, List.mem_append] at hm
    rcases hm with hm | hm
    · exact (ih hm).imp_right fun ⟨hq, hreach⟩ => ⟨hq, hreach.firstFile⟩
    · refine (ih' hm).imp_right fun ⟨hq, hreach⟩ => ⟨fun h => hq (hfile.reached.1 h), ?_⟩
      exact (hreach.of_subset hfile.reached.1).laterFile
  | lastFile _ ih =>
    exact fun hm => (ih hm).imp_right fun ⟨hq, hreach⟩ => ⟨hq, hreach.firstFile⟩
  | concluded _ _ _ _ _ _ ih | overruled _ _ _ _ _ _ ih =>
    intro q path hm
    rw [parsedIn_file, parsedIn_append, parsedIn_file, parsedIn_nil, List.append_nil] at hm
    exact (ih hm).imp_right fun ⟨hq, hreach⟩ => ⟨hq, hreach.file⟩
  | unwatched _ _ ih =>
    exact fun hm => (ih hm).imp_right fun ⟨hq, hreach⟩ => ⟨hq, hreach.file⟩
  | @unreadable c path _ _ _ _ =>
    intro q path' hm
    by_cases hc : c = q
    · exact .inl (congrArg some hc)
    · rw [parsedIn_parse_of_ne hc] at hm
      cases hm
  | @read c path _ _ _ _ _ _ hparse _ ih =>
    intro q path' hm
    by_cases hc : c = q
    · exact .inl (congrArg some hc)
    · rw [parsedIn_parse_of_ne hc] at hm
      exact (ih hm).imp nofun fun ⟨hq, hreach⟩ => ⟨hq, hreach.reading hparse⟩
  | declared _ _ ih | qualified _ _ _ ih =>
    exact fun hm => (ih hm).imp_right fun ⟨hq, hreach⟩ => ⟨hq, hreach.laterItem⟩
  | entered hdot hl hp hnested _ ih ih' =>
    intro q path hm
    rw [parsedIn_locate, parsedIn_append, List.mem_append] at hm
    rcases hm with hm | hm
    · exact (ih hm).imp nofun fun ⟨hq, hreach⟩ => ⟨hq, hreach.imported hdot hl hp⟩
    · refine (ih' hm).imp_right fun ⟨hq, hreach⟩ => ⟨fun h => hq (hnested.reached.1 h), ?_⟩
      exact (hreach.of_subset hnested.reached.1).laterItem
  | blocked hdot hl hp _ ih =>
    exact fun hm => (ih hm).imp nofun fun ⟨hq, hreach⟩ => ⟨hq, hreach.imported hdot hl hp⟩

/-- Some of the paths in order, all but those that the listener skips. -/
inductive Taken (world : Environment) : List String → List String → Prop where
  | nil : Taken world [] []
  | taken {path paths taken} : Taken world paths taken →
      Taken world (path :: paths) (path :: taken)
  | skipped {path paths taken listener heard p} : world.listener = some listener →
      listener.before heard p path = .skip → Taken world paths taken →
      Taken world (path :: paths) taken

theorem Taken.append {paths paths' taken taken' : List String} (h : world.Taken paths taken)
    (h' : world.Taken paths' taken') : world.Taken (paths ++ paths') (taken ++ taken') := by
  induction h with
  | nil => exact h'
  | taken _ ih => exact .taken ih
  | skipped hl hskip _ ih => exact .skipped hl hskip ih

theorem Taken.eq_of_no_skip {paths taken : List String} (h : world.Taken paths taken)
    (hno : ∀ listener, world.listener = some listener → ∀ heard p path,
      listener.before heard p path ≠ .skip) : taken = paths := by
  induction h with
  | nil => rfl
  | taken _ ih => rw [ih]
  | skipped hl hskip => exact absurd hskip (hno _ hl _ _ _)

/-- What a stage that succeeds parses of the package whose files are under way. -/
def ParsesCurrent (world : Environment) (events : List Event) : Stage → Prop
  | .files q paths => paths ⊆ world.files q → world.Taken paths (parsedIn q events)
  | .file q path => path ∈ world.files q → world.Taken [path] (parsedIn q events)
  | .reading q path => path ∈ world.files q → parsedIn q events = [path]
  | .package _ | .body _ => True

/-- A package that comes to be explored had its files parsed in order, and nothing is parsed of
one that success leaves unexplored. -/
structure Completes (world : Environment) (q : PackageId) (seen seen' : Set PackageId)
    (events : List Event) (outcome : Except Error Unit) : Prop where
  taken : q ∉ seen → q ∈ seen' → world.Taken (world.files q) (parsedIn q events)
  nothing : outcome = .ok () → q ∉ seen' → parsedIn q events = []

theorem Completes.of_same (hnone : parsedIn q events = []) :
    world.Completes q seen seen events outcome :=
  ⟨fun hold hnew => absurd hnew hold, fun _ _ => hnone⟩

theorem Completes.trans {events' : List Event} (h : world.Completes q seen seen₁ events (.ok ()))
    (h' : world.Completes q seen₁ seen' events' outcome) (hseen : seen₁ ⊆ seen')
    (hknown : q ∈ seen₁ → parsedIn q events' = []) :
    world.Completes q seen seen' (events ++ events') outcome := by
  refine ⟨fun hold hnew => ?_, fun hok hnew => ?_⟩
  · rw [parsedIn_append]
    by_cases hmid : q ∈ seen₁
    · rw [hknown hmid, List.append_nil]
      exact h.taken hold hmid
    · rw [h.nothing rfl hmid]
      exact h'.taken hmid hnew
  · rw [parsedIn_append, h.nothing rfl fun hm => hnew (hseen hm), h'.nothing hok hnew,
      List.append_nil]

theorem Completes.of_parsedIn {events' : List Event} {outcome' : Except Error Unit}
    (h : world.Completes q seen seen' events outcome)
    (hevents : parsedIn q events' = parsedIn q events)
    (hout : outcome' = .ok () → outcome = .ok ()) :
    world.Completes q seen seen' events' outcome' :=
  ⟨fun hold hnew => hevents ▸ h.taken hold hnew,
    fun hok hnew => hevents.trans (h.nothing (hout hok) hnew)⟩

theorem Trace.parsedIn_known (h : world.Trace stage heard seen events outcome seen')
    (hcurrent : stage.current? ≠ some q) (hq : q ∈ seen) : parsedIn q events = [] :=
  List.eq_nil_iff_forall_not_mem.mpr fun _ hm =>
    (h.parsed hm).elim hcurrent fun hnew => hnew.1 hq

section Acyclic

variable (hacyclic : ∀ a, ¬Relation.TransGen world.Enters a a)
include hacyclic

theorem Trace.parsedIn_body {path : String} {file : SourceFile}
    (h : world.Trace (.body (items file)) heard seen events outcome seen')
    (hparse : world.parser path = .ok file) (hpath : path ∈ world.files q) :
    parsedIn q events = [] := by
  rw [List.eq_nil_iff_forall_not_mem]
  intro other hm
  rcases h.parsed hm with hcurrent | ⟨-, a, ha, hchain⟩
  · cases hcurrent
  · have hback : Relation.ReflTransGen world.Enters a q :=
      Relation.ReflTransGen.mono (fun _ _ hstep => hstep.2) _ _ hchain
    exact hacyclic q (Relation.TransGen.head' ⟨path, hpath, file, hparse, ha⟩ hback)

theorem Trace.parsesCurrent (h : world.Trace stage heard seen events outcome seen') :
    outcome = .ok () → world.ParsesCurrent events stage := by
  induction h with
  | known | explored | unexplored | noItems | declared | broken | unlocated | qualified
  | entered | blocked => exact fun _ => trivial
  | noFiles => exact fun _ _ => .nil
  | nextFile _ _ ih ih' =>
    intro hok hsub
    rw [parsedIn_append]
    exact (ih rfl (hsub List.mem_cons_self)).append
      (ih' hok fun _ hm => hsub (List.mem_cons_of_mem _ hm))
  | skipped hl _ hskip => exact fun _ _ => .skipped hl hskip .nil
  | concluded _ _ _ _ _ _ ih =>
    intro hok hpath
    rw [parsedIn_file, parsedIn_append, ih hok hpath]
    exact .taken .nil
  | unwatched _ _ ih =>
    intro hok hpath
    rw [ih hok hpath]
    exact .taken .nil
  | read hparse hbody _ =>
    intro _ hpath
    rw [parsedIn_parse_self, hbody.parsedIn_body hacyclic hparse hpath]
  | lastFile | aborted | overruled | unreadable => exact nofun

theorem Trace.completes (h : world.Trace stage heard seen events outcome seen') :
    ∀ {q}, stage.current? ≠ some q → world.Completes q seen seen' events outcome := by
  induction h with
  | known | noFiles | skipped | aborted | noItems | broken | unlocated =>
    exact fun _ => .of_same rfl
  | @explored p heard seen seen' events hp _ hfiles ih =>
    intro q _
    by_cases hq : p = q
    · subst hq
      exact ⟨fun _ _ => hfiles.parsesCurrent hacyclic rfl (List.Subset.refl _),
        fun _ hnew => absurd (Set.mem_insert p seen') hnew⟩
    · have hother := ih (q := q) fun h => hq (Option.some.inj h)
      refine ⟨fun hold hnew => hother.taken hold (hnew.resolve_left (Ne.symm hq)),
        fun hok hnew => hother.nothing hok fun hm => hnew (Set.mem_insert_of_mem p hm)⟩
  | @unexplored p heard seen seen' events e hp _ hfiles ih =>
    intro q _
    refine ⟨fun hold hnew => ?_, nofun⟩
    by_cases hq : p = q
    · subst hq
      -- only a cycle would lead back to a package that is under way
      rcases hfiles.reached.2 p hnew with hm | ⟨a, ha, hchain⟩
      · exact absurd hm hold
      · have hback : Relation.ReflTransGen world.Enters a p :=
          Relation.ReflTransGen.mono (fun _ _ hstep => hstep.2) _ _ hchain
        exact absurd (Relation.TransGen.head' ha hback) (hacyclic p)
    · exact (ih (q := q) fun h => hq (Option.some.inj h)).taken hold hnew
  | nextFile _ hrest ih ih' =>
    exact fun hcurrent =>
      (ih hcurrent).trans (ih' hcurrent) hrest.reached.1 (hrest.parsedIn_known hcurrent)
  | lastFile _ ih => exact fun hcurrent => ih hcurrent
  | concluded _ _ _ _ _ _ ih =>
    exact fun hcurrent => (ih hcurrent).of_parsedIn (by simp) id
  | overruled _ _ _ _ _ _ ih =>
    exact fun hcurrent => (ih hcurrent).of_parsedIn (by simp) nofun
  | unwatched _ _ ih => exact fun hcurrent => ih hcurrent
  | @unreadable p path heard seen e _ =>
    intro q hcurrent
    have hne : p ≠ q := fun h => hcurrent (congrArg some h)
    exact .of_same (by rw [parsedIn_parse_of_ne hne]; rfl)
  | @read p path _ _ _ _ _ _ _ _ ih =>
    intro q hcurrent
    have hne : p ≠ q := fun h => hcurrent (congrArg some h)
    exact (ih nofun).of_parsedIn (parsedIn_parse_of_ne hne path _) id
  | declared _ _ ih => exact fun _ => ih nofun
  | qualified _ _ _ ih =>
    intro q _
    exact (ih nofun).of_parsedIn (parsedIn_locate q _ _ _) id
  | entered _ _ _ _ hrest ih ih' =>
    intro q _
    exact ((ih nofun).trans (ih' nofun) hrest.reached.1
      (hrest.parsedIn_known nofun)).of_parsedIn (parsedIn_locate _ _ _ _) id
  | blocked _ _ _ _ ih =>
    intro q _
    exact (ih nofun).of_parsedIn (parsedIn_locate q _ _ _) nofun

end Acyclic

end Environment

end GoPackages
