import GoPackages.Proofs.Environment.Loops

/-!
# Every file is read once

Packages that are in progress lead to the package that is entered next, so they stay in
progress until that one is done. What a visit explores, it explores from beginning to end: the
files of the package are read in order, all but those that the listener skips.
-/
namespace GoPackages

open Source (ImportSpec SourceFile)
open Environment (Grows Quiet)

namespace Environment

/-- The files of a package that are read on the way, all of them or none. -/
def Handled (rule : String → FileAction) (env env' : Environment) (q : PackageId) : Prop :=
  env'.parsed q = env.parsed q ++
    if env.explored q = false ∧ env'.explored q = true then
      (env'.files q).filter (rule · = .proceed)
    else []

section Handled

variable {rule : String → FileAction} {env mid env' : Environment} {q : PackageId}

theorem Handled.of_same (hex : env'.explored q = env.explored q)
    (hp : env'.parsed q = env.parsed q) : env.Handled rule env' q := by
  unfold Handled
  rw [hp, hex, if_neg (by rintro ⟨h, h'⟩; exact absurd (h.symm.trans h') nofun)]
  exact (List.append_nil _).symm

theorem Handled.of_quiet (hq : Quiet env env') : env.Handled rule env' q :=
  .of_same (hq.explored q) (hq.parsed q)

theorem Handled.unread (h : env.Handled rule env' q) (hex : env'.explored q = false) :
    env'.parsed q = env.parsed q := by
  unfold Handled at h
  rw [h, if_neg (by rintro ⟨-, h'⟩; exact absurd (hex.symm.trans h') nofun)]
  exact List.append_nil _

theorem Handled.trans (h : env.Handled rule mid q) (hg : Grows env mid)
    (h' : mid.Handled rule env' q) (hg' : Grows mid env') : env.Handled rule env' q := by
  unfold Handled at h h' ⊢
  rw [h', h, List.append_assoc]
  congr 1
  cases hmid : mid.explored q with
  | false =>
    have hold := hg.unexplored hmid
    simp [hold]
  | true =>
    have hnew := hg'.explored hmid
    have hfiles := hg'.files_eq (registered_of_explored hmid)
    simp [hnew, hfiles]

end Handled

end Environment

/-- What a task reads of every package: a package is read as a whole, the package that is
under way as far as the task goes. -/
def Task.Handled (rule : String → FileAction) (env env' : Environment) : Task → Prop
  | .package _ | .body _ _ => ∀ q, env.Handled rule env' q
  | .files pkg paths => (∀ q, q ≠ pkg → env.Handled rule env' q) ∧
      env'.parsed pkg = env.parsed pkg ++ paths.filter (rule · = .proceed)

/-- The package that is under way is one of those in progress; the others lead to these. -/
structure Current (rule : String → FileAction) (env : Environment) (S : Set PackageId)
    (q : PackageId) : Prop where
  mem : q ∈ S
  unexplored : env.explored q = false
  others : Waits rule env (S \ {q}) S

/-- The packages `S` are in progress when the task comes up. -/
def Task.Within (rule : String → FileAction) (env : Environment) (S : Set PackageId) :
    Task → Prop
  | .package q => Waits rule env S (insert q S)
  | .files q paths => Current rule env S q ∧ paths ⊆ env.files q
  | .body scope rest => Current rule env S scope.package ∧
      ∃ path ∈ env.files scope.package, rule path = .proceed ∧ ∃ file,
        env.parser path = .ok file ∧ rest ⊆ items file

/-- At every import without a qualifier the imported package is explored when the importing file
goes on, and as much is read of it as ever will be. -/
def EntriesHandled (rule : String → FileAction) (S : Set PackageId) (env : Environment)
    (entries : List Entry) : Prop :=
  ∀ start : Environment, Grows start env → (∀ q, q ∉ S → start.Handled rule env q) →
    ∀ e ∈ entries, e.after.explored e.imported = true ∧ start.Handled rule e.after e.imported

structure Completes (rule : String → FileAction) (S : Set PackageId) (task : Task)
    (env env' : Environment) (entries : List Entry) : Prop where
  unexplored : ∀ s ∈ S, env'.explored s = false
  handled : task.Handled rule env env'
  entries : EntriesHandled rule S env entries

section Completion

variable {rule : String → FileAction} {env env' : Environment} {S : Set PackageId}
  {q : PackageId}

theorem Current.all_unexplored (h : Current rule env S q) {s : PackageId} (hs : s ∈ S) :
    env.explored s = false := by
  by_cases hq : s = q
  · exact hq ▸ h.unexplored
  · exact (h.others s ⟨hs, hq⟩).1

theorem Current.later (h : Current rule env S q) (hg : Grows env env')
    (hex : ∀ s ∈ S, env'.explored s = false) : Current rule env' S q :=
  ⟨h.mem, hex q h.mem, h.others.later hg fun s hs => hex s hs.1⟩

theorem Current.quiet (h : Current rule env S q) (hq : Quiet env env') : Current rule env' S q :=
  h.later hq.grows fun s hs => (hq.explored s).trans (h.all_unexplored hs)

theorem Current.waits (h : Current rule env S q) {t : PackageId}
    (hq : (Task.files q (env.files q)).LeadsInto rule env {t}) : Waits rule env S (insert t S) := by
  intro s hs
  by_cases heq : s = q
  · subst heq
    exact ⟨h.unexplored, hq.mono (Set.singleton_subset_iff.mpr (Set.mem_insert t S))⟩
  · exact h.others.mono (Set.Subset.refl _) (Set.subset_insert t S) s ⟨hs, heq⟩

theorem Waits.current (h : Waits rule env S (insert q S)) (hex : env.explored q = false) :
    Current rule env (insert q S) q where
  mem := Set.mem_insert q S
  unexplored := hex
  others := h.mono (by rintro s ⟨rfl | hs, hne⟩; exact absurd rfl hne; exact hs) (Set.Subset.refl _)

theorem Visit.explored {entries : List Entry} (h : Visit (.package q) env entries env')
    (hr : env.registry.WellFormed) (hq : env.registry.Registered q) : env'.explored q = true := by
  cases h with
  | known hex => exact hex
  | @package _ mid _ _ _ hfiles =>
    have hgrows := hfiles.grows hr fun _ _ => hq
    exact explored_markExplored_self (hgrows.retains.packages q hq)

section Within

variable {path : String} {rest : List String} {scope scope' : FileScope} {decls rest' : List Item}

theorem Task.Within.files_rest (h : (Task.files q (path :: rest)).Within rule env S)
    (hp : env.registry.Registered q) (hg : Grows env env')
    (hex : ∀ s ∈ S, env'.explored s = false) : (Task.files q rest).Within rule env' S := by
  refine ⟨h.1.later hg hex, ?_⟩
  rw [hg.files_eq hp]
  exact fun _ hm => h.2 (List.mem_cons_of_mem path hm)

theorem Task.Within.body_rest (h : (Task.body scope decls).Within rule env S)
    (hrest : rest' ⊆ decls) (hpackage : scope'.package = scope.package) (hg : Grows env env')
    (hex : ∀ s ∈ S, env'.explored s = false) : (Task.body scope' rest').Within rule env' S := by
  obtain ⟨hcurrent, path, hpath, hproceed, file, hparse, hsub⟩ := h
  have hp := Environment.registered_of_mem_files hpath
  rw [Task.Within, hpackage, hg.files_eq hp, hg.parser]
  exact ⟨hcurrent.later hg hex, path, hpath, hproceed, file, hparse, fun _ hm => hsub (hrest hm)⟩

theorem Task.Within.opened (h : (Task.files q (path :: rest)).Within rule env S) {file : SourceFile}
    (hproceed : rule path = .proceed) (hopen : Opening env q path file env')
    (hscope : scope.package = q) : (Task.body scope (items file)).Within rule env' S := by
  have hpath : path ∈ env.files q := h.2 List.mem_cons_self
  have hex : ∀ s ∈ S, env'.explored s = false := fun s hs =>
    (hopen.explored s).trans (h.1.all_unexplored hs)
  rw [Task.Within, hscope, hopen.grows.parser]
  exact ⟨h.1.later hopen.grows hex, path,
    (hopen.grows.files_eq (Environment.registered_of_mem_files hpath)).symm ▸ hpath, hproceed, file,
    hopen.read, List.Subset.refl _⟩

theorem Task.Within.imports {spec : ImportSpec} {t : PackageId}
    (h : (Task.body scope (.importSpec spec :: rest')).Within rule env S)
    (hdot : spec.name = some .dot) (hfound : Located env (Source.literalValue spec.path) t env') :
    Waits rule env' S (insert t S) := by
  obtain ⟨hcurrent, path, hpath, hproceed, file, hparse, hsub⟩ := h
  have hp := Environment.registered_of_mem_files hpath
  refine (hcurrent.quiet hfound.quiet).waits ⟨path, ?_, hproceed, file,
    hfound.quiet.grows.parser ▸ hparse, spec, hsub List.mem_cons_self, hdot, ?_⟩
  · exact (hfound.quiet.grows.files_eq hp).symm ▸ hpath
  · obtain ⟨info, hinfo, hbyPath⟩ := hfound.found
    exact ⟨info, t, hfound.quiet.grows.setup.locate ▸ hinfo, hbyPath, rfl⟩

end Within

section Sequence

variable {mid : Environment} {entries inner : List Entry}

theorem entriesHandled_nil : EntriesHandled rule S env [] := fun _ _ _ _ he => (by cases he)

theorem EntriesHandled.append (h : EntriesHandled rule S env inner)
    (h' : EntriesHandled rule S env entries) : EntriesHandled rule S env (inner ++ entries) := by
  intro start hg hall e he
  rcases List.mem_append.mp he with he | he
  · exact h start hg hall e he
  · exact h' start hg hall e he

theorem EntriesHandled.later (h : EntriesHandled rule S mid entries) (hg : Grows env mid)
    (hstep : ∀ t, t ∉ S → env.Handled rule mid t) : EntriesHandled rule S env entries := by
  intro start hs hall
  exact h start (hs.trans hg) fun t ht => (hall t ht).trans hs (hstep t ht) hg

theorem Completes.body_step {scope scope' : FileScope} {items rest : List Item}
    (hinner : EntriesHandled rule S env inner) (hg : Grows env mid)
    (hstep : ∀ t, env.Handled rule mid t) (hg' : Grows mid env')
    (h : Completes rule S (.body scope' rest) mid env' entries) :
    Completes rule S (.body scope items) env env' (inner ++ entries) where
  unexplored := h.unexplored
  handled t := (hstep t).trans hg (h.handled t) hg'
  entries := hinner.append (h.entries.later hg fun t _ => hstep t)

theorem Completes.files_step {path : String} {rest : List String} (hq : q ∈ S)
    (hinner : EntriesHandled rule S env inner) (hg : Grows env mid)
    (hothers : ∀ t, t ≠ q → env.Handled rule mid t)
    (hread : mid.parsed q = env.parsed q ++ [path].filter (rule · = .proceed))
    (hg' : Grows mid env') (h : Completes rule S (.files q rest) mid env' entries) :
    Completes rule S (.files q (path :: rest)) env env' (inner ++ entries) where
  unexplored := h.unexplored
  handled := by
    refine ⟨fun t ht => (hothers t ht).trans hg (h.handled.1 t ht) hg', ?_⟩
    rw [h.handled.2, hread, List.append_assoc, ← List.filter_append, List.singleton_append]
  entries := by
    refine hinner.append (h.entries.later hg fun t ht => hothers t ?_)
    rintro rfl
    exact ht hq

theorem Completes.file {path : String} {rest : List String} {file : SourceFile}
    {scope : FileScope} {start stop : Environment} (hq : q ∈ S) (hproceed : rule path = .proceed)
    (hstages : FileStages env q path file scope start stop mid)
    (hitems : Completes rule S (.body scope (items file)) start stop inner)
    (hg : Grows mid env') (h : Completes rule S (.files q rest) mid env' entries) :
    Completes rule S (.files q (path :: rest)) env env' (inner ++ entries) := by
  have hopen := hstages.opening
  have htold := hstages.told
  have hopened : ∀ t, t ≠ q → env.Handled rule start t := fun t ht =>
    .of_same (hopen.explored t) (by rw [hopen.parsed, if_neg (Ne.symm ht), List.append_nil])
  have hentered : EntriesHandled rule S env inner := by
    refine hitems.entries.later hopen.grows fun t ht => hopened t ?_
    rintro rfl
    exact ht hq
  have hothers : ∀ t, t ≠ q → env.Handled rule mid t := fun t ht =>
    ((hopened t ht).trans hopen.grows (hitems.handled t) hstages.items).trans
      (hopen.grows.trans hstages.items) (.of_quiet htold) htold.grows
  refine .files_step hq hentered hstages.grows hothers ?_ hg h
  rw [htold.parsed q, (hitems.handled q).unread (hitems.unexplored q hq), hopen.parsed q,
    if_pos rfl]
  simp [hproceed]

/-- An import without a qualifier: the imported package is found and entered, so it is not one of
those in progress, and all of it is read. -/
theorem Completes.dotImport {scope scope' : FileScope} {items rest : List Item} {path : String}
    {found : Environment} (hfound : Located env path q found)
    (hpackage : Completes rule S (.package q) found mid inner) (hex : mid.explored q = true)
    (hentered : Grows found mid) (hg : Grows mid env')
    (h : Completes rule S (.body scope' rest) mid env' entries) :
    Completes rule S (.body scope items) env env' (inner ++ ⟨q, mid⟩ :: entries) := by
  have hgrows := hfound.quiet.grows.trans hentered
  have hstep : ∀ t, env.Handled rule mid t := fun t =>
    Environment.Handled.trans (.of_quiet hfound.quiet) hfound.quiet.grows (hpackage.handled t)
      hentered
  have hnew : q ∉ S := fun hq => absurd (hex.symm.trans (hpackage.unexplored q hq)) nofun
  have hentry : EntriesHandled rule S env [⟨q, mid⟩] := by
    intro start hstart hall e he
    obtain rfl := List.mem_singleton.mp he
    exact ⟨hex, (hall q hnew).trans hstart (hstep q) hgrows⟩
  have hinner := hpackage.entries.later hfound.quiet.grows fun t _ => .of_quiet hfound.quiet
  rw [List.append_cons]
  exact .body_step (hinner.append hentry) hgrows hstep hg h

end Sequence

/-- A package whose files are all read is marked as explored. -/
theorem Completes.marked {entries : List Entry}
    (h : Completes rule (insert q S) (.files q (env.files q)) env env' entries)
    (hex : env.explored q = false) (hq : env.registry.Registered q) (hnew : q ∉ S)
    (hg : Grows env env') :
    Completes rule S (.package q) env (env'.markExplored q) entries := by
  have hmark := markExplored_grows hg.wellFormed q
  refine ⟨fun s hs => ?_, fun t => ?_, fun start hs hall => ?_⟩
  · rw [explored_markExplored_of_ne (by rintro rfl; exact hnew hs)]
    exact h.unexplored s (Set.mem_insert_of_mem q hs)
  · by_cases ht : t = q
    · subst ht
      have hfinal := explored_markExplored_self (hg.retains.packages t hq)
      unfold Environment.Handled
      rw [if_pos ⟨hex, hfinal⟩, (hg.trans hmark).files_eq hq]
      exact h.handled.2
    · have hsame : (env'.markExplored q).explored t = env'.explored t :=
        explored_markExplored_of_ne (Ne.symm ht)
      exact (h.handled.1 t ht).trans hg (.of_same hsame rfl) hmark
  · exact h.entries start hs fun t ht => hall t fun hS => ht (Set.mem_insert_of_mem q hS)

/-- By induction on the visit: where a package is entered, all that is in progress leads to it, so
by `Visit.avoids` it is not one of those. -/
theorem Visit.completes {task : Task} {entries : List Entry} (h : Visit task env entries env') :
    env.registry.WellFormed → task.Sound env → env.Decides rule → ∀ {S : Set PackageId},
      task.Within rule env S → Completes rule S task env env' entries := by
  induction h with
  | known hex =>
    intro _ _ _ S hw
    exact ⟨fun s hs => (hw s hs).1, fun q => .of_same rfl rfl, entriesHandled_nil⟩
  | @package env env' q entries hex hfiles ih =>
    intro hr hs hd S hw
    have hnew : q ∉ S := by
      intro hq
      rw [Task.Within, Set.insert_eq_of_mem hq] at hw
      exact ((Visit.package hex hfiles).avoids hr hs hd hw).1 hq
    have hdone := ih hr (fun _ _ => hs) hd (S := insert q S) ⟨hw.current hex, List.Subset.refl _⟩
    exact hdone.marked hex hs hnew (hfiles.grows hr fun _ _ => hs)
  | noFiles =>
    intro _ _ _ S hw
    refine ⟨fun s hs => hw.1.all_unexplored hs, ⟨fun q _ => .of_same rfl rfl, ?_⟩,
      entriesHandled_nil⟩
    exact (List.append_nil _).symm
  | @skip env env₁ env' q path rest entries hannounce hvisit ih =>
    intro hr hs hd S hw
    obtain ⟨hquiet, haction⟩ := announce_ok hr hannounce
    have hp := hs path List.mem_cons_self
    have hskip : rule path = .skip := (haction rule hd hp).symm
    have hp₁ := hquiet.grows.retains.packages q hp
    have hdone := ih hquiet.grows.wellFormed (fun _ _ => hp₁) (hquiet.grows.decides hd)
      (hw.files_rest hp hquiet.grows fun s hs =>
        (hquiet.explored s).trans (hw.1.all_unexplored hs))
    have hgrows := hvisit.grows hquiet.grows.wellFormed fun _ _ => hp₁
    refine .files_step hw.1.mem entriesHandled_nil hquiet.grows (fun t _ => .of_quiet hquiet) ?_
      hgrows hdone
    rw [hquiet.parsed q]
    simp [hskip]
  | @file env env₁ env₂ env₃ env₄ env' q path rest file builtin _ _ hannounce hparse _ hbody
      hconclude hvisit ihBody ihRest =>
    intro hr hs hd S hw
    have hp := hs path List.mem_cons_self
    have hproceed : rule path = .proceed := ((announce_ok hr hannounce).2 rule hd hp).symm
    have hstages := fileStages hr hp hannounce hparse hbody hconclude
    have hopen := hstages.opening.grows
    have hgrows := hstages.grows
    have hp₄ := hgrows.retains.packages q hp
    have hitems := ihBody hopen.wellFormed hstages.scope (hopen.decides hd)
      (hw.opened hproceed hstages.opening rfl)
    have hdone := ihRest hgrows.wellFormed (fun _ _ => hp₄) (hgrows.decides hd)
      (hw.files_rest hp hgrows fun s hs =>
        (hstages.told.explored s).trans (hitems.unexplored s hs))
    exact .file hw.1.mem hproceed hstages hitems (hvisit.grows hgrows.wellFormed fun _ _ => hp₄)
      hdone
  | noItems =>
    intro _ _ _ S hw
    exact ⟨fun s hs => hw.1.all_unexplored hs, fun q => .of_same rfl rfl, entriesHandled_nil⟩
  | item hdot hitem hvisit ih =>
    intro hr hs hd S hw
    obtain ⟨hquiet, hs', hpackage⟩ := analyzeItem_quiet hr hs hdot hitem
    have hdone := ih hquiet.grows.wellFormed hs' (hquiet.grows.decides hd)
      (hw.body_rest (List.subset_cons_self _ _) hpackage hquiet.grows fun s hs =>
        (hquiet.explored s).trans (hw.1.all_unexplored hs))
    exact .body_step entriesHandled_nil hquiet.grows (fun t => .of_quiet hquiet)
      (hvisit.grows hquiet.grows.wellFormed hs') hdone
  | @dotImport env env₁ env₂ env₃ env' scope spec rest info q _ _ hdot hlocate hensure hpackage
      hvisit ihPackage ihRest =>
    intro hr hs hd S hw
    have hfound := located hr hlocate hensure
    have hwell := hfound.quiet.grows.wellFormed
    have hinner := ihPackage hwell hfound.registered (hfound.quiet.grows.decides hd)
      (hw.imports hdot hfound)
    have hentered := hpackage.grows hwell hfound.registered
    have hgrows := hfound.quiet.grows.trans hentered
    have hscope := (FileScope.Sound.retained hs hgrows.retains).addDotImport q
    have hdone := ihRest hgrows.wellFormed hscope (hgrows.decides hd)
      (hw.body_rest (List.subset_cons_self _ _) (scope.addDotImport_package q) hgrows
        hinner.unexplored)
    exact .dotImport hfound hinner (hpackage.explored hwell hfound.registered) hentered
      (hvisit.grows hgrows.wellFormed hscope) hdone

end Completion

end GoPackages
