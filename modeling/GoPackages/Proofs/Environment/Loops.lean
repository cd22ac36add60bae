import GoPackages.Proofs.Environment.Quiet

/-!
# Imports that lead back

A package that is imported without a qualifier while it is still in progress is entered again,
and so is everything that led to it: the listener, the locator and the parser answer as they
did before. So an analysis that succeeds never enters one of several packages that all lead to
each other.
-/
namespace GoPackages

open Source (ImportSpec SourceFile)
open Environment (Grows Quiet)

namespace Environment

/-- An import without a qualifier that leads to one of the packages. -/
def ImportsInto (env : Environment) (S : Set PackageId) (items : List Item) : Prop :=
  ∃ spec, .importSpec spec ∈ items ∧ spec.name = some .dot ∧ ∃ info q,
    env.locate (Source.literalValue spec.path) = .ok info ∧
      env.registry.byPath? info.importPath = some q ∧ q ∈ S

end Environment

/-- A task in the course of which one of the packages is entered. -/
def Task.LeadsInto (rule : String → FileAction) (env : Environment) (S : Set PackageId) :
    Task → Prop
  | .package q => q ∈ S
  | .files _ paths => ∃ path ∈ paths, rule path = .proceed ∧ ∃ file,
      env.parser path = .ok file ∧ env.ImportsInto S (items file)
  | .body _ items => env.ImportsInto S items

/-- Packages that are not explored, each with a file that leads into `T`. -/
def Waits (rule : String → FileAction) (env : Environment) (S T : Set PackageId) : Prop :=
  ∀ s ∈ S, env.explored s = false ∧ (Task.files s (env.files s)).LeadsInto rule env T

section Leads

variable {rule : String → FileAction} {env env' : Environment} {S T : Set PackageId}

theorem Environment.ImportsInto.later {items : List Item} (h : env.ImportsInto S items)
    (hg : Grows env env') : env'.ImportsInto S items := by
  obtain ⟨spec, hm, hdot, info, q, hl, hq, hS⟩ := h
  exact ⟨spec, hm, hdot, info, q, hg.setup.locate ▸ hl, hg.byPath? hq, hS⟩

theorem Task.LeadsInto.later {task : Task} (h : task.LeadsInto rule env S) (hg : Grows env env') :
    task.LeadsInto rule env' S := by
  cases task with
  | package q => exact h
  | files q paths =>
    obtain ⟨path, hm, hrule, file, hparse, hi⟩ := h
    exact ⟨path, hm, hrule, file, hg.parser ▸ hparse, hi.later hg⟩
  | body scope items => exact Environment.ImportsInto.later h hg

theorem Task.LeadsInto.mono {q : PackageId} {paths : List String}
    (h : (Task.files q paths).LeadsInto rule env S) (hST : S ⊆ T) :
    (Task.files q paths).LeadsInto rule env T := by
  obtain ⟨path, hm, hrule, file, hparse, spec, hspec, hdot, info, t, hl, ht, hS⟩ := h
  exact ⟨path, hm, hrule, file, hparse, spec, hspec, hdot, info, t, hl, ht, hST hS⟩

theorem Environment.importsInto_cons {item : Item} {rest : List Item} :
    env.ImportsInto S (item :: rest) ↔ env.ImportsInto S [item] ∨ env.ImportsInto S rest := by
  simp only [ImportsInto, List.mem_cons, List.not_mem_nil, or_false, or_and_right, exists_or]

theorem Task.leadsInto_files_cons {q : PackageId} {path : String} {rest : List String} :
    (Task.files q (path :: rest)).LeadsInto rule env S ↔
      (rule path = .proceed ∧ ∃ file, env.parser path = .ok file ∧ env.ImportsInto S (items file)) ∨
        (Task.files q rest).LeadsInto rule env S := by
  simp only [LeadsInto, List.mem_cons, or_and_right, exists_or, exists_eq_left]

/-- An import without a qualifier leads into the packages where its own package is one of them. -/
theorem Located.of_importsInto {spec : ImportSpec} {q : PackageId}
    (h : Located env (Source.literalValue spec.path) q env')
    (hi : env.ImportsInto S [.importSpec spec]) : q ∈ S := by
  obtain ⟨spec', hm, -, info, t, hl, ht, hS⟩ := hi
  obtain rfl := Item.importSpec.inj (List.mem_singleton.mp hm)
  obtain ⟨info', hl', hfound⟩ := h.found
  obtain rfl := Except.ok.inj (hl.symm.trans hl')
  obtain rfl := Option.some.inj (hfound.symm.trans (h.quiet.grows.byPath? ht))
  exact hS

theorem Waits.later (h : Waits rule env S T) (hg : Grows env env')
    (hex : ∀ s ∈ S, env'.explored s = false) : Waits rule env' S T := by
  intro s hs
  obtain ⟨-, hleads⟩ := h s hs
  obtain ⟨path, hpath, -⟩ := hleads
  rw [hg.files_eq (Environment.registered_of_mem_files hpath)]
  exact ⟨hex s hs, (h s hs).2.later hg⟩

theorem Waits.quiet (h : Waits rule env S T) (hq : Quiet env env') : Waits rule env' S T :=
  h.later hq.grows fun s hs => (hq.explored s).trans (h s hs).1

theorem Waits.mono (h : Waits rule env S T) {S' T' : Set PackageId} (hS : S' ⊆ S) (hT : T ⊆ T') :
    Waits rule env S' T' :=
  fun s hs => ⟨(h s (hS hs)).1, (h s (hS hs)).2.mono hT⟩

/-- Packages that all lead to each other are not entered: none of them would be done before
another one is. -/
theorem Visit.avoids {task : Task} {entries : List Entry} (h : Visit task env entries env') :
    env.registry.WellFormed → task.Sound env → env.Decides rule → Waits rule env S S →
      ¬task.LeadsInto rule env S ∧ ∀ s ∈ S, env'.explored s = false := by
  induction h with
  | known hex =>
    intro _ _ _ hw
    refine ⟨fun hq => ?_, fun s hs => (hw s hs).1⟩
    exact absurd ((hw _ hq).1.symm.trans hex) nofun
  | @package env env' q _ _ _ ih =>
    intro hr _ hd hw
    obtain ⟨hfiles, hex⟩ := ih hr (fun _ hm => Environment.registered_of_mem_files hm) hd hw
    have hq : q ∉ S := fun hq => hfiles (hw q hq).2
    refine ⟨hq, fun s hs => ?_⟩
    rw [explored_markExplored_of_ne (by rintro rfl; exact hq hs)]
    exact hex s hs
  | noFiles =>
    intro _ _ _ hw
    refine ⟨?_, fun s hs => (hw s hs).1⟩
    rintro ⟨path, hm, -⟩
    cases hm
  | @skip env env₁ env' q path rest _ hannounce _ ih =>
    intro hr hs hd hw
    have hp := hs path List.mem_cons_self
    obtain ⟨hquiet, haction⟩ := announce_ok hr hannounce
    have hskip := haction rule hd hp
    obtain ⟨hrest, hex⟩ := ih hquiet.grows.wellFormed
      (fun _ _ => hquiet.grows.retains.packages q hp) (hquiet.grows.decides hd) (hw.quiet hquiet)
    refine ⟨fun hleads => ?_, hex⟩
    rcases Task.leadsInto_files_cons.mp hleads with ⟨hproceed, -⟩ | hleads
    · exact absurd (hskip.trans hproceed) nofun
    · exact hrest (hleads.later hquiet.grows)
  | @file env env₁ env₂ env₃ env₄ env' q path rest file builtin _ _ hannounce hparse _ hitems
      hconclude _ ihBody ihRest =>
    intro hr hs hd hw
    have hp := hs path List.mem_cons_self
    have hstages := fileStages hr hp hannounce hparse hitems hconclude
    have hopen := hstages.opening
    have hgrows := hstages.grows
    have hwopen := hw.later hopen.grows fun s hs => (hopen.explored s).trans (hw s hs).1
    obtain ⟨hbody, hex⟩ :=
      ihBody hopen.grows.wellFormed hstages.scope (hopen.grows.decides hd) hwopen
    obtain ⟨hrest, hex'⟩ := ihRest hgrows.wellFormed (fun _ _ => hgrows.retains.packages q hp)
      (hgrows.decides hd) (hw.later hgrows fun s hs => (hstages.told.explored s).trans (hex s hs))
    refine ⟨fun hleads => ?_, hex'⟩
    rcases Task.leadsInto_files_cons.mp hleads with ⟨-, file', hparse', hi⟩ | hleads
    · obtain rfl := Except.ok.inj (hopen.read.symm.trans hparse')
      exact hbody (hi.later hopen.grows)
    · exact hrest (hleads.later hgrows)
  | noItems =>
    intro _ _ _ hw
    refine ⟨?_, fun s hs => (hw s hs).1⟩
    rintro ⟨spec, hm, -⟩
    cases hm
  | item hdot hitem _ ih =>
    intro hr hs hd hw
    obtain ⟨hquiet, hs', -⟩ := analyzeItem_quiet hr hs hdot hitem
    obtain ⟨hrest, hex⟩ :=
      ih hquiet.grows.wellFormed hs' (hquiet.grows.decides hd) (hw.quiet hquiet)
    refine ⟨fun hleads => ?_, hex⟩
    rcases Environment.importsInto_cons.mp hleads with ⟨spec, hm, hname, -⟩ | hleads
    · exact hdot spec (List.mem_singleton.mp hm).symm hname
    · exact hrest (hleads.later hquiet.grows)
  | @dotImport env env₁ env₂ env₃ env' scope spec rest info q _ _ hdot hlocate hensure hpackage _
      ihPackage ihRest =>
    intro hr hs hd hw
    have hfound := located hr hlocate hensure
    have hw₂ := hw.quiet hfound.quiet
    obtain ⟨hq, hex⟩ := ihPackage hfound.quiet.grows.wellFormed hfound.registered
      (hfound.quiet.grows.decides hd) hw₂
    have hgrows := hfound.quiet.grows.trans
      (hpackage.grows hfound.quiet.grows.wellFormed hfound.registered)
    obtain ⟨hrest, hex'⟩ := ihRest hgrows.wellFormed
      ((FileScope.Sound.retained hs hgrows.retains).addDotImport q) (hgrows.decides hd)
      (hw.later hgrows hex)
    refine ⟨fun hleads => ?_, hex'⟩
    rcases Environment.importsInto_cons.mp hleads with hleads | hleads
    · exact hq (hfound.of_importsInto hleads)
    · exact hrest (hleads.later hgrows)

end Leads

end GoPackages
