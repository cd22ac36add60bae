import GoPackages.Proofs.Environment.Nesting
import GoPackages.Proofs.Environment.Once

/-!
# Requests for whole packages

Packages are asked for by import path, by directory or by identity. Where all of a sequence of
such requests succeed, every package that was explored in the course of them had its files read
once, and a package imported without a qualifier before the importing file went on.
-/
namespace GoPackages

open Environment (Grows Quiet)

inductive PackageCall where
  | importPackage (depth : Nat) (importPath : String)
  | importDir (depth : Nat) (dir : String)
  | analyzePackage (depth : Nat) (pkg : PackageId)

namespace PackageCall

def run : PackageCall → Session Unit
  | .importPackage depth importPath => discard (GoPackages.importPackage depth importPath)
  | .importDir depth dir => discard (GoPackages.importDir depth dir)
  | .analyzePackage depth pkg => GoPackages.analyzePackage depth pkg

inductive Finds : PackageCall → Environment → PackageId → Environment → Prop where
  | known {depth path q env} : env.registry.byPath? path = some q → env.explored q = true →
      Finds (.importPackage depth path) env q env
  | path {depth path info q env env₁ env₂} : Session.locate path env = .ok info env₁ →
      Session.ensurePackage info env₁ = .ok q env₂ → Finds (.importPackage depth path) env q env₂
  | dir {depth dir info q env env₁ env₂} : Session.locateDir dir env = .ok info env₁ →
      Session.ensurePackage info env₁ = .ok q env₂ → Finds (.importDir depth dir) env q env₂
  | package {depth q env} : Finds (.analyzePackage depth q) env q env

end PackageCall

/-- Requests that all succeed, with all imports without a qualifier in the course of them. -/
inductive Visits : List PackageCall → Environment → List Entry → Environment → Prop where
  | nil {env} : Visits [] env [] env
  | cons {call calls q env env₁ env₂ env' entries entries'} : call.Finds env q env₁ →
      Visit (.package q) env₁ entries env₂ → Visits calls env₂ entries' env' →
      Visits (call :: calls) env (entries ++ entries') env'

section Requests

variable {rule : String → FileAction} {env mid env' : Environment} {q : PackageId}

theorem located_visits {find : Session PackageInfo} {depth : Nat}
    (h : (do
      let pkg ← Session.ensurePackage (← find)
      analyzePackage depth pkg
      return pkg) env = .ok q env') :
    ∃ info env₁ env₂ entries, find env = .ok info env₁ ∧
      Session.ensurePackage info env₁ = .ok q env₂ ∧ Visit (.package q) env₂ entries env' := by
  obtain ⟨info, env₁, hfind, h⟩ := bind_ok h
  obtain ⟨pkg, env₂, hensure, h⟩ := bind_ok h
  obtain ⟨_, env₃, hrun, h⟩ := bind_ok h
  cases h
  obtain ⟨entries, hvisit⟩ := analyzePackage_visits depth q env₂ _ hrun
  exact ⟨info, env₁, env₂, entries, hfind, hensure, hvisit⟩

theorem importPackage_cases (depth : Nat) (path : String) (env : Environment) :
    (∃ q, env.registry.byPath? path = some q ∧ env.explored q = true ∧
      ∀ depth, importPackage depth path env = .ok q env) ∨
    (∀ q, env.registry.byPath? path = some q → env.explored q = false) ∧
      importPackage depth path env = importPackage.locateAndAnalyze depth path env := by
  have hget : (get : Session Environment) env = .ok env env := rfl
  cases hfound : env.registry.byPath? path with
  | none =>
    refine .inr ⟨nofun, ?_⟩
    rw [importPackage, bind_eq_of_ok hget]
    simp only [hfound]
  | some q =>
    cases hex : env.explored q with
    | true =>
      refine .inl ⟨q, rfl, hex, fun depth => ?_⟩
      rw [importPackage, bind_eq_of_ok hget]
      simp only [hfound]
      exact congrFun (if_pos hex) env
    | false =>
      refine .inr ⟨fun t ht => Option.some.inj ht ▸ hex, ?_⟩
      rw [importPackage, bind_eq_of_ok hget]
      simp only [hfound]
      exact congrFun (if_neg (Bool.eq_false_iff.mp hex)) env

theorem PackageCall.run_visits {call : PackageCall} (h : call.run env = .ok () env') :
    ∃ q mid entries, call.Finds env q mid ∧ Visit (.package q) mid entries env' := by
  cases call with
  | importPackage depth path =>
    obtain ⟨q, h⟩ := discard_ok h
    rcases importPackage_cases depth path env with ⟨found, hknown, hex, hrun⟩ | ⟨-, hrun⟩
    · cases (hrun depth).symm.trans h
      exact ⟨q, env, [], .known hknown hex, .known hex⟩
    · obtain ⟨info, env₁, env₂, entries, hlocate, hensure, hvisit⟩ :=
        located_visits (hrun.symm.trans h)
      exact ⟨q, env₂, entries, .path hlocate hensure, hvisit⟩
  | importDir depth dir =>
    obtain ⟨q, h⟩ := discard_ok h
    obtain ⟨info, env₁, env₂, entries, hlocate, hensure, hvisit⟩ := located_visits h
    exact ⟨q, env₂, entries, .dir hlocate hensure, hvisit⟩
  | analyzePackage depth pkg =>
    obtain ⟨entries, hvisit⟩ := analyzePackage_visits depth pkg env env' h
    exact ⟨pkg, env, entries, .package, hvisit⟩

theorem visits_of_ok (calls : List PackageCall) :
    ∀ {env env' : Environment}, calls.forM PackageCall.run env = .ok () env' →
      ∃ entries, Visits calls env entries env' := by
  induction calls with
  | nil =>
    intro env env' h
    cases h
    exact ⟨[], .nil⟩
  | cons call rest ih =>
    intro env env' h
    obtain ⟨_, mid, hcall, h⟩ := bind_ok h
    obtain ⟨q, found, entries, hfinds, hvisit⟩ := PackageCall.run_visits hcall
    obtain ⟨entries', hrest⟩ := ih h
    exact ⟨_, .cons hfinds hvisit hrest⟩

theorem PackageCall.Finds.quiet {call : PackageCall} (h : call.Finds env q mid)
    (hr : env.registry.WellFormed) : Quiet env mid := by
  cases h with
  | known | package => exact .refl hr
  | path hlocate hensure => exact (located hr hlocate hensure).quiet
  | dir hlocate hensure =>
    have h₁ := locateDir_quiet hr hlocate
    exact h₁.trans (ensurePackage_quiet h₁.grows.wellFormed hensure).1

theorem markExplored_of_unregistered (hq : ¬env.registry.Registered q) :
    env.markExplored q = env := by
  have hnone : env.registry.packages[q.index]? = none :=
    Option.eq_none_iff_forall_ne_some.mpr fun p hp => hq ⟨p, hp⟩
  have hlist : env.registry.modifyPackage q (·.markExplored) = env.registry := by
    unfold Registry.modifyPackage
    congr 1
    refine Array.ext_getElem? fun i => ?_
    rw [Array.getElem?_modify]
    split
    next hi => rw [← hi, hnone]; rfl
    next => rfl
  unfold Environment.markExplored
  rw [hlist]

theorem Visit.of_unregistered {entries : List Entry} (h : Visit (.package q) env entries env')
    (hq : ¬env.registry.Registered q) : entries = [] ∧ env' = env := by
  cases h with
  | known hex => exact absurd (Environment.registered_of_explored hex) hq
  | @package _ mid _ _ _ hfiles =>
    have hnil : env.files q = [] :=
      List.eq_nil_iff_forall_not_mem.mpr fun _ hm => hq (Environment.registered_of_mem_files hm)
    rw [hnil] at hfiles
    cases hfiles
    exact ⟨rfl, markExplored_of_unregistered hq⟩

theorem Visit.handled {entries : List Entry} (h : Visit (.package q) env entries env')
    (hr : env.registry.WellFormed) (hd : env.Decides rule) :
    Grows env env' ∧ (∀ t, env.Handled rule env' t) ∧ EntriesHandled rule ∅ env entries := by
  by_cases hq : env.registry.Registered q
  · have hdone := h.completes hr hq hd (S := ∅) fun s hs => absurd hs (Set.notMem_empty s)
    exact ⟨h.grows hr hq, hdone.handled, hdone.entries⟩
  · obtain ⟨rfl, rfl⟩ := h.of_unregistered hq
    exact ⟨.refl hr, fun t => .of_same rfl rfl, entriesHandled_nil⟩

/-- Nothing is in progress between two requests. -/
theorem Visits.handled {calls : List PackageCall} {entries : List Entry}
    (h : Visits calls env entries env') : env.registry.WellFormed → env.Decides rule →
      Grows env env' ∧ (∀ q, env.Handled rule env' q) ∧ EntriesHandled rule ∅ env entries := by
  induction h with
  | nil => exact fun hr _ => ⟨.refl hr, fun q => .of_same rfl rfl, entriesHandled_nil⟩
  | @cons call calls q env env₁ env₂ env' entries entries' hfinds hvisit _ ih =>
    intro hr hd
    have hquiet := hfinds.quiet hr
    have hfound : ∀ t, env.Handled rule env₁ t := fun t =>
      .of_same (hquiet.explored t) (hquiet.parsed t)
    obtain ⟨hgrows, hhandled, hentries⟩ :=
      hvisit.handled hquiet.grows.wellFormed (hquiet.grows.decides hd)
    have hfirst := hquiet.grows.trans hgrows
    have hcall : ∀ t, env.Handled rule env₂ t := fun t =>
      (hfound t).trans hquiet.grows (hhandled t) hgrows
    obtain ⟨hgrows', hhandled', hentries'⟩ := ih hfirst.wellFormed (hfirst.decides hd)
    refine ⟨hfirst.trans hgrows', fun t => (hcall t).trans hfirst (hhandled' t) hgrows', ?_⟩
    exact (hentries.later hquiet.grows fun t _ => hfound t).append
      (hentries'.later hfirst fun t _ => hcall t)

/-- What requests that all succeed read of a package: nothing where it was explored already or is
not explored in the end, and else its files from first to last, all but those that are skipped. A
package that is imported without a qualifier is explored as the importing file goes on, and by then
its files are read. -/
theorem files_are_read_once (hr : env.registry.WellFormed) (hd : env.Decides rule)
    {calls : List PackageCall} (h : calls.forM PackageCall.run env = .ok () env') :
    (∀ q, env'.parsed q = env.parsed q ++
      if env.explored q = false ∧ env'.explored q = true then
        (env'.files q).filter (rule · = .proceed)
      else []) ∧
    ∃ entries, Visits calls env entries env' ∧ ∀ e ∈ entries,
      e.after.explored e.imported = true ∧
      (env.explored e.imported = false → e.after.parsed e.imported =
        env.parsed e.imported ++ (e.after.files e.imported).filter (rule · = .proceed)) := by
  obtain ⟨entries, hvisits⟩ := visits_of_ok calls h
  obtain ⟨-, hhandled, hentries⟩ := hvisits.handled hr hd
  refine ⟨hhandled, entries, hvisits, fun e he => ?_⟩
  obtain ⟨hexplored, hread⟩ := hentries env (.refl hr) (fun q _ => .of_same rfl rfl) e he
  refine ⟨hexplored, fun hnew => ?_⟩
  rwa [Environment.Handled, if_pos ⟨hnew, hexplored⟩] at hread

end Requests

/-- The first request comes to the second package by way of the import, the other one finds it
explored. -/
def oneImportCalls : List PackageCall := [.analyzePackage 2 ⟨1⟩, .importPackage 2 "q"]

theorem oneImport_read_once :
    oneImportCalls.forM PackageCall.run (sessionOn oneImport) =
      .ok () (stateAfter (oneImportCalls.forM PackageCall.run) (sessionOn oneImport)) ∧
    (stateAfter (oneImportCalls.forM PackageCall.run) (sessionOn oneImport)).parsed ⟨1⟩ = ["p"] ∧
    (stateAfter (oneImportCalls.forM PackageCall.run) (sessionOn oneImport)).parsed ⟨2⟩ =
      ["q"] := by
  have hok : oneImportCalls.forM PackageCall.run (sessionOn oneImport) =
      .ok () (stateAfter (oneImportCalls.forM PackageCall.run) (sessionOn oneImport)) :=
    eq_ok_stateAfter (by decide +kernel)
  have hrule : (sessionOn oneImport).Decides fun _ => .proceed := fun _ => rfl
  obtain ⟨hread, -⟩ := files_are_read_once (sessionOn_wellFormed oneImport) hrule hok
  refine ⟨hok, (hread ⟨1⟩).trans ?_, (hread ⟨2⟩).trans ?_⟩
  · decide +kernel
  · decide +kernel

end GoPackages
