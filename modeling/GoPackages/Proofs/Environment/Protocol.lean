import GoPackages.Proofs.Environment.Nesting
import GoPackages.Proofs.Environment.Requests

/-!
# Packages under the eyes of a listener

Where imports without a qualifier form no cycle, an analysis of a package ends, what it asks of
the listener, the parser and the locator follows the grammar of traces, and the package counts as
explored if and only if the analysis went through all of its files.
-/
namespace GoPackages

open Source (SourceFile)
open Environment (Grows)

section Start

variable {start world : Environment}

def Environment.pathOf (env : Environment) (q : PackageId) : String :=
  ((env.registry.package? q).map (·.importPath)).getD ""

theorem Follows.offers_pathOf (h : Follows start world) {q : PackageId}
    (hq : world.registry.Registered q) (hold : q ∉ start.exploredSet) :
    start.Offers (world.pathOf q) (world.files q) := by
  obtain ⟨p, hp⟩ := hq
  have hview : world.pathOf q = p.importPath ∧ world.files q = p.files := by
    rw [Environment.pathOf, Environment.files, hp]
    exact ⟨rfl, rfl⟩
  rw [hview.1, hview.2]
  refine h.offers_of_new hp fun old hreg => Bool.eq_false_of_not_eq_true fun hex => hold ?_
  change (start.registry.package? q).any (·.explored) = true
  rwa [hreg]

theorem Follows.dotImports (h : Follows start world) {a b : PackageId}
    (hold : a ∉ start.exploredSet) (hstep : world.Enters a b) :
    start.DotImports (world.pathOf a) (world.pathOf b) := by
  obtain ⟨path, hpath, file, hparse, spec, hspec, hdot, info, hl, hb⟩ := hstep
  obtain ⟨⟨pb, hpb, himport⟩, -⟩ := Registry.byPath?_eq_some_iff.mp hb
  have hpathb : world.pathOf b = info.importPath := by
    rw [Environment.pathOf, hpb]
    exact himport
  refine ⟨world.files a, h.offers_pathOf (Environment.registered_of_mem_files hpath) hold, path,
    hpath, file, h.parser ▸ hparse, spec, hspec, hdot, info, h.setup.locate ▸ hl, hpathb.symm⟩

theorem Follows.not_reached (h : Follows start world)
    (hacyclic : ∀ path, ¬Relation.TransGen start.DotImports path path) {q : PackageId}
    (hold : q ∉ start.exploredSet) :
    ¬world.Reaches start.exploredSet (.files q (world.files q)) q := by
  rintro ⟨a, ha, hchain⟩
  have hcycle := Relation.TransGen.head' ⟨hold, ha⟩ hchain
  exact hacyclic _ (Relation.TransGen.lift world.pathOf
    (fun a b hstep => h.dotImports hstep.1 hstep.2) _ _ hcycle)

end Start

theorem Environment.Trace.explored_iff {world : Environment} {q : PackageId}
    {heard : List FileEvent} {seen seen' : Set PackageId} {events : List Event}
    {outcome : Except Error Unit} (h : world.Trace (.package q) heard seen events outcome seen')
    (hnew : q ∉ seen) (hback : ¬world.Reaches seen (.files q (world.files q)) q) :
    q ∈ seen' ↔ outcome = .ok () := by
  cases h with
  | known hq => exact absurd hq hnew
  | explored => exact iff_of_true (Set.mem_insert _ _) rfl
  | unexplored _ _ hfiles =>
    refine iff_of_false (fun hq => ?_) nofun
    exact (hfiles.reached.2 q hq).elim hnew hback

/-- What the analysis of a package that was not explored asked for, in the order of a trace, and
what became of the package. -/
structure Environment.Protocol (env : Environment) (pkg : PackageId) (events : List Event)
    (outcome : Except Error Unit) (env' : Environment) : Prop where
  log : env'.log.toList = env.log.toList ++ events
  heard : env'.heard = heardAfter env.heard events
  trace : env'.Trace (.package pkg) env.heard env.exploredSet events outcome env'.exploredSet
  explored : env'.explored pkg = true ↔ outcome = .ok ()

/-- Where imports without a qualifier form no cycle, the analysis of a package that is not explored
ends, and what it asks for is a trace of the package, with the outcome and the explored packages of
that trace. The package is explored if and only if the outcome is a success. An explored package is
left alone, and it stays explored, whatever is asked of the session. -/
theorem package_is_traced {env : Environment} (hw : env.WellFormed) (hb : env.builtin ≠ none)
    {pkg : PackageId} (hp : env.registry.Registered pkg) (hnew : env.explored pkg = false)
    {paths : Finset String} (hpaths : ∀ path files, env.Offers path files → path ∈ paths)
    (hacyclic : ∀ path, ¬Relation.TransGen env.DotImports path path) {depth : Nat}
    (hdepth : paths.card ≤ depth) :
    (∃ events outcome env', analyzePackage depth pkg env = Session.ofExcept outcome env' ∧
      env.Protocol pkg events outcome env') ∧
    ∀ q, env.explored q = true → (∀ depth, analyzePackage depth q env = .ok () env) ∧
      ∀ requests, env.NamesAll requests → (env.performAll requests).explored q = true := by
  have hr := hw.registry
  refine ⟨?_, fun q hex => ⟨fun depth => analyzePackage_known depth hex, fun requests hn => ?_⟩⟩
  · have hunseen : pkg ∉ env.exploredSet := fun h => nomatch hnew.symm.trans h
    have hsource : ∀ a b, env.DotImports a b → a ∈ paths :=
      fun a _ ⟨files, ho, _⟩ => hpaths a files ho
    obtain ⟨rank, hrank, hcard, hpos⟩ := exists_rank env.DotImports paths hsource hacyclic
    have hsettles := analyzePackage_within hrank
      (fun path files ho => hpos path (hpaths path files ho)) depth env pkg hr
      ⟨.refl hr, hp.choose, hp.choose_spec, fun _ => (hcard _).trans hdepth⟩
    have htakes := analyzePackage_takes depth pkg env hr hb hp
    have hfinish : ∀ {events : List Event} {outcome : Except Error Unit} {env' : Environment},
        Follows env env' → Environment.Steps env events env' →
        env.Traces (.package pkg) events outcome env' → env.Protocol pkg events outcome env' := by
      intro events outcome env' hfollows hsteps htrace
      rw [Environment.Traces, map_unit] at htrace
      exact ⟨hsteps.log.1, hsteps.log.2.2, htrace,
        htrace.explored_iff hunseen (hfollows.not_reached hacyclic hunseen)⟩
    unfold Settles at hsettles
    unfold Takes at htakes
    cases hrun : analyzePackage depth pkg env with
    | ok a env' =>
      rw [hrun] at hsettles htakes
      obtain ⟨events, hsteps, htrace⟩ := htakes
      exact ⟨events, .ok (), env', rfl, hfinish hsettles.1 hsteps htrace⟩
    | error e env' =>
      rw [hrun] at hsettles htakes
      cases e with
      | failed e =>
        obtain ⟨events, hsteps, htrace⟩ := htakes
        exact ⟨events, .error e, env', rfl, hfinish hsettles hsteps htrace⟩
      | tooDeep => exact hsettles.1.elim
  · exact Environment.performAll_keeps (P := fun env => env.explored q = true)
      (fun _ _ _ hw hb hn hex => Environment.perform_explored hw.registry hb hn hex) hw hb hn hex

def rejecting (rejected : String) : Listener where
  before _ _ _ := .proceed
  after _ _ path _ := if path = rejected then .error .builtinNotFound else .ok ()

def rejectedImport : Environment := (sessionOn oneImport).setListener (rejecting "q")

theorem rejectedImport_wellFormed : rejectedImport.WellFormed where
  registry := sessionOn_wellFormed oneImport
  builtin q hq := by
    have hbuiltin : rejectedImport.builtin = some Registry.builtinId := Registry.new_builtin?
    obtain rfl := Option.some.inj (hbuiltin.symm.trans hq)
    exact Option.isSome_iff_exists.mp (by decide +kernel)

/-- The rejection ends the imported package, and with it the importing one. -/
theorem rejectedImport_is_traced :
    (∀ path, ¬Relation.TransGen rejectedImport.DotImports path path) ∧
      ∃ events env', analyzePackage 2 ⟨1⟩ rejectedImport = .error (.failed .builtinNotFound) env' ∧
        rejectedImport.Protocol ⟨1⟩ events (.error .builtinNotFound) env' ∧
        env'.parsed ⟨2⟩ = ["q"] ∧ env'.explored ⟨2⟩ = false ∧ env'.explored ⟨1⟩ = false := by
  refine ⟨oneImport_acyclic, ?_⟩
  have hbuiltin : rejectedImport.builtin ≠ none := by
    change Registry.new.builtin? ≠ none
    rw [Registry.new_builtin?]
    exact nofun
  have hregistered : rejectedImport.registry.Registered ⟨1⟩ :=
    Option.isSome_iff_exists.mp (by decide +kernel)
  obtain ⟨⟨events, outcome, env', hrun, hprotocol⟩, -⟩ := package_is_traced
    rejectedImport_wellFormed hbuiltin hregistered (by decide +kernel)
    (fun _ _ ho => (oneImport_offers ho).1) oneImport_acyclic (le_refl 2)
  have hfails : Session.attempt (analyzePackage 2 ⟨1⟩) rejectedImport =
      .ok (.error .builtinNotFound)
        (stateAfter (Session.attempt (analyzePackage 2 ⟨1⟩)) rejectedImport) :=
    eq_ok_stateAfter (by decide +kernel)
  have hkept : Session.attempt (analyzePackage 2 ⟨1⟩) rejectedImport = .ok outcome env' := by
    unfold Session.attempt
    rw [hrun]
    cases outcome <;> rfl
  cases hfails.symm.trans hkept
  exact ⟨events, _, hrun, hprotocol, by decide +kernel, by decide +kernel, by decide +kernel⟩

end GoPackages
