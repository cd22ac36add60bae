import GoPackages.Proofs.Environment.PackageCalls
import GoPackages.Proofs.Environment.Requests

/-!
# The documentation of packages

A package is documented whenever one of its files is read. Declarations that come again take
the place of the earlier ones, but what was documented by an analysis that broke off stays, and
the analysis that completes the package adds the same lines once more.
-/
namespace GoPackages

open Environment (Grows Request Steps)

namespace Environment

def Request.ReadsPaths : Request → Prop
  | .analyzeFile _ _ _ => False
  | _ => True

/-- Packages are documented with their files in the order in which they were read, each as often
as it was read. -/
def Documented (env : Environment) : Prop :=
  ∀ q, env.doc q = (env.parsed q).flatMap env.docOf

variable {env env' : Environment}

theorem Documented.steps (h : env.Documented) {events : List Event}
    (hsteps : Steps env events env') (hr : env.registry.WellFormed) (hb : env.builtin ≠ none) :
    env'.Documented := by
  intro q
  rw [hsteps.doc hr hb, hsteps.parsed, docOf_congr (hsteps.grows hr).parser, List.flatMap_append, h]

theorem Documented.perform (h : env.Documented) (hr : env.registry.WellFormed)
    (hb : env.builtin ≠ none) {request : Request} (hn : env.Names request)
    (hpath : request.ReadsPaths) : (env.perform request).Documented := by
  rcases perform_cases hr hb hn with ⟨_, hsteps⟩ | ⟨_, _, _, _, rfl, -⟩ | ⟨hreg, hlog, hparser, -⟩
  · exact h.steps hsteps hr hb
  · exact hpath.elim
  · intro q
    have hdoc : (env.perform request).doc q = env.doc q := by
      rw [doc, Registry.package?, hreg]
      rfl
    have hparsed : (env.perform request).parsed q = env.parsed q := by
      rw [parsed, hlog]
      rfl
    rw [hdoc, hparsed, docOf_congr hparser, h]

theorem new_documented (currentDir : Option String) (locator : Locator) (parser : SourceParser) :
    (Environment.new currentDir locator parser).Documented := by
  intro q
  have hnothing : ∀ p ∈ Registry.new.packages.toList, p.doc = [] := by decide +kernel
  change ((Registry.new.package? q).map (·.doc)).getD [] = []
  cases hp : Registry.new.package? q with
  | none => rfl
  | some p => exact hnothing p (Array.mem_toList_iff.mpr (Array.mem_of_getElem? hp))

theorem performAll_documented (currentDir : Option String) (locator : Locator)
    (parser : SourceParser) {requests : List Request}
    (hn : (Environment.new currentDir locator parser).NamesAll requests)
    (hpaths : ∀ request ∈ requests, request.ReadsPaths) :
    ((Environment.new currentDir locator parser).performAll requests).Documented :=
  performAll_keeps (P := Documented)
    (fun _ hmem _ hw hb hn h => h.perform hw.registry hb hn (hpaths _ hmem))
    (new_wellFormed currentDir locator parser) (new_builtin_ne_none currentDir locator parser) hn
    (new_documented currentDir locator parser)

end Environment

def PackageCall.request : PackageCall → Request
  | .importPackage depth path => .importPackage depth path
  | .importDir depth dir => .importDir depth dir
  | .analyzePackage depth pkg => .analyzePackage depth pkg

theorem PackageCall.run_takes {env : Environment} (hr : env.registry.WellFormed)
    (hb : env.builtin ≠ none) {call : PackageCall} (hn : env.Names call.request) :
    Takes env call.run fun events _ env' => env.Explores events env' := by
  cases call with
  | importPackage depth path =>
    exact takes_discard (importPackage_takes hr hb depth path) (fun _ _ _ h => h) fun _ _ _ h => h
  | importDir depth dir =>
    exact takes_discard (importDir_takes hr hb depth dir) (fun _ _ _ h => h) fun _ _ _ h => h
  | analyzePackage depth pkg => exact analyzePackage_explores hr hb depth hn

/-- What a package is documented with when it comes to be explored, where imports without a
qualifier form no cycle: the files that were read for it by then, and after them all of its files
that the listener lets through, in order. That is the documentation of these files, each counted
once, if and only if nothing that was read before documents the package. -/
theorem documentation_follows_reading (currentDir : Option String) (locator : Locator)
    (parser : SourceParser) {requests : List Request}
    (hn : (Environment.new currentDir locator parser).NamesAll requests)
    (hpaths : ∀ request ∈ requests, request.ReadsPaths) {env : Environment}
    (henv : (Environment.new currentDir locator parser).performAll requests = env)
    {call : PackageCall} (hc : env.Names call.request) {outcome : Except Error Unit}
    {env' : Environment} (hrun : call.run env = Session.ofExcept outcome env')
    (hacyclic : ∀ a, ¬Relation.TransGen env'.Enters a a) {q : PackageId}
    (hold : env.explored q = false) (hnew : env'.explored q = true) :
    ∃ taken, env'.Taken (env'.files q) taken ∧ env'.parsed q = env.parsed q ++ taken ∧
      env'.doc q = (env.parsed q ++ taken).flatMap env'.docOf ∧
      (env'.doc q = taken.flatMap env'.docOf ↔ ∀ path ∈ env.parsed q, env'.docOf path = []) := by
  subst henv
  set env := (Environment.new currentDir locator parser).performAll requests
  have hw : env.WellFormed := Environment.wellFormed_performAll
    (Environment.new_wellFormed currentDir locator parser) hn
  have hb : env.builtin ≠ none := Environment.performAll_builtin currentDir locator parser hn
  have hdoc := Environment.performAll_documented currentDir locator parser hn hpaths
  obtain ⟨events, hsteps, hexplores⟩ := (PackageCall.run_takes hw.registry hb hc).of_run hrun
  have htaken := hexplores hacyclic q hold hnew
  have hparsed := hsteps.parsed q
  have hread := hdoc.steps hsteps hw.registry hb q
  rw [hparsed] at hread
  refine ⟨_, htaken, hparsed, hread, ?_⟩
  rw [hread, List.flatMap_append, List.append_left_eq_self, List.flatMap_eq_nil_iff]

def twoFiles : Locator where
  locate _ _ := .ok ⟨"p", "p", "", ["a.go", "b.go"]⟩
  locateDir _ := .error .builtinNotFound

def firstDocuments : SourceParser := fun path =>
  .ok ⟨"p", if path = "a.go" then some ["// p"] else none, []⟩

/-- A listener that stops at one file, or has no objections. -/
def stoppingAt (stop : Option String) : Listener where
  before _ _ path := if some path = stop then .abort .builtinNotFound else .proceed
  after _ _ _ _ := .ok ()

/-- An import that the listener stops at one of the files, after which the listener is another. -/
def stoppedAt (stop : String) : List Request :=
  [.setListener (stoppingAt (some stop)), .importPackage 1 "p", .setListener (stoppingAt none)]

def importStopped (stop : String) : Environment :=
  (Environment.new none twoFiles firstDocuments).performAll (stoppedAt stop)

def secondImport : PackageCall := .importPackage 1 "p"

def importedAgain (stop : String) : Environment := stateAfter secondImport.run (importStopped stop)

theorem stoppedAt_names (stop : String) :
    (Environment.new none twoFiles firstDocuments).NamesAll (stoppedAt stop) :=
  ⟨trivial, trivial, trivial, trivial⟩

theorem stoppedAt_readsPaths (stop : String) : ∀ request ∈ stoppedAt stop, request.ReadsPaths := by
  intro request hmem
  simp only [stoppedAt, List.mem_cons, List.not_mem_nil, or_false] at hmem
  rcases hmem with rfl | rfl | rfl <;> trivial

theorem importedAgain_grows (stop : String) : Grows (importStopped stop) (importedAgain stop) := by
  have hw : (importStopped stop).WellFormed := Environment.wellFormed_performAll
    (Environment.new_wellFormed none twoFiles firstDocuments) (stoppedAt_names stop)
  have hb : (importStopped stop).builtin ≠ none :=
    Environment.performAll_builtin none twoFiles firstDocuments (stoppedAt_names stop)
  have hnames : (importStopped stop).Names secondImport.request := trivial
  obtain ⟨events, hsteps⟩ := (PackageCall.run_takes hw.registry hb hnames).stateAfter
  exact hsteps.grows hw.registry

theorem importedAgain_acyclic (stop : String) (a : PackageId) :
    ¬Relation.TransGen (importedAgain stop).Enters a a := by
  intro h
  have hparser : (importStopped stop).parser = firstDocuments :=
    Environment.performAll_keeps (P := fun env => env.parser = firstDocuments)
      (fun _ _ _ hw hb hn h => (Environment.perform_parser_eq hw.registry hb hn).trans h)
      (Environment.new_wellFormed none twoFiles firstDocuments)
      (Environment.new_builtin_ne_none none twoFiles firstDocuments) (stoppedAt_names stop) rfl
  obtain ⟨_, ⟨path, -, file, hfile, spec, hspec, -⟩, -⟩ := Relation.TransGen.head'_iff.mp h
  rw [(importedAgain_grows stop).parser, hparser] at hfile
  obtain rfl := Except.ok.inj hfile
  exact absurd hspec List.not_mem_nil

/-- Nothing is left of an import that is stopped before the first file. -/
theorem stoppedEarly_documents_once :
    secondImport.run (importStopped "a.go") = .ok () (importedAgain "a.go") ∧
      (importedAgain "a.go").doc ⟨1⟩ =
        ((importedAgain "a.go").files ⟨1⟩).flatMap (importedAgain "a.go").docOf := by
  have hrun : secondImport.run (importStopped "a.go") =
      Session.ofExcept (.ok ()) (importedAgain "a.go") := eq_ok_stateAfter (by decide +kernel)
  have hnames : (importStopped "a.go").Names secondImport.request := trivial
  have hunread : (importStopped "a.go").parsed ⟨1⟩ = [] := by decide +kernel
  obtain ⟨taken, htaken, -, -, hiff⟩ := documentation_follows_reading none twoFiles firstDocuments
    (stoppedAt_names "a.go") (stoppedAt_readsPaths "a.go") (Eq.refl (importStopped "a.go"))
    hnames hrun (importedAgain_acyclic "a.go") (q := ⟨1⟩) (by decide +kernel) (by decide +kernel)
  have hlistener : (importedAgain "a.go").listener = some (stoppingAt none) :=
    (importedAgain_grows "a.go").listener
  obtain rfl := htaken.eq_of_no_skip fun listener hl heard p path => by
    obtain rfl := Option.some.inj (hlistener.symm.trans hl)
    simp [stoppingAt]
  refine ⟨hrun, hiff.mpr fun path hpath => ?_⟩
  rw [hunread] at hpath
  exact absurd hpath List.not_mem_nil

/-- An import that is stopped at the second file leaves the documentation of the first one, and
the next import adds it again. -/
theorem stoppedLate_documents_twice :
    secondImport.run (importStopped "b.go") = .ok () (importedAgain "b.go") ∧
      (importStopped "b.go").explored ⟨1⟩ = false ∧ (importedAgain "b.go").explored ⟨1⟩ = true ∧
      ((importedAgain "b.go").files ⟨1⟩).flatMap (importedAgain "b.go").docOf = ["// p"] ∧
      (importedAgain "b.go").doc ⟨1⟩ = ["// p", "// p"] := by
  have hrun : secondImport.run (importStopped "b.go") = .ok () (importedAgain "b.go") :=
    eq_ok_stateAfter (by decide +kernel)
  exact ⟨hrun, by decide +kernel, by decide +kernel, by decide +kernel, by decide +kernel⟩

end GoPackages
