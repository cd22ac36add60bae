import GoPackages.Proofs.Acyclic
import GoPackages.Proofs.Environment.WellFormed

/-!
# The nesting of imports without a qualifier

Such an import analyzes the imported package in the middle of the importing file, and a
package counts as explored only when all its files were visited. So the nesting follows the
paths of the import relation: without a cycle it is bounded by the number of packages that
may have to be explored, and a cycle goes around for as long as it is let.
-/
namespace GoPackages

open Source (ImportSpec SourceFile)

namespace Environment

/-- The package of an import path that is still to be explored: it is registered, or the
locator knows it. -/
def Offers (env : Environment) (path : String) (files : List String) : Prop :=
  (∃ q p, env.registry.package? q = some p ∧ p.explored = false ∧ p.importPath = path ∧
      p.files = files) ∨
    ∃ request info, env.locate request = .ok info ∧ info.importPath = path ∧ info.files = files

def DotImports (env : Environment) (importer imported : String) : Prop :=
  ∃ files, env.Offers importer files ∧ ∃ path ∈ files, ∃ file, env.parser path = .ok file ∧
    ∃ spec, .importSpec spec ∈ items file ∧ spec.name = some .dot ∧
      ∃ info, env.locate (Source.literalValue spec.path) = .ok info ∧ info.importPath = imported

end Environment

theorem Follows.offers_of_new {start env : Environment} (h : Follows start env) {q : PackageId}
    {p : Package} (hp : env.registry.package? q = some p)
    (hnew : ∀ old, start.registry.package? q = some old → old.explored = false) :
    start.Offers p.importPath p.files := by
  rcases h.located q p hp with ⟨old, hold⟩ | ⟨path, info, hl, himport, hfiles⟩
  · obtain ⟨p', hp', himport, hfiles, -⟩ := h.packages q old hold
    obtain rfl := Option.some.inj (hp'.symm.trans hp)
    exact .inl ⟨q, old, hold, hnew old hold, himport.symm, hfiles.symm⟩
  · exact .inr ⟨path, info, hl, himport.symm, hfiles.symm⟩

theorem Follows.offers {start env : Environment} (h : Follows start env) {q : PackageId}
    {p : Package} (hp : env.registry.package? q = some p) (hex : p.explored = false) :
    start.Offers p.importPath p.files := by
  refine h.offers_of_new hp fun old hold => ?_
  obtain ⟨p', hp', -, -, hmono⟩ := h.packages q old hold
  obtain rfl := Option.some.inj (hp'.symm.trans hp)
  by_contra hn
  rw [hmono (Bool.eq_true_of_not_eq_false hn)] at hex
  cases hex

section Bounded

variable {start : Environment} {rank : String → Nat}

/-- A package that is explored or whose rank leaves room below `depth`. -/
def WithinDepth (start : Environment) (rank : String → Nat) (depth : Nat) (env : Environment)
    (q : PackageId) : Prop :=
  Follows start env ∧ ∃ p, env.registry.package? q = some p ∧
    (p.explored = false → rank p.importPath ≤ depth)

theorem pathsAllowed_of_rank (hrank : ∀ a b, start.DotImports a b → rank b < rank a)
    {env : Environment} (hf : Follows start env) {q : PackageId} {p : Package}
    (hp : env.registry.package? q = some p) (hex : p.explored = false) {depth : Nat}
    (hdepth : rank p.importPath ≤ depth + 1) :
    PathsAllowed (WithinDepth start rank depth) env p.files := by
  intro path hpath file hparse spec hspec hdot info hl env' q' p' hf' hp' himport
  have hedge : start.DotImports p.importPath info.importPath :=
    ⟨p.files, hf.offers hp hex, path, hpath, file, hf.parser ▸ hparse, spec, hspec, hdot, info,
      hf.setup.locate ▸ hl, rfl⟩
  have hlt := hrank _ _ hedge
  refine ⟨hf.trans hf', p', hp', fun _ => ?_⟩
  rw [himport]
  omega

theorem analyzePackage_within (hrank : ∀ a b, start.DotImports a b → rank b < rank a)
    (hpos : ∀ path files, start.Offers path files → 0 < rank path) (depth : Nat) :
    Entering False (WithinDepth start rank depth) (analyzePackage depth) := by
  induction depth with
  | zero =>
    rintro env q hr ⟨hf, p, hp, hdepth⟩
    unfold analyzePackage
    refine Settles.after_get ?_
    rw [hp, Option.any_some]
    cases hex : p.explored with
    | true => exact settles_pure hr trivial
    | false =>
      have := hpos _ _ (hf.offers hp hex)
      have := hdepth hex
      omega
  | succ depth ih =>
    rintro env q hr ⟨hf, p, hp, hdepth⟩
    unfold analyzePackage
    refine Settles.after_get ?_
    rw [hp, Option.any_some]
    cases hex : p.explored with
    | true => exact settles_pure hr trivial
    | false =>
      change Settles False env (explore (analyzePackage depth) q) _
      refine explore_settles ih hr fun p' hp' => ?_
      obtain rfl := Option.some.inj (hp.symm.trans hp')
      exact pathsAllowed_of_rank hrank hf hp hex (hdepth hex)

end Bounded

/-- Where the first step does not stop for its depth, the second one does the same. -/
def Refines {α : Type} (m m' : Session α) : Prop :=
  ∀ env, (∀ env', m env ≠ .error .tooDeep env') → m' env = m env

section Refinement

variable {α β : Type}

theorem Refines.refl (m : Session α) : Refines m m := fun _ _ => rfl

theorem Refines.bind {m m' : Session α} {k k' : α → Session β} (h : Refines m m')
    (hk : ∀ a, Refines (k a) (k' a)) : Refines (m >>= k) (m' >>= k') := by
  intro env hne
  simp only [Bind.bind, EStateM.bind] at hne ⊢
  cases hm : m env with
  | ok a mid =>
    rw [hm] at hne
    rw [(h env fun _ => by rw [hm]; exact nofun).trans hm]
    exact hk a mid hne
  | error e mid =>
    rw [hm] at hne
    rw [(h env fun env' he => hne env' (by rw [← hm, he])).trans hm]

theorem Refines.attempt {m m' : Session α} (h : Refines m m') :
    Refines (Session.attempt m) (Session.attempt m') := by
  intro env hne
  unfold Session.attempt at hne ⊢
  rw [h env fun env' he => hne env' (by rw [he])]

variable {enter enter' : PackageId → Session Unit}

theorem importSpec_refines (h : ∀ q, Refines (enter q) (enter' q)) (scope : FileScope)
    (spec : ImportSpec) : Refines (importSpec enter scope spec) (importSpec enter' scope spec) := by
  unfold importSpec
  refine Refines.bind (.refl _) fun info => Refines.bind (.refl _) fun q => ?_
  split
  case h_3 => exact Refines.bind (h q) fun _ => .refl _
  all_goals exact .refl _

theorem analyzeFileWith_refines (h : ∀ q, Refines (enter q) (enter' q)) (pkg : PackageId)
    (file : SourceFile) :
    Refines (analyzeFileWith enter pkg file) (analyzeFileWith enter' pkg file) := by
  have hitem : ∀ scope item,
      Refines (analyzeItem enter scope item) (analyzeItem enter' scope item) := by
    intro scope item
    cases item with
    | importSpec spec => exact importSpec_refines h scope spec
    | typeSpec | valueSpec | func => exact .refl _
  have hitems : ∀ (items : List Item) scope, Refines (items.foldlM (analyzeItem enter) scope)
      (items.foldlM (analyzeItem enter') scope) := by
    intro items
    induction items with
    | nil => exact fun _ => .refl _
    | cons item rest ih =>
      intro scope
      rw [List.foldlM_cons, List.foldlM_cons]
      exact Refines.bind (hitem scope item) ih
  unfold analyzeFileWith
  refine Refines.bind (.refl _) fun env => ?_
  split
  · exact .refl _
  · simp only [foldlM_analyzeDecl]
    refine Refines.bind (.refl _) fun _ => ?_
    exact Refines.bind (hitems _ _) fun _ => .refl _

theorem visitFiles_refines (h : ∀ q, Refines (enter q) (enter' q)) (pkg : PackageId)
    (paths : List String) : Refines (visitFiles enter pkg paths) (visitFiles enter' pkg paths) := by
  induction paths with
  | nil => exact .refl _
  | cons path rest ih =>
    refine Refines.bind ?_ fun _ => ih
    unfold visitFile
    refine Refines.bind (.refl _) fun action => ?_
    cases action with
    | skip | abort => exact .refl _
    | proceed =>
      refine Refines.bind (Refines.attempt ?_) fun _ => .refl _
      exact Refines.bind (.refl _) fun file => analyzeFileWith_refines h pkg file

theorem analyzePackage_refines (depth : Nat) (pkg : PackageId) :
    Refines (analyzePackage depth pkg) (analyzePackage (depth + 1) pkg) := by
  induction depth generalizing pkg with
  | zero =>
    refine Refines.bind (.refl _) fun explored => ?_
    split
    · exact .refl _
    · exact fun env hne => absurd rfl (hne env)
  | succ depth ih =>
    refine Refines.bind (.refl _) fun explored => ?_
    split
    · exact .refl _
    · refine Refines.bind (.refl _) fun p => Refines.bind (visitFiles_refines ih pkg _) fun _ => ?_
      exact .refl _

end Refinement

theorem analyzePackage_eq_of_le {bound depth : Nat} (hle : bound ≤ depth) {pkg : PackageId}
    {env : Environment} (h : ∀ env', analyzePackage bound pkg env ≠ .error .tooDeep env') :
    analyzePackage depth pkg env = analyzePackage bound pkg env := by
  induction hle with
  | refl => rfl
  | @step depth _ ih =>
    exact (analyzePackage_refines depth pkg env fun env' => ih ▸ h env').trans ih

/-- Where imports without a qualifier form no cycle, at most as many packages are in progress at
once as there are import paths to be explored, and nothing depends on the depth beyond that. -/
theorem acyclic_imports_terminate {env : Environment} (hr : env.registry.WellFormed)
    {pkg : PackageId} (hp : env.registry.Registered pkg) {paths : Finset String}
    (hpaths : ∀ path files, env.Offers path files → path ∈ paths)
    (hacyclic : ∀ path, ¬Relation.TransGen env.DotImports path path) {depth : Nat}
    (hdepth : paths.card ≤ depth) :
    (∀ env', analyzePackage depth pkg env ≠ .error .tooDeep env') ∧
      analyzePackage depth pkg env = analyzePackage paths.card pkg env := by
  have hsource : ∀ a b, env.DotImports a b → a ∈ paths :=
    fun a _ ⟨files, ho, _⟩ => hpaths a files ho
  obtain ⟨rank, hrank, hcard, hpos⟩ := exists_rank env.DotImports paths hsource hacyclic
  obtain ⟨p, hp⟩ := hp
  have hwithin : WithinDepth env rank paths.card env pkg :=
    ⟨.refl hr, p, hp, fun _ => hcard p.importPath⟩
  have hbound := (analyzePackage_within hrank
    (fun path files ho => hpos path (hpaths path files ho)) paths.card env pkg hr
    hwithin).not_tooDeep
  have heq := analyzePackage_eq_of_le hdepth hbound
  exact ⟨fun env' => heq ▸ hbound env', heq⟩

def dotImport (importPath : String) : SourceFile :=
  ⟨"p", none, [.group .imports none [.importSpec ⟨none, some .dot, importPath⟩]]⟩

def packagesOf (files : List (String × SourceFile)) : Locator where
  locate importPath _ :=
    match files.lookup importPath with
    | some _ => .ok ⟨importPath, importPath, "", [importPath]⟩
    | none => .error .builtinNotFound
  locateDir _ := .error .builtinNotFound

def filesOf (files : List (String × SourceFile)) : SourceParser := fun path =>
  match files.lookup path with
  | some file => .ok file
  | none => .error .builtinNotFound

def sessionOn (files : List (String × SourceFile)) : Environment :=
  { Environment.new none (packagesOf files) (filesOf files) with
    registry := Registry.new.next (.append ⟨"p", "p", "", ["p"]⟩) }

theorem sessionOn_wellFormed (files : List (String × SourceFile)) :
    (sessionOn files).registry.WellFormed := by
  change (Registry.new.next (.append ⟨"p", "p", "", ["p"]⟩)).WellFormed
  rw [Registry.next]
  split
  next h =>
    exact (Registry.append_wellFormed Registry.new_wellFormed
      (Registry.packageFits_ofInfo _ _) h).2
  next => exact Registry.new_wellFormed

def oneImport : List (String × SourceFile) := [("p", dotImport "\"q\""), ("q", ⟨"q", none, []⟩)]

theorem oneImport_offers {path : String} {files : List String}
    (h : (sessionOn oneImport).Offers path files) :
    path ∈ ({"p", "q"} : Finset String) ∧ files = [path] := by
  rcases h with ⟨q, p, hp, hex, rfl, rfl⟩ | ⟨request, info, hl, rfl, rfl⟩
  · have hall : ∀ p ∈ (sessionOn oneImport).registry.packages.toList, p.explored = false →
        p.importPath ∈ ({"p", "q"} : Finset String) ∧ p.files = [p.importPath] := by
      decide +kernel
    exact hall p (Array.mem_toList_iff.mpr (Array.mem_of_getElem? hp)) hex
  · change (packagesOf oneImport).locate request _ = _ at hl
    unfold packagesOf at hl
    dsimp only at hl
    split at hl
    next file hfile =>
      obtain rfl := Except.ok.inj hl
      have hmem : request ∈ oneImport.map Prod.fst := by
        obtain ⟨front, back, heq, -⟩ := List.lookup_eq_some_iff.mp hfile
        rw [heq]
        simp
      exact ⟨by simpa [oneImport] using hmem, rfl⟩
    next => cases hl

theorem oneImport_dotImports {importer imported : String}
    (h : (sessionOn oneImport).DotImports importer imported) : importer = "p" ∧ imported = "q" := by
  obtain ⟨files, ho, path, hpath, file, hparse, spec, hspec, -, info, hl, rfl⟩ := h
  obtain ⟨hmem, rfl⟩ := oneImport_offers ho
  obtain rfl := List.mem_singleton.mp hpath
  change filesOf oneImport path = _ at hparse
  rcases Finset.mem_insert.mp hmem with rfl | hq
  · obtain rfl := Except.ok.inj hparse
    obtain rfl : spec = ⟨none, some .dot, "\"q\""⟩ := by
      simpa [items, declItems, specItems, dotImport] using hspec
    have hpath : Source.literalValue "\"q\"" = "q" := by decide
    change (packagesOf oneImport).locate (Source.literalValue "\"q\"") _ = _ at hl
    rw [hpath] at hl
    obtain rfl := Except.ok.inj hl
    exact ⟨rfl, rfl⟩
  · obtain rfl := Finset.mem_singleton.mp hq
    obtain rfl := Except.ok.inj hparse
    cases hspec

theorem oneImport_acyclic (path : String) :
    ¬Relation.TransGen (sessionOn oneImport).DotImports path path := by
  intro h
  obtain ⟨_, hfirst, -⟩ := Relation.TransGen.head'_iff.mp h
  obtain ⟨_, -, hlast⟩ := Relation.TransGen.tail'_iff.mp h
  have hp := (oneImport_dotImports hfirst).1
  have hq := (oneImport_dotImports hlast).2
  rw [hp] at hq
  exact absurd hq (by decide)

theorem oneImport_terminates :
    (∀ path, ¬Relation.TransGen (sessionOn oneImport).DotImports path path) ∧
      ∀ env', analyzePackage 2 ⟨1⟩ (sessionOn oneImport) ≠ .error .tooDeep env' := by
  refine ⟨oneImport_acyclic, ?_⟩
  have hregistered := Option.isSome_iff_exists.mp
    (show ((sessionOn oneImport).registry.package? ⟨1⟩).isSome by decide +kernel)
  exact (acyclic_imports_terminate (sessionOn_wellFormed oneImport) hregistered
    (fun _ _ ho => (oneImport_offers ho).1) oneImport_acyclic (le_refl 2)).1

def selfImport : SourceFile := dotImport "\"p\""

/-- The session on that package, after some requests to its collaborators. -/
def selfImportSession (log : Array Event) : Environment :=
  { sessionOn [("p", selfImport)] with log }

section SelfImport

variable {enter : PackageId → Session Unit} {log : Array Event} {env' : Environment}

theorem importSpec_selfImport
    (h : enter ⟨1⟩ (selfImportSession (log.push (.locate "p" "."))) = .error .tooDeep env')
    (scope : FileScope) :
    importSpec enter scope ⟨none, some .dot, "\"p\""⟩ (selfImportSession log) =
      .error .tooDeep env' := by
  have hpath : Source.literalValue "\"p\"" = "p" := by decide
  have hfound : (sessionOn [("p", selfImport)]).registry.byPath? "p" = some ⟨1⟩ := by decide +kernel
  have hknown : (sessionOn [("p", selfImport)]).registry.ensurePackage ⟨"p", "p", "", ["p"]⟩ =
      .ok (⟨1⟩, (sessionOn [("p", selfImport)]).registry) := by
    rw [Registry.ensurePackage, hfound]
  have hensure : Session.ensurePackage ⟨"p", "p", "", ["p"]⟩
      (selfImportSession (log.push (.locate "p" "."))) =
        .ok ⟨1⟩ (selfImportSession (log.push (.locate "p" "."))) := by
    refine (bind_eq_of_ok rfl).trans ?_
    change (Session.ofExcept ((sessionOn [("p", selfImport)]).registry.ensurePackage _) >>= _) _ = _
    rw [hknown]
    rfl
  unfold importSpec
  rw [hpath]
  refine (bind_eq_of_ok rfl).trans ((bind_eq_of_ok hensure).trans ?_)
  exact bind_eq_of_error h

theorem analyzeFileWith_selfImport
    (h : enter ⟨1⟩ (selfImportSession (log.push (.locate "p" "."))) = .error .tooDeep env') :
    analyzeFileWith enter ⟨1⟩ selfImport (selfImportSession log) = .error .tooDeep env' := by
  have hbuiltin : (selfImportSession log).builtin = some Registry.builtinId := Registry.new_builtin?
  have hdoc : (sessionOn [("p", selfImport)]).registry.modifyPackage ⟨1⟩ (·.appendDoc []) =
      (sessionOn [("p", selfImport)]).registry := by decide +kernel
  have hdocumented : Session.analyze (modify (·.modifyPackage ⟨1⟩ (·.appendDoc [])))
      (selfImportSession log) = .ok ⟨⟩ (selfImportSession log) := by
    change EStateM.Result.ok _ { selfImportSession log with
      registry := (sessionOn [("p", selfImport)]).registry.modifyPackage ⟨1⟩ (·.appendDoc []) } = _
    rw [hdoc]
    rfl
  unfold analyzeFileWith
  refine (bind_eq_of_ok rfl).trans ?_
  rw [hbuiltin]
  refine (bind_eq_of_ok hdocumented).trans ?_
  rw [foldlM_analyzeDecl]
  exact bind_eq_of_error (bind_eq_of_error (importSpec_selfImport h _))

theorem visitFile_selfImport
    (h : enter ⟨1⟩ (selfImportSession ((log.push (.parse ⟨1⟩ "p")).push (.locate "p" "."))) =
      .error .tooDeep env') :
    visitFile enter ⟨1⟩ "p" (selfImportSession log) = .error .tooDeep env' := by
  have hread : (do
      let file ← Session.parse ⟨1⟩ "p"
      analyzeFileWith enter ⟨1⟩ file) (selfImportSession log) = .error .tooDeep env' :=
    (bind_eq_of_ok rfl).trans (analyzeFileWith_selfImport h)
  have hannounce :
      announce ⟨1⟩ "p" (selfImportSession log) = .ok .proceed (selfImportSession log) := rfl
  unfold visitFile
  refine (bind_eq_of_ok hannounce).trans ?_
  refine bind_eq_of_error ?_
  unfold Session.attempt
  rw [hread]

end SelfImport

/-- Every entry of the package meets the import again, since it is still in progress. -/
theorem selfImport_nests (depth : Nat) (log : Array Event) :
    ∃ log', analyzePackage depth ⟨1⟩ (selfImportSession log) =
      .error .tooDeep (selfImportSession log') := by
  have hunexplored : ((sessionOn [("p", selfImport)]).registry.package? ⟨1⟩).any (·.explored) =
      false := by decide +kernel
  have hguard : ∀ log,
      isExplored ⟨1⟩ (selfImportSession log) = .ok false (selfImportSession log) := by
    intro log
    change EStateM.Result.ok
      (((sessionOn [("p", selfImport)]).registry.package? ⟨1⟩).any (·.explored)) _ = _
    rw [hunexplored]
  have hfiles : (((sessionOn [("p", selfImport)]).registry.package? ⟨1⟩).map (·.files)).getD [] =
      ["p"] := by decide +kernel
  induction depth generalizing log with
  | zero =>
    refine ⟨log, ?_⟩
    unfold analyzePackage
    exact (bind_eq_of_ok (hguard log)).trans rfl
  | succ depth ih =>
    obtain ⟨log', hnested⟩ := ih ((log.push (.parse ⟨1⟩ "p")).push (.locate "p" "."))
    refine ⟨log', ?_⟩
    unfold analyzePackage
    refine (bind_eq_of_ok (hguard log)).trans ?_
    change explore (analyzePackage depth) ⟨1⟩ (selfImportSession log) = _
    have hvisit : visitFiles (analyzePackage depth) ⟨1⟩
        ((((sessionOn [("p", selfImport)]).registry.package? ⟨1⟩).map (·.files)).getD [])
        (selfImportSession log) = .error .tooDeep (selfImportSession log') := by
      rw [hfiles]
      exact bind_eq_of_error (visitFile_selfImport hnested)
    have hget : Session.package? ⟨1⟩ (selfImportSession log) =
      .ok ((sessionOn [("p", selfImport)]).registry.package? ⟨1⟩) (selfImportSession log) := rfl
    exact (bind_eq_of_ok hget).trans (bind_eq_of_error hvisit)

/-- No depth is enough for the imports of this one package. -/
theorem self_import_has_no_bound :
    ¬∃ depth, ∀ env', analyzePackage depth ⟨1⟩ (sessionOn [("p", selfImport)]) ≠
      .error .tooDeep env' := by
  rintro ⟨depth, hbounded⟩
  obtain ⟨log, hnested⟩ := selfImport_nests depth #[]
  exact hbounded _ hnested

end GoPackages
