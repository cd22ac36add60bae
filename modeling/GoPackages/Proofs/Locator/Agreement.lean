import GoPackages.Proofs.Environment.RepeatedImports
import GoPackages.Proofs.Locator.Components

/-!
# Packages by path and by directory

A package is located by its import path in the first root that has the directory, and by its
directory in the first root that the path of the directory begins with. These need not be the same
root. Where no root is inside another one, both are the same place, so what is located by path is
located by directory as well, and a session has one package for the two.
-/
namespace GoPackages

open Environment (Imports)

namespace FileSystem

variable {fs : FileSystem} {path dir : String} {info : PackageInfo}

theorem except_bind_ok {α β ε : Type} {m : Except ε α} {f : α → Except ε β} {b : β}
    (h : (m >>= f) = .ok b) : ∃ a, m = .ok a ∧ f a = .ok b := by
  cases m with
  | error e => cases h
  | ok a => exact ⟨a, rfl, h⟩

theorem scan_eq_ok (h : fs.scan path dir = .ok info) : info.dir = dir ∧ info.importPath = path := by
  unfold scan at h
  split at h
  next =>
    obtain ⟨names, -, h⟩ := except_bind_ok h
    split at h
    next => cases h
    next first rest hfiles =>
      obtain ⟨text, -, h⟩ := except_bind_ok h
      split at h
      next => cases h
      next =>
        cases h
        exact ⟨rfl, rfl⟩
  next => cases h

end FileSystem

namespace SourceRoots

variable {s : SourceRoots} {fs : FileSystem} {path fromDir : String} {info : PackageInfo}

/-- No root is inside another one; the same root may be listed again, or written differently. -/
def Unnested (s : SourceRoots) : Prop :=
  ∀ outer ∈ s.roots, ∀ inner ∈ s.roots,
    Path.components outer <+: Path.components inner →
      Path.components outer = Path.components inner

instance (s : SourceRoots) : Decidable s.Unnested :=
  inferInstanceAs (Decidable (∀ _ ∈ _, ∀ _ ∈ _, _))

/-- Every root that can be stripped from a directory below a root is that root, if no root is inside
another one. -/
theorem Unnested.components_eq (hs : s.Unnested) (hpath : Path.OrdinaryPath path)
    {root other : String} (hroot : root ∈ s.roots) (hother : other ∈ s.roots) {rest : String}
    (h : Path.stripPrefix? other (Path.join root path) = some rest) :
    Path.components other = Path.components root := by
  have hstripped := Path.prefix_of_stripPrefix? h
  have hbelow : Path.components root <+: Path.components (Path.join root path) := by
    rw [Path.components_join hpath]
    exact List.prefix_append _ _
  rcases List.prefix_or_prefix_of_prefix hstripped hbelow with hinside | hinside
  · exact hs other hother root hroot hinside
  · exact (hs root hroot other hother hinside).symm

theorem importPathOf_join (hs : s.Unnested) (hpath : Path.OrdinaryPath path) {root : String}
    (hroot : root ∈ s.roots) : s.importPathOf (Path.join root path) = path := by
  have hfound : s.roots.findSome? (fun r => Path.stripPrefix? r (Path.join root path)) =
      some path := by
    cases hfirst : s.roots.findSome? fun r => Path.stripPrefix? r (Path.join root path) with
    | none =>
      have hnone := List.findSome?_eq_none_iff.mp hfirst root hroot
      exact nomatch hnone.symm.trans (Path.stripPrefix?_join hpath rfl)
    | some rest =>
      obtain ⟨other, hother, hrest⟩ := List.exists_of_findSome?_eq_some hfirst
      have hsame := hs.components_eq hpath hroot hother hrest
      exact hrest.symm.trans (Path.stripPrefix?_join hpath hsame)
  have hsome : path.isEmpty = false := by
    rw [Bool.eq_false_iff, ne_eq, String.isEmpty_iff]
    rintro rfl
    exact hpath.toList_ne_nil rfl
  have hslashes : path.toList.map (fun c => if c = '\\' then '/' else c) = path.toList := by
    conv_rhs => rw [← List.map_id path.toList]
    apply List.map_congr_left
    intro c hc
    apply if_neg
    rintro rfl
    exact hpath.no_backslash hc
  rw [importPathOf, hfound]
  simp only [hsome, hslashes, String.ofList_toList, Bool.false_eq_true, if_false]

theorem dir_of_locate (hpath : Path.OrdinaryPath path) (h : s.locate fs path fromDir = .ok info) :
    fs.scan path info.dir = .ok info ∧ ∃ root ∈ s.roots, info.dir = Path.join root path := by
  rw [locate, hpath.not_local, if_neg Bool.false_ne_true] at h
  split at h
  next dir hdir =>
    obtain ⟨root, hroot, rfl⟩ := List.mem_map.mp (List.mem_of_find?_eq_some hdir)
    obtain ⟨hsame, -⟩ := FileSystem.scan_eq_ok h
    rw [hsame]
    exact ⟨h, root, hroot, rfl⟩
  next => cases h

theorem locateDir_of_locate (hs : s.Unnested) (hpath : Path.OrdinaryPath path)
    (h : s.locate fs path fromDir = .ok info) : s.locateDir fs info.dir = .ok info := by
  obtain ⟨hscan, root, hroot, hdir⟩ := dir_of_locate hpath h
  have himport : s.importPathOf info.dir = path := by
    rw [hdir]
    exact importPathOf_join hs hpath hroot
  rw [locateDir, himport]
  exact hscan

/-- It makes no difference where a package is located from, if the path is none from there. -/
theorem locate_from_anywhere (hpath : Path.OrdinaryPath path) (fromDir fromDir' : String) :
    s.locate fs path fromDir = s.locate fs path fromDir' := by
  rw [locate, locate, hpath.not_local, if_neg Bool.false_ne_true, if_neg Bool.false_ne_true]

end SourceRoots

section Sessions

variable {s : SourceRoots} {fs : FileSystem} {path : String} {info : PackageInfo}
  {env env' : Environment} {q : PackageId}

theorem importDir_of_importPackage (hr : env.registry.WellFormed) (hb : env.builtin ≠ none)
    (hlocate : env.locate path = .ok info) (hpath : info.importPath = path)
    (hdir : env.locator.locateDir info.dir = .ok info) {depth : Nat}
    (h : importPackage depth path env = .ok q env') (depth' : Nat) :
    importDir depth' info.dir env' = .ok q (env'.noted [.locateDir info.dir]) := by
  rcases importPackage_imports hr hb h with ⟨rfl, hq, hex⟩ | ⟨-, located, hlocated, himports⟩
  · exact importDir_located hdir (hpath.symm ▸ hq) hex depth'
  · obtain rfl := Except.ok.inj (hlocated.symm.trans hlocate)
    exact importDir_located (himports.locator ▸ hdir) himports.found himports.explored depth'

theorem importPackage_of_importDir (hr : env.registry.WellFormed) (hb : env.builtin ≠ none)
    (hpath : info.importPath = path) (hdir : env.locator.locateDir info.dir = .ok info)
    {depth : Nat} (h : importDir depth info.dir env = .ok q env') (depth' : Nat) :
    importPackage depth' path env' = .ok q env' := by
  obtain ⟨located, hlocated, himports⟩ := importDir_imports hr hb h
  obtain rfl := Except.ok.inj (hlocated.symm.trans hdir)
  exact importPackage_known (hpath ▸ himports.found) himports.explored depth'

end Sessions

/-- What is located by an ordinary path below roots of which none is inside another one is located
by its directory too. In every session the package has one identity: after an import by path, the
directory is only located and gives the same package, and after an import by directory the path
gives it at once. -/
theorem located_by_path_and_by_directory {s : SourceRoots} (hs : s.Unnested) (fs : FileSystem)
    {path : String} (hpath : Path.OrdinaryPath path) {fromDir : String} {info : PackageInfo}
    (h : s.locate fs path fromDir = .ok info) :
    s.locateDir fs info.dir = .ok info ∧
      ∀ (currentDir : Option String) (parser : SourceParser) (requests : List Environment.Request),
        (Environment.new currentDir (s.locator fs) parser).NamesAll requests →
          let env := (Environment.new currentDir (s.locator fs) parser).performAll requests
          ∀ depth q env',
            (importPackage depth path env = .ok q env' → ∀ depth',
              importDir depth' info.dir env' = .ok q (env'.noted [.locateDir info.dir])) ∧
            (importDir depth info.dir env = .ok q env' → ∀ depth',
              importPackage depth' path env' = .ok q env') := by
  have hdir : s.locateDir fs info.dir = .ok info := SourceRoots.locateDir_of_locate hs hpath h
  refine ⟨hdir, ?_⟩
  intro currentDir parser requests hnames env depth q env'
  have hown : info.importPath = path :=
    (FileSystem.scan_eq_ok (SourceRoots.dir_of_locate hpath h).1).2
  have hw : env.WellFormed := Environment.wellFormed_performAll
    (Environment.new_wellFormed currentDir (s.locator fs) parser) hnames
  have hb := Environment.performAll_builtin currentDir (s.locator fs) parser hnames
  obtain ⟨hlocator, -⟩ := Environment.performAll_locator currentDir (s.locator fs) parser hnames
  have hlocated : env.locate path = .ok info := by
    rw [Environment.locate, hlocator]
    exact (SourceRoots.locate_from_anywhere hpath _ _).trans h
  have hthere : env.locator.locateDir info.dir = .ok info := hlocator.symm ▸ hdir
  constructor
  · intro hrun depth'
    exact importDir_of_importPackage hw.registry hb hlocated hown hthere hrun depth'
  · intro hrun depth'
    exact importPackage_of_importDir hw.registry hb hown hthere hrun depth'

def secondRoot : FileSystem where
  isDirectory path := path == "s/a/b"
  fileNames _ := .ok ["x_test.go", "x.go"]
  readText _ := .ok "// Package m.\npackage m"

def twoRoots : SourceRoots := ⟨["r", "s"]⟩

/-- The package is imported by path and then by directory, and the other way round. -/
theorem secondRoot_located_both_ways :
    let info : PackageInfo := ⟨"m", "a/b", "s/a/b", ["s/a/b/x.go"]⟩
    let start := Environment.new none (twoRoots.locator secondRoot) fun _ => .ok ⟨"m", none, []⟩
    let byPath := stateAfter (importPackage 1 "a/b") start
    let byDir := stateAfter (importDir 1 "s/a/b") start
    (twoRoots.Unnested ∧ Path.OrdinaryPath "a/b" ∧
        twoRoots.locate secondRoot "a/b" "." = .ok info ∧ start.NamesAll []) ∧
      twoRoots.locateDir secondRoot "s/a/b" = .ok info ∧
      (importPackage 1 "a/b" start = .ok ⟨1⟩ byPath ∧
        importDir 0 "s/a/b" byPath = .ok ⟨1⟩ (byPath.noted [.locateDir "s/a/b"])) ∧
      importDir 1 "s/a/b" start = .ok ⟨1⟩ byDir ∧ importPackage 0 "a/b" byDir = .ok ⟨1⟩ byDir := by
  intro info start byPath byDir
  have hs : twoRoots.Unnested := by decide +kernel
  have hpath : Path.OrdinaryPath "a/b" := by decide +kernel
  have hlocate : twoRoots.locate secondRoot "a/b" "." = .ok info := by decide +kernel
  have hnames : start.NamesAll [] := by decide +kernel
  have hbyPath : importPackage 1 "a/b" start = .ok ⟨1⟩ byPath :=
    eq_ok_stateAfter (by decide +kernel)
  have hbyDir : importDir 1 "s/a/b" start = .ok ⟨1⟩ byDir := eq_ok_stateAfter (by decide +kernel)
  obtain ⟨hdir, hsession⟩ := located_by_path_and_by_directory hs secondRoot hpath hlocate
  have hboth := hsession none (fun _ => .ok ⟨"m", none, []⟩) [] hnames
  exact ⟨⟨hs, hpath, hlocate, hnames⟩, hdir, ⟨hbyPath, (hboth 1 ⟨1⟩ byPath).1 hbyPath 0⟩, hbyDir,
    (hboth 1 ⟨1⟩ byDir).2 hbyDir 0⟩

end GoPackages
