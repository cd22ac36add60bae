import GoPackages.Error
import GoPackages.Package
import GoPackages.Text.Split
import GoPackages.TypeGraph.Binding

/-!
All packages of a session with the type graph they share. Packages are known by their import paths
and form a tree: the parent of a package has its import path up to the last slash. A name of a
package has one reference, which is made at its first use or declaration.
-/
namespace GoPackages

structure Registry where
  graph : TypeGraph := .new
  packages : Array Package := #[]
  deriving DecidableEq, Repr

def parentPath? (importPath : String) : Option String := Text.beforeLast? '/' importPath

/-- Whether an import path is one segment below another: after that path and a slash it goes on
without a further slash. -/
def isSegmentBelow (above importPath : String) : Bool :=
  (Text.afterPrefix? (above ++ "/") importPath).any fun rest => !rest.toList.contains '/'

namespace Registry

instance : Inhabited Registry := ⟨{}⟩

def package? (reg : Registry) (id : PackageId) : Option Package := reg.packages[id.index]?

def byPath? (reg : Registry) (importPath : String) : Option PackageId :=
  (reg.packages.findIdx? (·.importPath == importPath)).map PackageId.mk

def ids (reg : Registry) : List PackageId := (List.range reg.packages.size).map PackageId.mk

def modifyPackage (reg : Registry) (id : PackageId) (f : Package → Package) : Registry :=
  { reg with packages := reg.packages.modify id.index f }

def withGraph (reg : Registry) (f : TypeGraph → TypeGraph) : Registry :=
  { reg with graph := f reg.graph }

def onGraph {α : Type} (reg : Registry) (f : TypeGraph → α × TypeGraph) : α × Registry :=
  let (answer, graph) := f reg.graph
  (answer, { reg with graph })

def adopt (reg : Registry) (parent child : PackageId) : Registry :=
  (reg.modifyPackage child fun p => { p with parent := some parent }).modifyPackage parent
    fun p => { p with subpackages := p.subpackages ++ [child] }

/-- The registered packages without a parent that belong under `importPath`. -/
def orphansOf (reg : Registry) (importPath : String) : List PackageId :=
  reg.ids.filter fun id =>
    (reg.package? id).any fun p => p.parent.isNone && isSegmentBelow importPath p.importPath

def append (reg : Registry) (p : Package) : Except Error (PackageId × Registry) :=
  match reg.byPath? p.importPath with
  | some _ => .error (.duplicatePackage p.importPath)
  | none =>
    let id : PackageId := ⟨reg.packages.size⟩
    let added := { reg with packages := reg.packages.push p }
    let below :=
      match (parentPath? p.importPath).bind reg.byPath? with
      | some parent => added.adopt parent id
      | none => added
    .ok (id, (below.orphansOf p.importPath).foldl (fun reg child => reg.adopt id child) below)

/-- The package that was located, registered at first sight. -/
def ensurePackage (reg : Registry) (info : PackageInfo) : Except Error (PackageId × Registry) :=
  match reg.byPath? info.importPath with
  | some id => .ok (id, reg)
  | none => reg.append (.ofInfo info)

def ref? (reg : Registry) (pkg : PackageId) (name : String) : Option RefId :=
  (reg.package? pkg).bind (·.ref? name)

def register (reg : Registry) (pkg : PackageId) (name : String) (r : RefId) : Registry :=
  reg.modifyPackage pkg (·.register name r)

/-- The reference that a package has for a name and whether it had one; else a new one without a
type is registered. -/
def ensureRef (reg : Registry) (pkg : PackageId) (name : String) : (RefId × Bool) × Registry :=
  match reg.ref? pkg name with
  | some r => ((r, true), reg)
  | none =>
    let (r, reg) := reg.onGraph (·.placeholder (some pkg) name)
    ((r, false), reg.register pkg name r)

/-- Declares a type: the package's reference of that name is bound to it, and the package lists it
under its kind. -/
def declare (reg : Registry) (pkg : PackageId) (name : String) (kind : TypeKind) :
    TypeId × Registry :=
  let (ty, reg) := reg.onGraph (·.addType { name, package := some pkg, kind })
  let ((r, _), reg) := reg.ensureRef pkg name
  let reg := reg.withGraph fun g => (g.bind r ty).2
  (ty, reg.modifyPackage pkg (·.declareKind name ty kind))

def methodByName? (reg : Registry) (ty : TypeId) (name : String) : Option TypeId :=
  (reg.graph.methodsOf? ty).bind (·.get? name)

theorem ref?_modifyPackage_of_ne {pkg other : PackageId} (h : pkg ≠ other) (reg : Registry)
    (f : Package → Package) (name : String) :
    (reg.modifyPackage pkg f).ref? other name = reg.ref? other name := by
  have : pkg.index ≠ other.index := fun e => h (by cases pkg; cases other; simp_all)
  simp [ref?, package?, modifyPackage, Array.getElem?_modify, this]

theorem package?_modifyPackage_self {reg : Registry} {pkg : PackageId} {p : Package}
    (h : reg.package? pkg = some p) (f : Package → Package) :
    (reg.modifyPackage pkg f).package? pkg = some (f p) := by
  unfold package? at h
  simp [package?, modifyPackage, Array.getElem?_modify, h]

theorem ref?_register_self {reg : Registry} {pkg : PackageId} {p : Package}
    (h : reg.package? pkg = some p) (name : String) (r : RefId) :
    (reg.register pkg name r).ref? pkg name = some r := by
  rw [ref?, register, package?_modifyPackage_self h]
  exact OrderedMap.get?_insert_self p.refs name r

theorem ref?_register_of_ne {name other : String} (h : name ≠ other) (reg : Registry)
    (pkg : PackageId) (r : RefId) :
    (reg.register pkg name r).ref? pkg other = reg.ref? pkg other := by
  cases hp : reg.package? pkg with
  | none =>
    have : (reg.register pkg name r).package? pkg = none := by
      unfold package? at hp
      simp [package?, register, modifyPackage, Array.getElem?_modify, hp]
    rw [ref?, ref?, hp, this]
  | some p =>
    rw [ref?, ref?, register, package?_modifyPackage_self hp, hp]
    exact OrderedMap.get?_insert_of_ne h p.refs r

theorem ensureRef_of_some {reg : Registry} {pkg : PackageId} {name : String} {r : RefId}
    (h : reg.ref? pkg name = some r) : reg.ensureRef pkg name = ((r, true), reg) := by
  simp [ensureRef, h]

end Registry

end GoPackages
