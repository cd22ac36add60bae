import GoPackages.TypeGraph.Basic

/-!
One package: its declarations in declaration order and the table of its named references. A name
that is declared again takes the place of its earlier declaration.
-/
namespace GoPackages

/-- Declared types in order, and the type that each name was last declared as. -/
structure DeclList where
  ids : List TypeId := []
  byName : OrderedMap TypeId := {}
  deriving DecidableEq, Repr

namespace DeclList

/-- A new name goes to the end; a known name replaces the first occurrence of its last type. -/
def declare (d : DeclList) (name : String) (ty : TypeId) : DeclList :=
  match d.byName.getThenInsert? name ty with
  | (none, byName) => ⟨d.ids ++ [ty], byName⟩
  | (some previous, byName) => ⟨d.ids.replace previous ty, byName⟩

def get? (d : DeclList) (name : String) : Option TypeId := d.byName.get? name

@[simp] theorem byName_declare (d : DeclList) (name : String) (ty : TypeId) :
    (d.declare name ty).byName = d.byName.insert name ty := by
  unfold declare
  rw [← OrderedMap.getThenInsert?_snd]
  split <;> simp_all

@[simp] theorem get?_declare_self (d : DeclList) (name : String) (ty : TypeId) :
    (d.declare name ty).get? name = some ty := by simp [get?]

theorem ids_declare_of_none {d : DeclList} {name : String} (h : d.get? name = none) (ty : TypeId) :
    (d.declare name ty).ids = d.ids ++ [ty] := by
  have : (d.byName.getThenInsert? name ty).1 = none := by simpa [get?] using h
  unfold declare
  split <;> simp_all

theorem ids_declare_of_some {d : DeclList} {name : String} {previous : TypeId}
    (h : d.get? name = some previous) (ty : TypeId) :
    (d.declare name ty).ids = d.ids.replace previous ty := by
  have : (d.byName.getThenInsert? name ty).1 = some previous := by simpa [get?] using h
  unfold declare
  split <;> simp_all

end DeclList

/-- A variable or constant; without a declared or evident type it has none. -/
structure Variable where
  name : String
  type : Option RefId
  doc : Doc
  deriving DecidableEq, Repr

structure PackageInfo where
  name : String
  importPath : String
  dir : String
  files : List String
  deriving DecidableEq, Repr

structure Package where
  name : String
  importPath : String
  dir : String := ""
  files : List String := []
  doc : Doc := []
  functions : DeclList := {}
  structs : DeclList := {}
  interfaces : DeclList := {}
  /-- Every declared type: structs, interfaces and the others. -/
  types : DeclList := {}
  vars : OrderedMap Variable := {}
  consts : OrderedMap Variable := {}
  refs : OrderedMap RefId := {}
  parent : Option PackageId := none
  subpackages : List PackageId := []
  explored : Bool := false
  deriving DecidableEq, Repr

namespace Package

def ofInfo (info : PackageInfo) : Package where
  name := info.name
  importPath := info.importPath
  dir := info.dir
  files := info.files

def declareFunction (p : Package) (name : String) (ty : TypeId) : Package :=
  { p with functions := p.functions.declare name ty }

def declareType (p : Package) (name : String) (ty : TypeId) : Package :=
  { p with types := p.types.declare name ty }

def declareStruct (p : Package) (name : String) (ty : TypeId) : Package :=
  { p with structs := p.structs.declare name ty, types := p.types.declare name ty }

def declareInterface (p : Package) (name : String) (ty : TypeId) : Package :=
  { p with interfaces := p.interfaces.declare name ty, types := p.types.declare name ty }

/-- Lists a type under every heading that its kind belongs to. -/
def declareKind (p : Package) (name : String) (ty : TypeId) : TypeKind → Package
  | .struct _ => p.declareStruct name ty
  | .interface _ => p.declareInterface name ty
  | .base | .method _ | .map _ => p.declareType name ty

def declareVariable (p : Package) (v : Variable) : Package :=
  { p with vars := p.vars.insert v.name v }

def declareConstant (p : Package) (v : Variable) : Package :=
  { p with consts := p.consts.insert v.name v }

def register (p : Package) (name : String) (r : RefId) : Package :=
  { p with refs := p.refs.insert name r }

def ref? (p : Package) (name : String) : Option RefId := p.refs.get? name

def appendDoc (p : Package) (lines : Doc) : Package := { p with doc := p.doc ++ lines }

def markExplored (p : Package) : Package := { p with explored := true }

end Package

end GoPackages
