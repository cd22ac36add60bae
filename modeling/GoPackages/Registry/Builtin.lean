import GoPackages.Registry.Basic

/-!
The package of predeclared names, which every file sees without importing it.
-/
namespace GoPackages

def builtinPath : String := "builtin"

/-- The predeclared types that are neither structs nor interfaces, in the order of declaration. -/
def baseTypeNames : List String :=
  ["bool", "byte", "complex64", "complex128", "float32", "float64", "int", "int8", "int16",
    "int32", "int64", "rune", "string", "uint", "uint8", "uint16", "uint32", "uint64", "uintptr",
    "comparable"]

namespace Registry

def declareError (reg : Registry) (pkg : PackageId) : Registry :=
  let (iface, reg) := reg.declare pkg "error" (.interface {})
  match reg.ref? pkg "string" with
  | none => reg
  | some string =>
    let kind := .method { results := [⟨"", string⟩] }
    let (ty, reg) := reg.onGraph (·.addType { name := "Error", package := some pkg, kind })
    reg.withGraph fun g => (g.addInterfaceMethod iface "Error" ty).2

def declareBuiltins (reg : Registry) (pkg : PackageId) : Registry :=
  let reg := baseTypeNames.foldl (fun reg name => (reg.declare pkg name .base).2) reg
  let reg := reg.register pkg "any" TypeGraph.emptyInterface
  (reg.declareError pkg).modifyPackage pkg (·.markExplored)

/-- The names that the analysis of files relies on. -/
def hasBuiltins (reg : Registry) (pkg : PackageId) : Bool :=
  ["string", "int", "bool", "error"].all fun name => (reg.ref? pkg name).isSome

def new : Registry :=
  let builtin : Package := { name := builtinPath, importPath := builtinPath }
  let reg : Registry := { packages := #[builtin] }
  reg.declareBuiltins ⟨0⟩

def builtin? (reg : Registry) : Option PackageId :=
  (reg.byPath? builtinPath).filter reg.hasBuiltins

end Registry

end GoPackages
