import GoPackages.TypeGraph.Reference

/-!
Structural comparison of signatures, and interfaces satisfied by method sets. Names of parameters
and receivers take no part; parameter types are compared as references, aliases followed.
-/
namespace GoPackages.TypeGraph

def sameTypes (g : TypeGraph) : List Argument → List Argument → Bool
  | [], [] => true
  | a :: as, b :: bs => g.sameRef a.type b.type && sameTypes g as bs
  | _, _ => false

def sameSignature (g : TypeGraph) (a b : MethodType) : Bool :=
  g.sameTypes a.arguments b.arguments && g.sameTypes a.results b.results

def compatible (g : TypeGraph) (a b : TypeId) : Bool :=
  match g.methodType? a, g.methodType? b with
  | some a, some b => g.sameSignature a b
  | _, _ => false

/-- Whether the method set has a compatible method for every method that is wanted. -/
def provides (g : TypeGraph) (own wanted : MethodSet) : Bool :=
  wanted.entries.all fun (name, method) =>
    (own.get? name).any fun found => g.compatible found method

/-- Whether `iface` is an interface and the method set of `ty` provides all its methods. -/
def implements (g : TypeGraph) (ty iface : TypeId) : Bool :=
  match g.interfaceType? iface, g.methodsOf? ty with
  | some wanted, some own => g.provides own wanted.methods
  | _, _ => false

theorem sameTypes_iff {g : TypeGraph} {as bs : List Argument} :
    g.sameTypes as bs = true ↔
      as.map (fun a => g.canonical a.type) = bs.map fun a => g.canonical a.type := by
  induction as generalizing bs with
  | nil => cases bs <;> simp [sameTypes]
  | cons a rest ih =>
    cases bs with
    | nil => simp [sameTypes]
    | cons b bs => simp [sameTypes, sameRef, ih]

end GoPackages.TypeGraph
