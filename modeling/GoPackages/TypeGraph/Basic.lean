import GoPackages.Id
import GoPackages.OrderedMap
import GoPackages.Source.Tree
import GoPackages.StructTag.Basic

/-!
The store of all references and types of a session. A reference is a named entry, a decorator
around another reference, or an alias that stands for another reference. A named entry starts
without a type when the name is used before its declaration; its methods are kept on the entry, so
they are there whenever the type arrives.
-/
namespace GoPackages

/-- Methods by name in order of first registration. -/
abbrev MethodSet := OrderedMap TypeId

/-- A type constructor that keeps the name of what it wraps. -/
inductive Decorator where
  | pointer
  | array
  | channel
  | ellipsis
  deriving DecidableEq, Repr

structure NamedRef where
  name : String
  package : Option PackageId
  type : Option TypeId := none
  methods : MethodSet := {}
  deriving DecidableEq, Repr

inductive RefEntry where
  | named (entry : NamedRef)
  | decorated (decorator : Decorator) (inner : RefId)
  /-- A name that was declared to stand for another reference. -/
  | aliasOf (target : RefId)
  deriving DecidableEq, Repr

/-- A field of a struct type. An embedded field carries the name of its type. -/
structure StructField where
  name : String
  type : RefId
  tag : Tag
  doc : Doc
  embedded : Bool
  deriving DecidableEq, Repr

structure StructType where
  doc : Doc := []
  fields : List StructField := []
  /-- The interfaces recorded as implemented. -/
  interfaces : List TypeId := []
  deriving DecidableEq, Repr

structure InterfaceType where
  doc : Doc := []
  methods : MethodSet := {}
  deriving DecidableEq, Repr

/-- A parameter, result or receiver; one without a name carries the empty name. -/
structure Argument where
  name : String
  type : RefId
  deriving DecidableEq, Repr

/-- A function, a method or a function type. -/
structure MethodType where
  doc : Doc := []
  receiver : Option Argument := none
  arguments : List Argument := []
  results : List Argument := []
  deriving DecidableEq, Repr

structure MapType where
  key : RefId
  value : RefId
  deriving DecidableEq, Repr

inductive TypeKind where
  | base
  | struct (type : StructType)
  | interface (type : InterfaceType)
  | method (type : MethodType)
  | map (type : MapType)
  deriving DecidableEq, Repr

/-- Structs and base types have the methods of the entry that they were bound to. -/
def TypeKind.isDefined : TypeKind → Bool
  | .base | .struct _ => true
  | .interface _ | .method _ | .map _ => false

structure TypeData where
  name : String
  package : Option PackageId
  kind : TypeKind
  /-- The named entry that the type was last bound to. -/
  declaredBy : Option RefId := none
  deriving DecidableEq, Repr

structure TypeGraph where
  refs : Array RefEntry
  types : Array TypeData
  deriving DecidableEq, Repr

namespace TypeGraph

def emptyInterfaceName : String := "interface\x7b\x7d"

/-- The graph of every session starts with the empty interface. -/
def new : TypeGraph where
  refs := #[.named { name := emptyInterfaceName, package := none, type := some ⟨0⟩ }]
  types := #[{ name := emptyInterfaceName, package := none, kind := .interface {} }]

instance : Inhabited TypeGraph := ⟨new⟩

def emptyInterface : RefId := ⟨0⟩

def entryAt? (g : TypeGraph) (r : RefId) : Option RefEntry := g.refs[r.index]?

def typeAt? (g : TypeGraph) (ty : TypeId) : Option TypeData := g.types[ty.index]?

def refCount (g : TypeGraph) : Nat := g.refs.size

def typeCount (g : TypeGraph) : Nat := g.types.size

def addRef (g : TypeGraph) (entry : RefEntry) : RefId × TypeGraph :=
  (⟨g.refs.size⟩, { g with refs := g.refs.push entry })

def addType (g : TypeGraph) (data : TypeData) : TypeId × TypeGraph :=
  (⟨g.types.size⟩, { g with types := g.types.push data })

def placeholder (g : TypeGraph) (package : Option PackageId) (name : String) : RefId × TypeGraph :=
  g.addRef (.named { name, package })

def fresh (g : TypeGraph) (package : Option PackageId) (name : String) (ty : TypeId) :
    RefId × TypeGraph :=
  g.addRef (.named { name, package, type := some ty })

def decorate (g : TypeGraph) (decorator : Decorator) (inner : RefId) : RefId × TypeGraph :=
  g.addRef (.decorated decorator inner)

@[simp] theorem refCount_addRef (g : TypeGraph) (entry : RefEntry) :
    (g.addRef entry).2.refCount = g.refCount + 1 := by
  simp [addRef, refCount]

@[simp] theorem entryAt?_addRef_self (g : TypeGraph) (entry : RefEntry) :
    (g.addRef entry).2.entryAt? (g.addRef entry).1 = some entry := by
  simp [addRef, entryAt?]

theorem entryAt?_addRef_of_lt {g : TypeGraph} {r : RefId} (h : r.index < g.refCount)
    (entry : RefEntry) : (g.addRef entry).2.entryAt? r = g.entryAt? r := by
  have hr : r.index ≠ g.refs.size := Nat.ne_of_lt h
  simp [addRef, entryAt?, Array.getElem?_push, hr]

@[simp] theorem typeCount_addType (g : TypeGraph) (data : TypeData) :
    (g.addType data).2.typeCount = g.typeCount + 1 := by
  simp [addType, typeCount]

@[simp] theorem typeAt?_addType_self (g : TypeGraph) (data : TypeData) :
    (g.addType data).2.typeAt? (g.addType data).1 = some data := by
  simp [addType, typeAt?]

theorem typeAt?_addType_of_lt {g : TypeGraph} {ty : TypeId} (h : ty.index < g.typeCount)
    (data : TypeData) : (g.addType data).2.typeAt? ty = g.typeAt? ty := by
  have ht : ty.index ≠ g.types.size := Nat.ne_of_lt h
  simp [addType, typeAt?, Array.getElem?_push, ht]

def modifyNamed (g : TypeGraph) (r : RefId) (f : NamedRef → NamedRef) : TypeGraph :=
  { g with refs := g.refs.modify r.index fun
      | .named entry => .named (f entry)
      | other => other }

def modifyType (g : TypeGraph) (ty : TypeId) (f : TypeData → TypeData) : TypeGraph :=
  { g with types := g.types.modify ty.index f }

def modifyStruct (g : TypeGraph) (ty : TypeId) (f : StructType → StructType) : TypeGraph :=
  g.modifyType ty fun data =>
    match data.kind with
    | .struct type => { data with kind := .struct (f type) }
    | _ => data

def modifyInterface (g : TypeGraph) (ty : TypeId) (f : InterfaceType → InterfaceType) :
    TypeGraph :=
  g.modifyType ty fun data =>
    match data.kind with
    | .interface type => { data with kind := .interface (f type) }
    | _ => data

@[simp] theorem refCount_modifyNamed (g : TypeGraph) (r : RefId) (f : NamedRef → NamedRef) :
    (g.modifyNamed r f).refCount = g.refCount := by
  simp [modifyNamed, refCount]

theorem entryAt?_modifyNamed_of_ne {r s : RefId} (h : r ≠ s) (g : TypeGraph)
    (f : NamedRef → NamedRef) : (g.modifyNamed r f).entryAt? s = g.entryAt? s := by
  have hi : r.index ≠ s.index := fun e => h (by cases r; cases s; exact congrArg RefId.mk e)
  simp [modifyNamed, entryAt?, Array.getElem?_modify, hi]

theorem entryAt?_modifyNamed_of_named {g : TypeGraph} {r : RefId} {entry : NamedRef}
    (h : g.entryAt? r = some (.named entry)) (f : NamedRef → NamedRef) :
    (g.modifyNamed r f).entryAt? r = some (.named (f entry)) := by
  unfold entryAt? at h
  simp [modifyNamed, entryAt?, Array.getElem?_modify, h]

theorem typeAt?_modifyType_of_ne {ty other : TypeId} (h : ty ≠ other) (g : TypeGraph)
    (f : TypeData → TypeData) : (g.modifyType ty f).typeAt? other = g.typeAt? other := by
  have hi : ty.index ≠ other.index := fun e =>
    h (by cases ty; cases other; exact congrArg TypeId.mk e)
  simp [modifyType, typeAt?, Array.getElem?_modify, hi]

def kind? (g : TypeGraph) (ty : TypeId) : Option TypeKind := (g.typeAt? ty).map TypeData.kind

def structType? (g : TypeGraph) (ty : TypeId) : Option StructType :=
  match g.kind? ty with
  | some (.struct type) => some type
  | _ => none

def interfaceType? (g : TypeGraph) (ty : TypeId) : Option InterfaceType :=
  match g.kind? ty with
  | some (.interface type) => some type
  | _ => none

def methodType? (g : TypeGraph) (ty : TypeId) : Option MethodType :=
  match g.kind? ty with
  | some (.method type) => some type
  | _ => none

/-- Fields that were added last come last. -/
def addFields (g : TypeGraph) (ty : TypeId) (fields : List StructField) : TypeGraph :=
  g.modifyStruct ty fun type => { type with fields := type.fields ++ fields }

/-- Adds a method to an interface, and returns the method that gave way. -/
def addInterfaceMethod (g : TypeGraph) (ty : TypeId) (name : String) (method : TypeId) :
    Option TypeId × TypeGraph :=
  ((g.interfaceType? ty).bind (·.methods.get? name),
    g.modifyInterface ty fun type => { type with methods := type.methods.insert name method })

end TypeGraph

def StructType.field? (type : StructType) (name : String) : Option StructField :=
  type.fields.find? (·.name == name)

end GoPackages
