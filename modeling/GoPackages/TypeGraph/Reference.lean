import GoPackages.TypeGraph.Basic

/-!
Reading a reference. Decorators and aliases lead to a named entry, the root, from which a reference
has its name, package, type and methods. Aliases alone lead to the canonical reference, and two
references are the same when their canonical references are.
-/
namespace GoPackages

namespace RefEntry

def inner? : RefEntry → Option RefId
  | .named _ => none
  | .decorated _ inner => some inner
  | .aliasOf target => some target

def aliasTarget? : RefEntry → Option RefId
  | .aliasOf target => some target
  | .named _ | .decorated _ _ => none

end RefEntry

namespace TypeGraph

/-- Takes steps while there is one, at most `steps` of them. -/
def follow (g : TypeGraph) (next? : RefEntry → Option RefId) : Nat → RefId → RefId
  | 0, r => r
  | steps + 1, r =>
    match (g.entryAt? r).bind next? with
    | some s => follow g next? steps s
    | none => r

/-- The named entry behind decorators and aliases. No path is longer than there are entries. -/
def namedRoot (g : TypeGraph) (r : RefId) : RefId := g.follow RefEntry.inner? g.refs.size r

/-- The reference that stands behind aliases. -/
def canonical (g : TypeGraph) (r : RefId) : RefId := g.follow RefEntry.aliasTarget? g.refs.size r

def sameRef (g : TypeGraph) (a b : RefId) : Bool := g.canonical a == g.canonical b

/-- The decorators on the way to the named entry, in at most `steps` steps. -/
def decoratorsWithin (g : TypeGraph) : Nat → RefId → List Decorator
  | 0, _ => []
  | steps + 1, r =>
    match g.entryAt? r with
    | some (.decorated decorator inner) => decorator :: decoratorsWithin g steps inner
    | some (.aliasOf target) => decoratorsWithin g steps target
    | some (.named _) | none => []

def decorators (g : TypeGraph) (r : RefId) : List Decorator := g.decoratorsWithin g.refs.size r

def decorator? (g : TypeGraph) (r : RefId) : Option (Decorator × RefId) :=
  match g.entryAt? (g.canonical r) with
  | some (.decorated decorator inner) => some (decorator, inner)
  | _ => none

def named? (g : TypeGraph) (r : RefId) : Option NamedRef :=
  match g.entryAt? (g.namedRoot r) with
  | some (.named entry) => some entry
  | _ => none

def refName (g : TypeGraph) (r : RefId) : String := (g.named? r).elim "" (·.name)

def refPackage (g : TypeGraph) (r : RefId) : Option PackageId := (g.named? r).bind (·.package)

def resolved? (g : TypeGraph) (r : RefId) : Option TypeId := (g.named? r).bind (·.type)

def isResolved (g : TypeGraph) (r : RefId) : Bool := (g.resolved? r).isSome

def refMethods (g : TypeGraph) (r : RefId) : MethodSet := (g.named? r).elim {} (·.methods)

/-- Interfaces list their methods; structs and base types have those of the entry they were bound
to. Other types have no method set. -/
def methodsOf? (g : TypeGraph) (ty : TypeId) : Option MethodSet :=
  (g.typeAt? ty).bind fun data =>
    match data.kind with
    | .interface type => some type.methods
    | .base | .struct _ => data.declaredBy.map g.refMethods
    | .method _ | .map _ => none

/-- A map is a type of its own, named after its key and value. -/
def mapOf (g : TypeGraph) (package : Option PackageId) (key value : RefId) : RefId × TypeGraph :=
  let name := "map[" ++ g.refName key ++ "]" ++ g.refName value
  let (ty, g) := g.addType { name, package, kind := .map ⟨key, value⟩ }
  g.fresh package name ty

theorem follow_of_none {g : TypeGraph} {next? : RefEntry → Option RefId} {r : RefId}
    (h : (g.entryAt? r).bind next? = none) (steps : Nat) : g.follow next? steps r = r := by
  cases steps <;> simp [follow, h]

theorem follow_succ_of_some {g : TypeGraph} {next? : RefEntry → Option RefId} {r s : RefId}
    (h : (g.entryAt? r).bind next? = some s) (steps : Nat) :
    g.follow next? (steps + 1) r = g.follow next? steps s := by
  simp [follow, h]

theorem follow_congr {g g' : TypeGraph} {next? : RefEntry → Option RefId}
    (h : ∀ s, (g'.entryAt? s).bind next? = (g.entryAt? s).bind next?) (steps : Nat) (r : RefId) :
    g'.follow next? steps r = g.follow next? steps r := by
  induction steps generalizing r with
  | zero => rfl
  | succ n ih =>
    rw [follow, follow, h r]
    split
    · exact ih _
    · rfl

/-- A change of what a named entry holds moves no way out of an entry. -/
theorem entryAt?_bind_modifyNamed {next? : RefEntry → Option RefId}
    (hn : ∀ entry, next? (.named entry) = none) (g : TypeGraph) (r s : RefId)
    (f : NamedRef → NamedRef) :
    ((g.modifyNamed r f).entryAt? s).bind next? = (g.entryAt? s).bind next? := by
  simp only [modifyNamed, entryAt?, Array.getElem?_modify]
  split
  · cases g.refs[s.index]? with
    | none => rfl
    | some e =>
      cases e with
      | named entry => exact (hn _).trans (hn _).symm
      | decorated decorator inner => rfl
      | aliasOf target => rfl
  · rfl

@[simp] theorem namedRoot_modifyNamed (g : TypeGraph) (r s : RefId) (f : NamedRef → NamedRef) :
    (g.modifyNamed r f).namedRoot s = g.namedRoot s := by
  have hs : (g.modifyNamed r f).refs.size = g.refs.size := refCount_modifyNamed g r f
  rw [namedRoot, hs]
  exact follow_congr (fun s => entryAt?_bind_modifyNamed (fun _ => rfl) g r s f) _ s

@[simp] theorem canonical_modifyNamed (g : TypeGraph) (r s : RefId) (f : NamedRef → NamedRef) :
    (g.modifyNamed r f).canonical s = g.canonical s := by
  have hs : (g.modifyNamed r f).refs.size = g.refs.size := refCount_modifyNamed g r f
  rw [canonical, hs]
  exact follow_congr (fun s => entryAt?_bind_modifyNamed (fun _ => rfl) g r s f) _ s

@[simp] theorem namedRoot_modifyType (g : TypeGraph) (ty : TypeId) (r : RefId)
    (f : TypeData → TypeData) : (g.modifyType ty f).namedRoot r = g.namedRoot r := by
  have h : ∀ s, ((g.modifyType ty f).entryAt? s).bind RefEntry.inner? =
      (g.entryAt? s).bind RefEntry.inner? := fun _ => rfl
  exact follow_congr h g.refs.size r

theorem namedRoot_of_named {g : TypeGraph} {r : RefId} {entry : NamedRef}
    (h : g.entryAt? r = some (.named entry)) : g.namedRoot r = r :=
  follow_of_none (by rw [h]; rfl) _

theorem entryAt?_namedRoot {g : TypeGraph} {r : RefId} {entry : NamedRef}
    (h : g.named? r = some entry) : g.entryAt? (g.namedRoot r) = some (.named entry) := by
  unfold named? at h
  split at h
  next e he => rw [he, ← Option.some.inj h]
  next => exact absurd h (by simp)

theorem named?_modifyNamed {g : TypeGraph} {r : RefId} {entry : NamedRef}
    (h : g.named? r = some entry) (f : NamedRef → NamedRef) :
    (g.modifyNamed (g.namedRoot r) f).named? r = some (f entry) := by
  rw [named?, namedRoot_modifyNamed, entryAt?_modifyNamed_of_named (entryAt?_namedRoot h)]

theorem sameRef_refl (g : TypeGraph) (r : RefId) : g.sameRef r r := by simp [sameRef]

end TypeGraph

end GoPackages
