import GoPackages.TypeGraph.Reference

/-!
Giving a name its type, its methods and its meaning. All three act on the named entry behind a
reference, so a pointer to a name serves as well as the name itself.
-/
namespace GoPackages.TypeGraph

/-- Gives the name behind `r` the type `ty`, and returns the type that it had. The methods of the
name stay, and a struct or base type takes the name as its owner. -/
def bind (g : TypeGraph) (r : RefId) (ty : TypeId) : Option TypeId × TypeGraph :=
  let root := g.namedRoot r
  let bound := g.modifyNamed root fun entry => { entry with type := some ty }
  (g.resolved? r, bound.modifyType ty fun data =>
    if data.kind.isDefined then { data with declaredBy := some root } else data)

/-- Registers a method with the name behind `r` under the method's own name, and returns the
method that gave way. -/
def addMethod (g : TypeGraph) (r : RefId) (method : TypeId) : Option TypeId × TypeGraph :=
  match g.typeAt? method with
  | none => (none, g)
  | some data =>
    ((g.refMethods r).get? data.name,
      g.modifyNamed (g.namedRoot r) fun entry =>
        { entry with methods := entry.methods.insert data.name method })

/-- Lets the name behind `r` stand for `target`, which takes over its methods in their order. There
is no such graph when `target` leads back to that name. -/
def aliasTo? (g : TypeGraph) (r target : RefId) : Option TypeGraph :=
  let root := g.namedRoot r
  if g.namedRoot target = root then none
  else
    let redirected := { g with refs := g.refs.setIfInBounds root.index (.aliasOf target) }
    some ((g.refMethods root).values.foldl (fun g method => (g.addMethod target method).2)
      redirected)

@[simp] theorem refCount_bind (g : TypeGraph) (r : RefId) (ty : TypeId) :
    (g.bind r ty).2.refCount = g.refCount := by
  simp [bind, refCount, modifyType, modifyNamed]

@[simp] theorem refCount_addMethod (g : TypeGraph) (r : RefId) (method : TypeId) :
    (g.addMethod r method).2.refCount = g.refCount := by
  unfold addMethod; split <;> simp [refCount, modifyNamed]

@[simp] theorem types_addMethod (g : TypeGraph) (r : RefId) (method : TypeId) :
    (g.addMethod r method).2.types = g.types := by
  unfold addMethod; split <;> simp [modifyNamed]

theorem named?_bind {g : TypeGraph} {r : RefId} {entry : NamedRef}
    (h : g.named? r = some entry) (ty : TypeId) :
    (g.bind r ty).2.named? r = some { entry with type := some ty } := by
  have hb := named?_modifyNamed h fun entry => { entry with type := some ty }
  unfold named? at hb ⊢
  rw [bind]
  simp only [namedRoot_modifyType]
  exact hb

@[simp] theorem namedRoot_bind (g : TypeGraph) (r s : RefId) (ty : TypeId) :
    (g.bind r ty).2.namedRoot s = g.namedRoot s := by
  simp [bind]

@[simp] theorem namedRoot_addMethod (g : TypeGraph) (r s : RefId) (method : TypeId) :
    (g.addMethod r method).2.namedRoot s = g.namedRoot s := by
  unfold addMethod
  split
  · rfl
  · exact namedRoot_modifyNamed ..

end GoPackages.TypeGraph
