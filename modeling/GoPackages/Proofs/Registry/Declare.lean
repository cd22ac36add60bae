import GoPackages.Proofs.Analysis.Extends

/-!
# Declaring a type

A declaration makes its type, sees to it that the name has a reference, and binds the name
behind that reference. The last step alone touches an entry that may be old.
-/
namespace GoPackages

theorem DeclList.get?_declare_of_ne {name other : String} (h : name ≠ other) (d : DeclList)
    (ty : TypeId) : (d.declare name ty).get? other = d.get? other := by
  rw [DeclList.get?, byName_declare]
  exact OrderedMap.get?_insert_of_ne h _ _

theorem declareKind_types (p : Package) (name : String) (ty : TypeId) (kind : TypeKind) :
    (p.declareKind name ty kind).types = p.types.declare name ty := by
  cases kind <;> rfl

namespace Registry

section Listing

variable {reg : Registry} {q : PackageId} {f : Package → Package}

theorem ref?_modifyPackage (hf : ∀ p, (f p).refs = p.refs) (other : PackageId) (n : String) :
    (reg.modifyPackage q f).ref? other n = reg.ref? other n := by
  by_cases hq : q = other
  · subst hq
    cases hp : reg.package? q with
    | none =>
      have hi : reg.packages[q.index]? = none := hp
      simp [ref?, package?, modifyPackage, Array.getElem?_modify, hi]
    | some p => simp [ref?, package?_modifyPackage_self hp, hp, Package.ref?, hf]
  · exact ref?_modifyPackage_of_ne hq reg f n

theorem Sound.modifyPackage (h : reg.Sound) (hf : ∀ p, (f p).refs = p.refs) :
    (reg.modifyPackage q f).Sound :=
  ⟨h.graph, fun other n r hr => h.refs other n r ((ref?_modifyPackage hf other n).symm.trans hr)⟩

theorem Sound.step (h : reg.Sound) (op : TypeGraph.Operation) (he : reg.graph.Enabled op) :
    Sound { reg with graph := reg.graph.next op } := by
  refine ⟨h.graph.next op he, fun other n r hr => ?_⟩
  exact Nat.lt_of_lt_of_le (h.refs other n r hr) (TypeGraph.refCount_le_next _ op)

end Listing

@[simp] theorem declareKind_refs (p : Package) (name : String) (ty : TypeId) (kind : TypeKind) :
    (p.declareKind name ty kind).refs = p.refs := by
  cases kind <;> rfl

variable {reg : Registry} {pkg : PackageId} {name : String} {kind : TypeKind}

def nextType (reg : Registry) : TypeId := ⟨reg.graph.typeCount⟩

/-- The reference that a declaration binds, and the registry right before. -/
def introduce (reg : Registry) (pkg : PackageId) (name : String) (kind : TypeKind) :
    RefId × Registry :=
  let made := (reg.onGraph (·.addType { name, package := some pkg, kind })).2
  ((made.ensureRef pkg name).1.1, (made.ensureRef pkg name).2)

theorem declare_eq (reg : Registry) (pkg : PackageId) (name : String) (kind : TypeKind) :
    reg.declare pkg name kind =
      (reg.nextType, ((reg.introduce pkg name kind).2.withGraph fun g =>
        (g.bind (reg.introduce pkg name kind).1 reg.nextType).2).modifyPackage pkg
          (·.declareKind name reg.nextType kind)) := rfl

theorem extends_introduce (reg : Registry) (pkg : PackageId) (name : String) (kind : TypeKind)
    (owner : PackageId) (free : TypeId → Prop) :
    Extends owner free reg (reg.introduce pkg name kind).2 :=
  (extends_addType reg _).trans (extends_ensureRef _ pkg name)

theorem introduce_typeAt? (reg : Registry) (pkg : PackageId) (name : String)
    (kind : TypeKind) : (reg.introduce pkg name kind).2.graph.typeAt? reg.nextType =
      some { name, package := some pkg, kind } := by
  have he : Extends pkg (fun _ => False) _ (reg.introduce pkg name kind).2 :=
    extends_ensureRef (reg.onGraph (·.addType { name, package := some pkg, kind })).2 pkg name
  exact he.types _ _ not_false (TypeGraph.typeAt?_addType_self reg.graph _)

theorem introduce_hasRef (h : reg.Sound) :
    (reg.introduce pkg name kind).2.graph.HasRef (reg.introduce pkg name kind).1 := by
  have hadd : Extends pkg (fun _ => False) reg _ :=
    extends_addType reg { name, package := some pkg, kind }
  exact hasRef_ensureRef (hadd.sound h).refs pkg name

theorem introduce_of_some {r : RefId} (h : reg.ref? pkg name = some r) :
    reg.introduce pkg name kind =
      (r, (reg.onGraph (·.addType { name, package := some pkg, kind })).2) := by
  have hr : (reg.onGraph (·.addType { name, package := some pkg, kind })).2.ref? pkg name =
      some r := h
  rw [introduce, ensureRef_of_some hr]

theorem introduce_of_none (h : reg.ref? pkg name = none) :
    (reg.introduce pkg name kind).2.graph.entryAt? (reg.introduce pkg name kind).1 =
      some (.named { name, package := some pkg }) := by
  have hr : (reg.onGraph (·.addType { name, package := some pkg, kind })).2.ref? pkg name =
      none := h
  rw [introduce, ensureRef, hr]
  exact TypeGraph.entryAt?_addRef_self _ _

theorem introduce_ref? {p : Package} (hp : reg.package? pkg = some p) :
    (reg.introduce pkg name kind).2.ref? pkg name = some (reg.introduce pkg name kind).1 := by
  have hp' : (reg.onGraph (·.addType { name, package := some pkg, kind })).2.package? pkg =
      some p := hp
  exact ref?_ensureRef hp' name

theorem declare_sound (h : reg.Sound) (pkg : PackageId) (name : String) (kind : TypeKind) :
    (reg.declare pkg name kind).2.Sound := by
  have hi := (extends_introduce reg pkg name kind pkg fun _ => False).sound h
  have hty := TypeGraph.hasType_of_typeAt? (introduce_typeAt? reg pkg name kind)
  have hb := hi.step (.bind (reg.introduce pkg name kind).1 reg.nextType)
    ⟨introduce_hasRef h, hty⟩
  rw [declare_eq]
  exact hb.modifyPackage fun p => declareKind_refs p name _ kind

theorem declare_ref? (reg : Registry) (pkg : PackageId) (name : String) (kind : TypeKind)
    (q : PackageId) (n : String) : (reg.declare pkg name kind).2.ref? q n =
      (reg.introduce pkg name kind).2.ref? q n := by
  rw [declare_eq]
  exact ref?_modifyPackage (fun p => declareKind_refs p name _ kind) q n

theorem declare_typeAt? (reg : Registry) (pkg : PackageId) (name : String)
    (kind : TypeKind) : (reg.declare pkg name kind).2.graph.typeAt? reg.nextType =
      some { name, package := some pkg, kind,
             declaredBy := if kind.isDefined then
               some ((reg.introduce pkg name kind).2.graph.namedRoot
                 (reg.introduce pkg name kind).1) else none } := by
  have hb := TypeGraph.typeAt?_bind_self (introduce_typeAt? reg pkg name kind)
    (reg.introduce pkg name kind).1
  rw [declare_eq]
  refine hb.trans ?_
  cases kind.isDefined <;> rfl

theorem declare_hasRef {r : RefId} (hr : reg.graph.HasRef r) (pkg : PackageId) (name : String)
    (kind : TypeKind) : (reg.declare pkg name kind).2.graph.HasRef r := by
  have hi := (extends_introduce reg pkg name kind pkg fun _ => False).hasRef hr
  rw [declare_eq]
  exact Nat.lt_of_lt_of_eq hi (TypeGraph.refCount_bind _ _ _).symm

theorem package?_modifyPackage_of_some {q other : PackageId} {p : Package}
    (h : reg.package? other = some p) (f : Package → Package) :
    (reg.modifyPackage q f).package? other = some (if q = other then f p else p) := by
  split
  next hq =>
    subst hq
    exact package?_modifyPackage_self h f
  next hq => exact (package?_modifyPackage_of_ne hq reg f).trans h

theorem declare_package? {q : PackageId} {p : Package} (hp : reg.package? q = some p)
    (pkg : PackageId) (name : String) (kind : TypeKind) :
    ∃ refs, (reg.declare pkg name kind).2.package? q =
      some (if pkg = q then { p with refs }.declareKind name reg.nextType kind
        else { p with refs }) := by
  obtain ⟨refs, hi⟩ := (extends_introduce reg pkg name kind pkg fun _ => False).packages q p hp
  refine ⟨refs, ?_⟩
  rw [declare_eq]
  exact package?_modifyPackage_of_some hi _

end Registry

end GoPackages
