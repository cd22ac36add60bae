import GoPackages.Proofs.Environment.OrderIndependence
import GoPackages.Proofs.Environment.WellFormed
import GoPackages.Proofs.TypeGraph.RecordedInterfaces

/-!
# Recorded implementations of a package

What a session holds after the implementations of a package were recorded: the structs of the
package list what they implement, and nothing else is touched. To record them again is to do
nothing.
-/
namespace GoPackages

open Registry (WellFormed)

namespace Registry

variable {reg : Registry} {pkg : PackageId} {p : Package}

theorem recordImplementations_again (hp : reg.package? pkg = some p) :
    (reg.recordImplementations pkg).2.recordImplementations pkg =
      (0, (reg.recordImplementations pkg).2) := by
  have hp' : (reg.recordImplementations pkg).2.package? pkg = some p := by
    rw [recordImplementations_eq hp]
    exact hp
  rw [recordImplementations_eq hp', recordImplementations_eq hp]
  simp only [TypeGraph.recordStructs_again]

theorem WellFormed.exists_struct (hr : reg.WellFormed) (hp : reg.package? pkg = some p)
    {ty : TypeId} (hty : ty ∈ p.structs.ids) :
    ∃ data type, reg.graph.typeAt? ty = some data ∧ data.kind = .struct type := by
  obtain ⟨data, hd, hform⟩ := Option.map_eq_some_iff.mp ((hr.packages pkg p hp).structs.1 ty hty)
  cases hkind : data.kind with
  | struct type => exact ⟨data, type, hd, hkind⟩
  | base | interface | method | map => rw [hkind] at hform; cases hform

end Registry

namespace Environment

/-- What a package's implementations that were recorded make of a session. -/
structure ImplementationsRecorded (env : Environment) (p : Package) (count : Nat)
    (env' : Environment) : Prop where
  types_only : env' = { env with registry := { env.registry with
    graph := { env.registry.graph with types := env'.registry.graph.types } } }
  others : ∀ ty ∉ p.structs.ids, env'.registry.graph.typeAt? ty = env.registry.graph.typeAt? ty
  /-- A struct goes on to list what it listed. Behind that stand the interfaces of the package that
  it implements and did not list, in their order and each once. -/
  structs : ∀ ty ∈ p.structs.ids, ∃ data type, env.registry.graph.typeAt? ty = some data ∧
    data.kind = .struct type ∧
    env'.registry.graph.typeAt? ty = some { data with kind := .struct { type with
      interfaces := type.interfaces ++
        ((p.interfaces.ids.filter (env.registry.graph.implements ty)).filter
          (· ∉ type.interfaces)).eraseDups } }
  count : count =
    ∑ ty ∈ p.structs.ids.toFinset, (env.registry.graph.unlisted p.interfaces.ids ty).length

theorem implementationsRecorded {env : Environment} (hr : env.registry.WellFormed) {pkg : PackageId}
    {p : Package} (hp : env.registry.package? pkg = some p) :
    ImplementationsRecorded env p (env.registry.recordImplementations pkg).1
      (env.perform (.recordImplementations pkg)) := by
  obtain ⟨hlists, hcount⟩ :=
    TypeGraph.recordStructs_lists env.registry.graph p.interfaces.ids p.structs.ids
  have henv : env.perform (.recordImplementations pkg) = { env with registry := { env.registry with
      graph := (env.registry.graph.recordStructs p.interfaces.ids p.structs.ids).2 } } := by
    rw [perform, Registry.recordImplementations_eq hp]
  rw [henv, Registry.recordImplementations_eq hp]
  constructor
  case types_only =>
    rw [← TypeGraph.eq_of_refs_eq hlists.refs]
  case others =>
    intro ty hty
    rw [hlists.types, if_neg hty]
    cases env.registry.graph.typeAt? ty with
    | none => rfl
    | some data => exact congrArg some data.listing_nil
  case structs =>
    intro ty hty
    obtain ⟨data, type, hd, hkind⟩ := hr.exists_struct hp hty
    have htype := TypeGraph.structType?_eq_some_iff.mpr ⟨data, hd, hkind⟩
    refine ⟨data, type, hd, hkind, ?_⟩
    rw [hlists.types, hd, if_pos hty, TypeGraph.unlisted, htype]
    exact congrArg some (TypeData.listing_struct hkind _)
  case count => exact hcount

/-- After any requests to a new session, recording the implementations of a package adds to the list
of each of its structs exactly what was missing there, returns how much that was in all, and leaves
all else alone. A second recording adds nothing, returns zero, and leaves all as it is. -/
theorem recording_is_exact (currentDir : Option String) (locator : Locator) (parser : SourceParser)
    {requests : List Request}
    (h : (Environment.new currentDir locator parser).NamesAll requests) {pkg : PackageId}
    {p : Package}
    (hp : ((Environment.new currentDir locator parser).performAll requests).registry.package? pkg =
      some p) :
    let env := (Environment.new currentDir locator parser).performAll requests
    let recorded := env.perform (.recordImplementations pkg)
    ImplementationsRecorded env p (env.registry.recordImplementations pkg).1 recorded ∧
      (recorded.registry.recordImplementations pkg).1 = 0 ∧
      recorded.perform (.recordImplementations pkg) = recorded := by
  intro env recorded
  have hw : env.WellFormed := wellFormed_performAll (new_wellFormed currentDir locator parser) h
  have hagain : recorded.registry.recordImplementations pkg = (0, recorded.registry) :=
    Registry.recordImplementations_again hp
  refine ⟨implementationsRecorded hw.registry hp, congrArg Prod.fst hagain, ?_⟩
  rw [perform, hagain]

def satisfiedOnce : List Request :=
  [.append ⟨"p", "p", "", []⟩, .analyzeFile 0 ⟨1⟩ methodFirst]

theorem satisfiedOnce_is_recorded :
    let env := (Environment.new none noPackages noFiles).performAll satisfiedOnce
    let recorded := env.perform (.recordImplementations ⟨1⟩)
    (Environment.new none noPackages noFiles).NamesAll satisfiedOnce ∧
      ∃ p, env.registry.package? ⟨1⟩ = some p ∧ ImplementationsRecorded env p 1 recorded ∧
        (recorded.registry.recordImplementations ⟨1⟩).1 = 0 ∧
        recorded.perform (.recordImplementations ⟨1⟩) = recorded := by
  intro env recorded
  have hnames : (Environment.new none noPackages noFiles).NamesAll satisfiedOnce :=
    ⟨trivial, Option.isSome_iff_exists.mp (by decide +kernel), trivial⟩
  have hregistered : (env.registry.package? ⟨1⟩).isSome = true := by decide +kernel
  obtain ⟨p, hp⟩ := Option.isSome_iff_exists.mp hregistered
  have hcount : (env.registry.recordImplementations ⟨1⟩).1 = 1 := by decide +kernel
  have hexact := recording_is_exact none noPackages noFiles hnames hp
  exact ⟨hnames, p, hp, hcount ▸ hexact.1, hexact.2⟩

end Environment

end GoPackages
