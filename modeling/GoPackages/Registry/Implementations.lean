import GoPackages.Registry.Basic
import GoPackages.TypeGraph.Compatible

/-!
Recording on every struct of a package the interfaces of the package that it implements. A record
once made is kept, so a second recording without a change in between adds nothing.
-/
namespace GoPackages

def addMissing (known found : List TypeId) : List TypeId :=
  found.foldl (fun known ty => if ty ∈ known then known else known ++ [ty]) known

theorem addMissing_eq (known found : List TypeId) :
    addMissing known found = known ++ (found.filter (· ∉ known)).eraseDups := by
  induction found generalizing known with
  | nil => simp [addMissing]
  | cons ty rest ih =>
    have hstep : addMissing known (ty :: rest) =
        addMissing (if ty ∈ known then known else known ++ [ty]) rest := rfl
    rw [hstep]
    by_cases hty : ty ∈ known
    · rw [if_pos hty, ih, List.filter_cons_of_neg (by simpa using hty)]
    · have hrest : rest.filter (· ∉ known ++ [ty]) =
          (rest.filter (· ∉ known)).filter fun t => !t == ty := by
        rw [List.filter_filter]
        refine List.filter_congr fun t _ => ?_
        simp [Bool.beq_eq_decide_eq, and_comm]
      rw [if_neg hty, ih, List.filter_cons_of_pos (by simpa using hty), List.eraseDups_cons, hrest,
        List.append_assoc, List.singleton_append]

/-- Records on one struct which of the interfaces it implements, and counts the new records. -/
def TypeGraph.recordStruct (g : TypeGraph) (interfaces : List TypeId) (ty : TypeId) :
    Nat × TypeGraph :=
  match g.structType? ty with
  | none => (0, g)
  | some type =>
    let all := addMissing type.interfaces (interfaces.filter (g.implements ty))
    (all.length - type.interfaces.length,
      g.modifyStruct ty fun type => { type with interfaces := all })

def TypeGraph.recordStructs (g : TypeGraph) (interfaces : List TypeId) :
    List TypeId → Nat × TypeGraph
  | [] => (0, g)
  | ty :: rest =>
    let (count, g) := g.recordStruct interfaces ty
    let (more, g) := g.recordStructs interfaces rest
    (count + more, g)

def Registry.recordImplementations (reg : Registry) (pkg : PackageId) : Nat × Registry :=
  match reg.package? pkg with
  | none => (0, reg)
  | some p => reg.onGraph fun g => g.recordStructs p.interfaces.ids p.structs.ids

end GoPackages
