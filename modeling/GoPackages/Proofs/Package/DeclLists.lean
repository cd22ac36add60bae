import GoPackages.Proofs.OrderedMap
import GoPackages.Proofs.Registry.Declare

/-!
# Lists of declarations

A list of declarations has one slot for every name that was declared, and the slot holds the type
that the name was last declared as. A declaration of a known name empties the slot and fills it
again, wherever it stands.
-/
namespace GoPackages

theorem replace_perm {a b : TypeId} {l : List TypeId} (h : a ∈ l) :
    (a :: l.replace a b).Perm (b :: l) := by
  induction l with
  | nil => cases h
  | cons c rest ih =>
    by_cases hc : c = a
    · subst hc
      simpa using List.Perm.swap b c rest
    · have hrest : a ∈ rest := (List.mem_cons.mp h).resolve_left (Ne.symm hc)
      have hreplace : (c :: rest).replace a b = c :: rest.replace a b := by
        have hne : (a == c) = false := beq_eq_false_iff_ne.mpr (Ne.symm hc)
        rw [List.replace_cons, hne]
      rw [hreplace]
      calc
        (a :: c :: rest.replace a b).Perm (c :: a :: rest.replace a b) := .swap _ _ _
        List.Perm _ (c :: b :: rest) := (ih hrest).cons c
        List.Perm _ (b :: c :: rest) := .swap _ _ _

namespace DeclList

/-- There is one slot for every name, filled with its type. -/
def Slots (d : DeclList) : Prop := d.ids.Perm d.byName.values

variable {d : DeclList}

theorem slots_empty : ({} : DeclList).Slots := .nil

theorem Slots.declare (h : d.Slots) (name : String) (ty : TypeId) : (d.declare name ty).Slots := by
  unfold Slots at h ⊢
  rw [byName_declare]
  cases hn : d.get? name with
  | none =>
    have hvalues : (d.byName.insert name ty).values = d.byName.values ++ [ty] := by
      have hput := OrderedMap.put_of_find_none hn ty
      simp [OrderedMap.insert, OrderedMap.getThenInsert?, OrderedMap.values, hput]
    rw [ids_declare_of_none hn, hvalues]
    exact h.append_right [ty]
  | some previous =>
    have hmem : previous ∈ d.ids :=
      h.mem_iff.mpr (List.mem_map.mpr ⟨_, OrderedMap.mem_of_find hn, rfl⟩)
    rw [ids_declare_of_some hn]
    refine (List.perm_cons previous).mp ?_
    calc
      (previous :: d.ids.replace previous ty).Perm (ty :: d.ids) := replace_perm hmem
      List.Perm _ (ty :: d.byName.values) := h.cons ty
      List.Perm _ (previous :: (d.byName.insert name ty).values) :=
        (OrderedMap.values_put_perm hn).symm

theorem Slots.mem_ids_iff (h : d.Slots) {ty : TypeId} :
    ty ∈ d.ids ↔ ∃ name, d.get? name = some ty := by
  unfold Slots at h
  rw [h.mem_iff]
  constructor
  · intro hmem
    obtain ⟨⟨name, v⟩, he, rfl⟩ := List.mem_map.mp hmem
    exact ⟨name, OrderedMap.get?_eq_some_iff.mpr he⟩
  · rintro ⟨name, hget⟩
    exact List.mem_map.mpr ⟨(name, ty), OrderedMap.get?_eq_some_iff.mp hget, rfl⟩

def declareAll (d : DeclList) (rows : List (String × TypeId)) : DeclList :=
  rows.foldl (fun d row => d.declare row.1 row.2) d

theorem Slots.declareAll (h : d.Slots) (rows : List (String × TypeId)) :
    (d.declareAll rows).Slots := by
  induction rows generalizing d with
  | nil => exact h
  | cons row rest ih => exact ih (h.declare row.1 row.2)

theorem byName_declareAll (d : DeclList) (rows : List (String × TypeId)) :
    (d.declareAll rows).byName = d.byName.insertAll rows := by
  induction rows generalizing d with
  | nil => rfl
  | cons row rest ih =>
    have hrest : (d.declareAll (row :: rest)).byName =
        (d.declare row.1 row.2).byName.insertAll rest := ih _
    rw [hrest, byName_declare]
    rfl

theorem get?_declareAll (rows : List (String × TypeId)) (name : String) :
    (({} : DeclList).declareAll rows).get? name =
      (rows.filter (·.1 = name)).getLast?.map Prod.snd := by
  rw [get?, byName_declareAll, OrderedMap.get?_insertAll_last]
  exact Option.or_none

end DeclList

end GoPackages
