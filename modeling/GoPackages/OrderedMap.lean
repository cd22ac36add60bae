/-!
Maps from names that remember the order in which names first came. Writing to a known name keeps
its place, so the entries are the declarations of a package or a method set as a reader lists them.
-/
namespace GoPackages

universe u

namespace OrderedMap

variable {α : Type u}

def find (key : String) : List (String × α) → Option α
  | [] => none
  | (k, v) :: rest => if k = key then some v else find key rest

/-- Stores a value in the place of the first entry of that name, or else at the end, and returns
the value that gave way. -/
def put (key : String) (value : α) : List (String × α) → Option α × List (String × α)
  | [] => (none, [(key, value)])
  | (k, v) :: rest =>
    if k = key then (some v, (k, value) :: rest)
    else
      let stored := put key value rest
      (stored.1, (k, v) :: stored.2)

theorem map_fst_put (key : String) (value : α) (l : List (String × α)) :
    (put key value l).2.map Prod.fst =
      if key ∈ l.map Prod.fst then l.map Prod.fst else l.map Prod.fst ++ [key] := by
  induction l with
  | nil => rfl
  | cons e rest ih =>
    by_cases h : e.1 = key
    · subst h; simp [put]
    · have hk : key ≠ e.1 := fun he => h he.symm
      by_cases hr : key ∈ rest.map Prod.fst
      · simp only [put, h, if_false, List.map_cons, ih, List.mem_cons, hr, or_true,
          if_true]
      · simp only [put, h, if_false, List.map_cons, ih, List.mem_cons, hr, hk, or_self,
          List.cons_append]

theorem nodup_put {l : List (String × α)} (h : (l.map Prod.fst).Nodup) (key : String) (value : α) :
    ((put key value l).2.map Prod.fst).Nodup := by
  rw [map_fst_put]
  by_cases hk : key ∈ l.map Prod.fst
  · rwa [if_pos hk]
  · rw [if_neg hk, List.nodup_append]
    refine ⟨h, by simp, ?_⟩
    intro k hmem k' hk' heq
    rw [List.mem_singleton] at hk'
    exact hk (hk' ▸ heq ▸ hmem)

end OrderedMap

/-- Entries in order of first insertion, no two of them under one name. -/
structure OrderedMap (α : Type u) where
  entries : List (String × α) := []
  nodup : (entries.map Prod.fst).Nodup := by exact List.nodup_nil
  deriving DecidableEq, Repr

namespace OrderedMap

variable {α : Type u}

instance : Inhabited (OrderedMap α) := ⟨{}⟩

def get? (m : OrderedMap α) (key : String) : Option α := find key m.entries

def contains (m : OrderedMap α) (key : String) : Bool := (m.get? key).isSome

def keys (m : OrderedMap α) : List String := m.entries.map Prod.fst

def values (m : OrderedMap α) : List α := m.entries.map Prod.snd

def size (m : OrderedMap α) : Nat := m.entries.length

def isEmpty (m : OrderedMap α) : Bool := m.entries.isEmpty

/-- The value that the name had before, beside the map after the insertion. -/
def getThenInsert? (m : OrderedMap α) (key : String) (value : α) : Option α × OrderedMap α :=
  let stored := put key value m.entries
  (stored.1, ⟨stored.2, nodup_put m.nodup key value⟩)

def insert (m : OrderedMap α) (key : String) (value : α) : OrderedMap α :=
  (m.getThenInsert? key value).2

@[simp] theorem find_put_self (key : String) (value : α) (l : List (String × α)) :
    find key (put key value l).2 = some value := by
  induction l with
  | nil => simp [put, find]
  | cons e rest ih =>
    by_cases h : e.1 = key <;> simp [put, find, h, ih]

theorem find_put_of_ne {key other : String} (h : key ≠ other) (value : α)
    (l : List (String × α)) : find other (put key value l).2 = find other l := by
  induction l with
  | nil => simp [put, find, h]
  | cons e rest ih =>
    by_cases he : e.1 = key
    · subst he; simp [put, find, h]
    · simp [put, find, he, ih]

theorem put_fst (key : String) (value : α) (l : List (String × α)) :
    (put key value l).1 = find key l := by
  induction l with
  | nil => rfl
  | cons e rest ih => by_cases h : e.1 = key <;> simp [put, find, h, ih]

theorem keys_insert (m : OrderedMap α) (key : String) (value : α) :
    (m.insert key value).keys = if key ∈ m.keys then m.keys else m.keys ++ [key] :=
  map_fst_put key value m.entries

@[simp] theorem get?_insert_self (m : OrderedMap α) (key : String) (value : α) :
    (m.insert key value).get? key = some value :=
  find_put_self key value m.entries

theorem get?_insert_of_ne {key other : String} (h : key ≠ other) (m : OrderedMap α) (value : α) :
    (m.insert key value).get? other = m.get? other :=
  find_put_of_ne h value m.entries

@[simp] theorem getThenInsert?_fst (m : OrderedMap α) (key : String) (value : α) :
    (m.getThenInsert? key value).1 = m.get? key :=
  put_fst key value m.entries

@[simp] theorem getThenInsert?_snd (m : OrderedMap α) (key : String) (value : α) :
    (m.getThenInsert? key value).2 = m.insert key value := rfl

end OrderedMap

end GoPackages
