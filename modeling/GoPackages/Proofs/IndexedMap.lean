import GoPackages.Proofs.OrderedMap
import GoPackages.TypeGraph.Basic
import Std.Data.HashMap

/-!
# Maps with an index of their slots

An ordered map may keep, beside the row of its entries, an index from every name to the slot of its
entry, so that no look-up walks the row. An insertion then takes one of two ways: it writes over the
slot of a known name, or it gives a new name the slot at the end and enters it in the index. Row and
index stay in step, and such a map cannot be told from the map without an index.
-/
namespace GoPackages

structure IndexedMap (α : Type) where
  entries : Array (String × α) := #[]
  index : Std.HashMap String Nat := {}

variable {α : Type}

namespace IndexedMap

def get? (x : IndexedMap α) (name : String) : Option α :=
  x.index[name]?.bind fun slot => x.entries[slot]?.map Prod.snd

def contains (x : IndexedMap α) (name : String) : Bool := x.index.contains name

def values (x : IndexedMap α) : List α := x.entries.toList.map Prod.snd

def getThenInsert? (x : IndexedMap α) (name : String) (value : α) : Option α × IndexedMap α :=
  match x.index[name]? with
  | some slot =>
    (x.entries[slot]?.map Prod.snd,
      { x with entries := x.entries.modify slot fun e => (e.1, value) })
  | none => (none, ⟨x.entries.push (name, value), x.index.insert name x.entries.size⟩)

def insertAll (x : IndexedMap α) (rows : List (String × α)) : IndexedMap α :=
  rows.foldl (fun x row => (x.getThenInsert? row.1 row.2).2) x

/-- The row is that of the map, and the index leads exactly from its names to their slots. -/
structure Indexes (x : IndexedMap α) (m : OrderedMap α) : Prop where
  entries : x.entries.toList = m.entries
  slots : ∀ (name : String) (slot : Nat), x.index[name]? = some slot ↔ m.keys[slot]? = some name

end IndexedMap

namespace OrderedMap

variable {name : String} {value v : α} {m : OrderedMap α} {l : List (String × α)} {slot : Nat}

theorem get?_of_getElem? (he : m.entries[slot]? = some (name, v)) : m.get? name = some v :=
  get?_eq_some_iff.mpr (List.mem_of_getElem? he)

theorem put_eq_modify (hn : (l.map Prod.fst).Nodup) (h : (l.map Prod.fst)[slot]? = some name)
    (value : α) : (put name value l).2 = l.modify slot fun e => (e.1, value) := by
  induction l generalizing slot with
  | nil => simp at h
  | cons e rest ih =>
    obtain ⟨hnew, hrest⟩ := List.nodup_cons.mp hn
    cases slot with
    | zero =>
      obtain rfl : e.1 = name := by simpa using h
      simp [put]
    | succ slot =>
      have htail : (rest.map Prod.fst)[slot]? = some name := by simpa using h
      have hne : e.1 ≠ name := by
        rintro rfl
        exact hnew (List.mem_of_getElem? htail)
      simp [put, hne, ih hrest htail]

end OrderedMap

theorem getElem?_concat_eq_some_iff {β : Type} {l : List β} {a b : β} {k : Nat} :
    (l ++ [a])[k]? = some b ↔ l[k]? = some b ∨ k = l.length ∧ a = b := by
  rcases Nat.lt_trichotomy k l.length with hlt | rfl | hgt
  · rw [List.getElem?_append_left hlt]
    simp [Nat.ne_of_lt hlt]
  · simp
  · rw [List.getElem?_eq_none (by simp; omega), List.getElem?_eq_none (by omega)]
    simp [Nat.ne_of_gt hgt]

namespace IndexedMap.Indexes

variable {x : IndexedMap α} {m : OrderedMap α}

theorem empty : ({} : IndexedMap α).Indexes {} where
  entries := rfl
  slots name slot := by simp [OrderedMap.keys]

theorem index_eq_none_iff (h : x.Indexes m) {name : String} :
    x.index[name]? = none ↔ name ∉ m.keys := by
  rw [Option.eq_none_iff_forall_ne_some, List.mem_iff_getElem?, not_exists]
  exact forall_congr' fun slot => not_congr (h.slots name slot)

theorem get?_eq_none (h : x.Indexes m) {name : String} (hslot : x.index[name]? = none) :
    m.get? name = none := by
  rw [Option.eq_none_iff_forall_ne_some]
  intro v hv
  apply h.index_eq_none_iff.mp hslot
  exact List.mem_map.mpr ⟨_, OrderedMap.mem_of_find hv, rfl⟩

theorem get?_eq (h : x.Indexes m) (name : String) : x.get? name = m.get? name := by
  cases hslot : x.index[name]? with
  | none =>
    rw [h.get?_eq_none hslot, get?, hslot]
    rfl
  | some slot =>
    have hkey := (h.slots name slot).mp hslot
    rw [OrderedMap.keys, List.getElem?_map, Option.map_eq_some_iff] at hkey
    obtain ⟨⟨key, v⟩, hentry, rfl⟩ := hkey
    have hrow : x.entries[slot]? = some (key, v) := by
      rw [← Array.getElem?_toList, h.entries, hentry]
    rw [OrderedMap.get?_of_getElem? hentry, get?, hslot, Option.bind_some, hrow]
    rfl

theorem contains_eq (h : x.Indexes m) (name : String) : x.contains name = m.contains name := by
  rw [OrderedMap.contains, ← h.get?_eq, contains, Std.HashMap.contains_eq_isSome_getElem?]
  cases hslot : x.index[name]? with
  | none => simp [get?, hslot]
  | some slot =>
    have hlt := (List.getElem?_eq_some_iff.mp ((h.slots name slot).mp hslot)).1
    have hsize : slot < x.entries.size := by
      rwa [OrderedMap.keys, List.length_map, ← h.entries, Array.length_toList] at hlt
    simp [get?, hslot, hsize]

theorem getThenInsert?_fst (h : x.Indexes m) (name : String) (value : α) :
    (x.getThenInsert? name value).1 = m.get? name := by
  rw [← h.get?_eq, getThenInsert?, get?]
  cases x.index[name]? <;> rfl

theorem insert_of_some (h : x.Indexes m) {name : String} {slot : Nat}
    (hslot : x.index[name]? = some slot) (value : α) :
    (x.getThenInsert? name value).2.Indexes (m.insert name value) := by
  have hkey := (h.slots name slot).mp hslot
  have hkeys : (m.insert name value).keys = m.keys := by
    rw [OrderedMap.keys_insert, if_pos (List.mem_of_getElem? hkey)]
  constructor
  · simp only [getThenInsert?, hslot, Array.toList_modify, h.entries]
    exact (OrderedMap.put_eq_modify m.nodup hkey value).symm
  · intro n k
    rw [hkeys, ← h.slots]
    simp [getThenInsert?, hslot]

theorem insert_of_none (h : x.Indexes m) {name : String} (hslot : x.index[name]? = none)
    (value : α) : (x.getThenInsert? name value).2.Indexes (m.insert name value) := by
  have hkeys : (m.insert name value).keys = m.keys ++ [name] := by
    rw [OrderedMap.keys_insert, if_neg (h.index_eq_none_iff.mp hslot)]
  have hsize : x.entries.size = m.keys.length := by
    rw [OrderedMap.keys, List.length_map, ← h.entries, Array.length_toList]
  constructor
  · simp only [getThenInsert?, hslot, Array.toList_push, h.entries]
    exact (OrderedMap.put_of_find_none (h.get?_eq_none hslot) value).symm
  · intro n k
    rw [hkeys, getElem?_concat_eq_some_iff, ← h.slots]
    simp only [getThenInsert?, hslot, Std.HashMap.getElem?_insert, hsize]
    by_cases hn : name = n
    · subst hn
      simp [hslot, eq_comm]
    · simp [hn]

theorem insert (h : x.Indexes m) (name : String) (value : α) :
    (x.getThenInsert? name value).2.Indexes (m.insert name value) := by
  cases hslot : x.index[name]? with
  | none => exact h.insert_of_none hslot value
  | some slot => exact h.insert_of_some hslot value

theorem insertAll (h : x.Indexes m) (rows : List (String × α)) :
    (x.insertAll rows).Indexes (m.insertAll rows) := by
  induction rows generalizing x m with
  | nil => exact h
  | cons row rest ih => exact ih (h.insert row.1 row.2)

/-- With an index the same rows are held as without. -/
theorem tabulates (h : x.Indexes m) {rows : List (String × α)}
    (ht : Tabulates rows m.values m.get?) : Tabulates rows x.values x.get? where
  listed := by
    rw [values, h.entries]
    exact ht.listed
  get? name := (h.get?_eq name).trans (ht.get? name)

end IndexedMap.Indexes

/-- A method set lists every name that was inserted once, in the order of the first insertions, with
the method of its last insertion. Look-ups agree with that list, and an insertion returns the method
that the name had before. All this is so with an index of the slots, too. -/
theorem method_sets_keep_insertion_order (rows : List (String × TypeId)) :
    let set := ({} : MethodSet).insertAll rows
    let names := (rows.map Prod.fst).eraseDups
    let indexed := ({} : IndexedMap TypeId).insertAll rows
    set.keys = names ∧ names.Nodup ∧ set.size = names.length ∧
      set.entries.map (fun e => (e.1, some e.2)) =
        names.map (fun name => (name, lastOf? rows name)) ∧
      (∀ name ty, set.get? name = some ty ↔ (name, ty) ∈ set.entries) ∧
      (∀ name, set.contains name = true ↔ name ∈ set.keys) ∧
      (∀ name ty, set.getThenInsert? name ty =
        (lastOf? rows name, ({} : MethodSet).insertAll (rows ++ [(name, ty)]))) ∧
      indexed.Indexes set ∧
      ∀ name, indexed.get? name = set.get? name ∧ indexed.contains name = set.contains name ∧
        ∀ ty, (indexed.getThenInsert? name ty).1 = (set.getThenInsert? name ty).1 := by
  intro set names indexed
  have hkeys : set.keys = names := OrderedMap.keys_insertAll rows
  have hlast : ∀ name, set.get? name = lastOf? rows name := OrderedMap.get?_insertAll_empty rows
  have hindexed : indexed.Indexes set := IndexedMap.Indexes.empty.insertAll rows
  refine ⟨hkeys, hkeys ▸ set.nodup, ?_, ?_, fun name ty => OrderedMap.get?_eq_some_iff,
    fun name => OrderedMap.contains_iff, ?_, hindexed, ?_⟩
  · rw [← hkeys, OrderedMap.keys, List.length_map]
    rfl
  · rw [OrderedMap.map_some_entries, hkeys]
    apply List.map_congr_left
    intro name _
    rw [hlast]
  · intro name ty
    have hreturned : (set.getThenInsert? name ty).1 = lastOf? rows name := by
      rw [OrderedMap.getThenInsert?_fst, hlast]
    have hnext : ({} : MethodSet).insertAll (rows ++ [(name, ty)]) = set.insert name ty :=
      OrderedMap.insertAll_append _ _ _
    rw [hnext]
    exact Prod.ext hreturned rfl
  · intro name
    refine ⟨hindexed.get?_eq name, hindexed.contains_eq name, ?_⟩
    intro ty
    rw [hindexed.getThenInsert?_fst, OrderedMap.getThenInsert?_fst]

end GoPackages
