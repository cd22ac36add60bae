import GoPackages.OrderedMap
import GoPackages.Proofs.FirstOccurrences
import Mathlib.Data.List.Induction

/-!
# Maps that were made by insertions

A map has one entry under a name, so looking up a name and searching the entries are the same, and
nothing that looks names up depends on their order. A map that was made by insertions lists each
name once, in the order of the first insertions, with the value of the last one.
-/
namespace GoPackages

def lastOf? {α : Type} (rows : List (String × α)) (name : String) : Option α :=
  (rows.filter (·.1 = name)).getLast?.map Prod.snd

/-- A list with a look-up by name holds some rows: the names in the order in which they first came,
each with what came last under it. -/
structure Tabulates {α : Type} (rows : List (String × α)) (listed : List α)
    (get? : String → Option α) : Prop where
  listed : listed.map some = (rows.map Prod.fst).eraseDups.map (lastOf? rows)
  get? : ∀ name, get? name = lastOf? rows name

namespace OrderedMap

variable {α : Type} {m m' : OrderedMap α} {key other : String} {v : α}

def insertAll (m : OrderedMap α) (entries : List (String × α)) : OrderedMap α :=
  entries.foldl (fun m e => m.insert e.1 e.2) m

theorem mem_put {key k : String} {value v : α} {l : List (String × α)}
    (h : (k, v) ∈ (put key value l).2) : (k, v) ∈ l ∨ (k = key ∧ v = value) := by
  induction l with
  | nil => exact .inr (by simpa [put] using h)
  | cons e rest ih =>
    obtain ⟨n, w⟩ := e
    by_cases hn : n = key
    · subst hn
      rw [put, if_pos rfl] at h
      rcases List.mem_cons.mp h with heq | hm
      · exact .inr (Prod.mk.inj heq)
      · exact .inl (List.mem_cons_of_mem _ hm)
    · rw [put, if_neg hn] at h
      rcases List.mem_cons.mp h with heq | hm
      · exact .inl (heq ▸ List.mem_cons_self)
      · exact (ih hm).imp_left (List.mem_cons_of_mem _)

theorem mem_entries_insert {m : OrderedMap α} {key k : String} {value v : α}
    (h : (k, v) ∈ (m.insert key value).entries) :
    (k, v) ∈ m.entries ∨ (k = key ∧ v = value) := mem_put h

theorem mem_of_find {key : String} {v : α} {l : List (String × α)} (h : find key l = some v) :
    (key, v) ∈ l := by
  induction l with
  | nil => cases h
  | cons e rest ih =>
    obtain ⟨k, w⟩ := e
    by_cases hk : k = key
    · obtain rfl : w = v := by simpa [find, hk] using h
      exact hk ▸ List.mem_cons_self
    · exact List.mem_cons_of_mem _ (ih (by simpa [find, hk] using h))

theorem mem_of_contains {m : OrderedMap α} {key : String} (h : m.contains key = true) :
    ∃ v, (key, v) ∈ m.entries := by
  obtain ⟨v, hv⟩ := Option.isSome_iff_exists.mp h
  exact ⟨v, mem_of_find hv⟩

theorem contains_insert (m : OrderedMap α) (key other : String) (v : α) :
    (m.insert key v).contains other = true ↔ key = other ∨ m.contains other = true := by
  unfold contains
  by_cases h : key = other
  · subst h
    simp
  · simp [get?_insert_of_ne h, h]

theorem contains_insertAll (m : OrderedMap α) (entries : List (String × α)) (other : String) :
    (m.insertAll entries).contains other = true ↔
      m.contains other = true ∨ ∃ v, (other, v) ∈ entries := by
  induction entries generalizing m with
  | nil => simp [insertAll]
  | cons e rest ih =>
    obtain ⟨k, w⟩ := e
    rw [insertAll, List.foldl_cons, ← insertAll, ih, contains_insert]
    constructor
    · rintro ((rfl | h) | ⟨v, hv⟩)
      · exact .inr ⟨w, List.mem_cons_self⟩
      · exact .inl h
      · exact .inr ⟨v, List.mem_cons_of_mem _ hv⟩
    · rintro (h | ⟨v, hv⟩)
      · exact .inl (.inr h)
      · rcases List.mem_cons.mp hv with he | hv
        · exact .inl (.inl (Prod.mk.inj he).1.symm)
        · exact .inr ⟨v, hv⟩

theorem mem_entries_insertAll {m : OrderedMap α} {entries : List (String × α)} {key : String}
    {v : α} (h : (key, v) ∈ (m.insertAll entries).entries) :
    (key, v) ∈ m.entries ∨ (key, v) ∈ entries := by
  induction entries generalizing m with
  | nil => exact .inl h
  | cons e rest ih =>
    rcases ih h with hm | hm
    · rcases mem_entries_insert hm with hm | ⟨rfl, rfl⟩
      · exact .inl hm
      · exact .inr List.mem_cons_self
    · exact .inr (List.mem_cons_of_mem _ hm)

theorem get?_insert (m : OrderedMap α) (key other : String) (v : α) :
    (m.insert key v).get? other = if key = other then some v else m.get? other := by
  by_cases h : key = other
  · subst h
    rw [if_pos rfl, get?_insert_self]
  · rw [if_neg h, get?_insert_of_ne h]

theorem find_of_mem {l : List (String × α)} (h : (l.map Prod.fst).Nodup) (hm : (key, v) ∈ l) :
    find key l = some v := by
  induction l with
  | nil => cases hm
  | cons e rest ih =>
    obtain ⟨k, w⟩ := e
    obtain ⟨hnew, hrest⟩ := List.nodup_cons.mp h
    rcases List.mem_cons.mp hm with heq | hmem
    · obtain ⟨rfl, rfl⟩ := Prod.mk.inj heq
      simp [find]
    · have hk : k ≠ key := by
        rintro rfl
        exact hnew (List.mem_map.mpr ⟨_, hmem, rfl⟩)
      simp only [find, hk, if_false]
      exact ih hrest hmem

theorem get?_eq_some_iff : m.get? key = some v ↔ (key, v) ∈ m.entries :=
  ⟨mem_of_find, find_of_mem m.nodup⟩

theorem contains_iff : m.contains key = true ↔ key ∈ m.keys := by
  constructor
  · intro hc
    obtain ⟨v, hv⟩ := mem_of_contains hc
    exact List.mem_map.mpr ⟨_, hv, rfl⟩
  · intro hk
    obtain ⟨⟨key, v⟩, he, rfl⟩ := List.mem_map.mp hk
    rw [contains, get?_eq_some_iff.mpr he]
    rfl

theorem map_some_entries (m : OrderedMap α) :
    m.entries.map (fun e => (e.1, some e.2)) = m.keys.map fun name => (name, m.get? name) := by
  rw [keys, List.map_map]
  apply List.map_congr_left
  intro e he
  exact congrArg (e.1, ·) (get?_eq_some_iff.mpr he).symm

theorem map_some_values (m : OrderedMap α) : m.values.map some = m.keys.map m.get? := by
  rw [values, keys, List.map_map, List.map_map]
  refine List.map_congr_left fun e he => ?_
  exact (get?_eq_some_iff.mpr he).symm

theorem get?_perm (hp : m.entries.Perm m'.entries) (key : String) : m'.get? key = m.get? key := by
  refine Option.ext fun v => ?_
  rw [get?_eq_some_iff, get?_eq_some_iff]
  exact hp.mem_iff.symm

theorem get?_insertAll {entries : List (String × α)} (h : (entries.map Prod.fst).Nodup)
    (m : OrderedMap α) (key : String) :
    (m.insertAll entries).get? key = (find key entries).or (m.get? key) := by
  induction entries generalizing m with
  | nil => rfl
  | cons e rest ih =>
    obtain ⟨hnew, hrest⟩ := List.nodup_cons.mp h
    have hlater : (m.insertAll (e :: rest)).get? key =
        (find key rest).or ((m.insert e.1 e.2).get? key) := ih hrest _
    rw [hlater, get?_insert]
    by_cases hk : e.1 = key
    · have hnone : find key rest = none := by
        refine Option.eq_none_iff_forall_not_mem.mpr fun v hv => hnew ?_
        exact List.mem_map.mpr ⟨(key, v), mem_of_find hv, hk.symm⟩
      simp [find, hk, hnone]
    · simp [find, hk]

theorem get?_insertAll_perm {entries entries' : List (String × α)} (hp : entries.Perm entries')
    (h : (entries.map Prod.fst).Nodup) (m : OrderedMap α) (key : String) :
    (m.insertAll entries').get? key = (m.insertAll entries).get? key := by
  have h' : (entries'.map Prod.fst).Nodup := (hp.map Prod.fst).nodup_iff.mp h
  have hsame : (⟨entries', h'⟩ : OrderedMap α).get? key = (⟨entries, h⟩ : OrderedMap α).get? key :=
    get?_perm hp key
  rw [get?_insertAll h, get?_insertAll h']
  exact congrArg (·.or (m.get? key)) hsame

theorem values_put_perm {key : String} {value previous : α} {l : List (String × α)}
    (h : find key l = some previous) :
    (previous :: (put key value l).2.map Prod.snd).Perm (value :: l.map Prod.snd) := by
  induction l with
  | nil => cases h
  | cons e rest ih =>
    obtain ⟨k, v⟩ := e
    by_cases hk : k = key
    · obtain rfl : v = previous := by simpa [find, hk] using h
      simpa [put, hk] using List.Perm.swap value v (rest.map Prod.snd)
    · have hrest : find key rest = some previous := by simpa [find, hk] using h
      simp only [put, hk, if_false, List.map_cons]
      calc
        (previous :: v :: (put key value rest).2.map Prod.snd).Perm
            (v :: previous :: (put key value rest).2.map Prod.snd) := .swap _ _ _
        List.Perm _ (v :: value :: rest.map Prod.snd) := (ih hrest).cons v
        List.Perm _ (value :: v :: rest.map Prod.snd) := .swap _ _ _

theorem put_of_find_none {key : String} {l : List (String × α)} (h : find key l = none)
    (value : α) : (put key value l).2 = l ++ [(key, value)] := by
  induction l with
  | nil => rfl
  | cons e rest ih =>
    obtain ⟨k, v⟩ := e
    by_cases hk : k = key
    · simp [find, hk] at h
    · have hrest : find key rest = none := by simpa [find, hk] using h
      simp [put, hk, ih hrest]

theorem get?_insertAll_last (m : OrderedMap α) (entries : List (String × α)) (key : String) :
    (m.insertAll entries).get? key = (lastOf? entries key).or (m.get? key) := by
  unfold lastOf?
  induction entries generalizing m with
  | nil => rfl
  | cons e rest ih =>
    have hrest : (m.insertAll (e :: rest)).get? key =
        ((rest.filter (·.1 = key)).getLast?.map Prod.snd).or ((m.insert e.1 e.2).get? key) := ih _
    rw [hrest, get?_insert]
    by_cases hk : e.1 = key
    · rw [List.filter_cons_of_pos (by simpa using hk), if_pos hk]
      cases hl : (rest.filter (·.1 = key)).getLast? with
      | none => simp [List.getLast?_cons, hl]
      | some last => simp [List.getLast?_cons, hl]
    · rw [List.filter_cons_of_neg (by simpa using hk), if_neg hk]

theorem insertAll_append (m : OrderedMap α) (rows rows' : List (String × α)) :
    m.insertAll (rows ++ rows') = (m.insertAll rows).insertAll rows' :=
  List.foldl_append

/-- Names come in the order of their first insertion. -/
theorem keys_insertAll (rows : List (String × α)) :
    (({} : OrderedMap α).insertAll rows).keys = (rows.map Prod.fst).eraseDups := by
  induction rows using List.reverseRecOn with
  | nil => rfl
  | append_singleton rows row ih =>
    have hlast : ({} : OrderedMap α).insertAll (rows ++ [row]) =
        (({} : OrderedMap α).insertAll rows).insert row.1 row.2 := insertAll_append _ _ _
    rw [hlast, keys_insert, ih, List.map_append, List.map_singleton]
    by_cases hk : row.1 ∈ rows.map Prod.fst
    · rw [if_pos (List.mem_eraseDups.mpr hk), eraseDups_concat_of_mem hk]
    · rw [if_neg (fun hm => hk (List.mem_eraseDups.mp hm)), eraseDups_concat_of_notMem hk]

theorem get?_insertAll_empty (rows : List (String × α)) (name : String) :
    (({} : OrderedMap α).insertAll rows).get? name = lastOf? rows name :=
  (get?_insertAll_last _ rows name).trans Option.or_none

/-- A map that was made by insertions holds what was inserted. -/
theorem tabulates_insertAll (rows : List (String × α)) :
    Tabulates rows (({} : OrderedMap α).insertAll rows).values
      (({} : OrderedMap α).insertAll rows).get? where
  listed := by
    rw [map_some_values, keys_insertAll]
    exact List.map_congr_left fun name _ => get?_insertAll_empty rows name
  get? := get?_insertAll_empty rows

theorem values_put_eq_replace [BEq α] [LawfulBEq α] {key : String} {previous : α}
    {l : List (String × α)} (h : find key l = some previous) (hn : (l.map Prod.snd).Nodup)
    (value : α) : (put key value l).2.map Prod.snd = (l.map Prod.snd).replace previous value := by
  induction l with
  | nil => cases h
  | cons e rest ih =>
    obtain ⟨k, v⟩ := e
    obtain ⟨hnew, hrest⟩ := List.nodup_cons.mp hn
    by_cases hk : k = key
    · obtain rfl : v = previous := by simpa [find, hk] using h
      simp [put, hk]
    · have hfind : find key rest = some previous := by simpa [find, hk] using h
      have hne : previous ≠ v := by
        rintro rfl
        exact hnew (List.mem_map.mpr ⟨_, mem_of_find hfind, rfl⟩)
      have hbeq : (previous == v) = false := beq_eq_false_iff_ne.mpr hne
      simp [put, hk, List.replace_cons, hbeq, ih hfind hrest]

end OrderedMap

end GoPackages
