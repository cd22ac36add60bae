import GoPackages.Proofs.IndexedMap
import GoPackages.Proofs.Package.DeclLists

/-!
# Declarations in the order of their names

A package keeps six lists of declarations. Each of them has one place for every name that was
declared in it, in the order in which the names first came, and the place holds what the name was
last declared as. The lists of types are searched for the type that gives way, so this needs that
no type is declared twice.
-/
namespace GoPackages

namespace DeclList

variable {d : DeclList}

/-- The listed types are those of the names, in the order of the names. -/
structure Aligned (d : DeclList) : Prop where
  ids : d.ids = d.byName.values
  nodup : d.ids.Nodup

theorem aligned_empty : ({} : DeclList).Aligned := ⟨rfl, List.nodup_nil⟩

theorem Aligned.exchange (h : d.Aligned) {name : String} {previous : TypeId}
    (hn : d.get? name = some previous) (ty : TypeId) :
    (previous :: (d.declare name ty).ids).Perm (ty :: d.ids) := by
  have hmem : previous ∈ d.ids := h.ids ▸ List.mem_map.mpr ⟨_, OrderedMap.mem_of_find hn, rfl⟩
  rw [ids_declare_of_some hn]
  exact replace_perm hmem

theorem Aligned.mem_ids_declare (h : d.Aligned) {name : String} {ty t : TypeId}
    (ht : t ∈ (d.declare name ty).ids) : t = ty ∨ t ∈ d.ids := by
  cases hn : d.get? name with
  | none =>
    rw [ids_declare_of_none hn, List.mem_append, List.mem_singleton] at ht
    exact ht.symm
  | some previous =>
    exact List.mem_cons.mp ((h.exchange hn ty).mem_iff.mp (List.mem_cons_of_mem previous ht))

theorem Aligned.declare (h : d.Aligned) {ty : TypeId} (hty : ty ∉ d.ids) (name : String) :
    (d.declare name ty).Aligned := by
  have hall : (ty :: d.ids).Nodup := List.nodup_cons.mpr ⟨hty, h.nodup⟩
  cases hn : d.get? name with
  | none =>
    have hput := OrderedMap.put_of_find_none hn ty
    have hids := ids_declare_of_none hn ty
    constructor
    · rw [hids, byName_declare, h.ids]
      simp [OrderedMap.insert, OrderedMap.getThenInsert?, OrderedMap.values, hput]
    · rw [hids]
      exact (List.perm_append_singleton ty d.ids).nodup_iff.mpr hall
  | some previous =>
    have hvalues : (d.byName.entries.map Prod.snd).Nodup := by
      have hnodup := h.nodup
      rwa [h.ids] at hnodup
    constructor
    · rw [ids_declare_of_some hn, byName_declare, h.ids]
      exact (OrderedMap.values_put_eq_replace hn hvalues ty).symm
    · exact (List.nodup_cons.mp ((h.exchange hn ty).nodup_iff.mpr hall)).2

theorem Aligned.declareAll (h : d.Aligned) {rows : List (String × TypeId)}
    (hn : (rows.map Prod.snd).Nodup) (hnew : ∀ ty ∈ rows.map Prod.snd, ty ∉ d.ids) :
    (d.declareAll rows).Aligned := by
  induction rows generalizing d with
  | nil => exact h
  | cons row rest ih =>
    obtain ⟨hrow, hrest⟩ := List.nodup_cons.mp hn
    refine ih (h.declare (hnew _ List.mem_cons_self) row.1) hrest fun ty hty hmem => ?_
    rcases h.mem_ids_declare hmem with rfl | hold
    · exact hrow hty
    · exact hnew ty (List.mem_cons_of_mem _ hty) hold

theorem tabulates_declareAll {rows : List (String × TypeId)} (hn : (rows.map Prod.snd).Nodup) :
    Tabulates rows (({} : DeclList).declareAll rows).ids
      (({} : DeclList).declareAll rows).get? := by
  have haligned : (({} : DeclList).declareAll rows).Aligned :=
    aligned_empty.declareAll hn fun _ _ hm => nomatch hm
  have hmap := OrderedMap.tabulates_insertAll rows
  constructor
  · rw [haligned.ids, byName_declareAll]
    exact hmap.listed
  · intro name
    rw [get?, byName_declareAll]
    exact hmap.get? name

end DeclList

inductive Declared where
  | function (name : String) (ty : TypeId)
  | struct (name : String) (ty : TypeId)
  | interface (name : String) (ty : TypeId)
  | type (name : String) (ty : TypeId)
  | variable (v : Variable)
  | constant (v : Variable)
  deriving DecidableEq, Repr

inductive TypeList where
  | functions
  | structs
  | interfaces
  | types

namespace Package

def declare (p : Package) : Declared → Package
  | .function name ty => p.declareFunction name ty
  | .struct name ty => p.declareStruct name ty
  | .interface name ty => p.declareInterface name ty
  | .type name ty => p.declareType name ty
  | .variable v => p.declareVariable v
  | .constant v => p.declareConstant v

def declareAll (p : Package) (ds : List Declared) : Package := ds.foldl declare p

def typeList (p : Package) : TypeList → DeclList
  | .functions => p.functions
  | .structs => p.structs
  | .interfaces => p.interfaces
  | .types => p.types

end Package

namespace Declared

def type? : Declared → Option TypeId
  | .function _ ty | .struct _ ty | .interface _ ty | .type _ ty => some ty
  | .variable _ | .constant _ => none

/-- What a list of types takes of a declaration: structs and interfaces are also types. -/
def typeRow? : TypeList → Declared → Option (String × TypeId)
  | .functions, .function name ty => some (name, ty)
  | .structs, .struct name ty => some (name, ty)
  | .interfaces, .interface name ty => some (name, ty)
  | .types, .struct name ty | .types, .interface name ty | .types, .type name ty => some (name, ty)
  | _, _ => none

def variableRow? : Declared → Option (String × Variable)
  | .variable v => some (v.name, v)
  | _ => none

def constantRow? : Declared → Option (String × Variable)
  | .constant v => some (v.name, v)
  | _ => none

theorem type?_of_typeRow? {list : TypeList} {d : Declared} {row : String × TypeId}
    (h : typeRow? list d = some row) : d.type? = some row.2 := by
  cases list <;> cases d <;> cases h <;> rfl

theorem types_typeRow_sublist (list : TypeList) (ds : List Declared) :
    ((ds.filterMap (typeRow? list)).map Prod.snd).Sublist (ds.filterMap type?) := by
  induction ds with
  | nil => exact .slnil
  | cons d rest ih =>
    cases hrow : typeRow? list d with
    | none =>
      rw [List.filterMap_cons_none hrow]
      exact ih.trans ((List.sublist_cons_self d rest).filterMap type?)
    | some row =>
      rw [List.filterMap_cons_some hrow, List.filterMap_cons_some (type?_of_typeRow? hrow)]
      exact ih.cons_cons row.2

end Declared

namespace Package

variable (p : Package) (ds : List Declared)

theorem typeList_declareAll (list : TypeList) :
    (p.declareAll ds).typeList list =
      (p.typeList list).declareAll (ds.filterMap (Declared.typeRow? list)) := by
  rw [DeclList.declareAll, List.foldl_filterMap]
  refine (List.foldl_hom (fun p : Package => p.typeList list) fun p d => ?_).symm
  cases list <;> cases d <;> rfl

theorem vars_declareAll :
    (p.declareAll ds).vars = p.vars.insertAll (ds.filterMap Declared.variableRow?) := by
  rw [OrderedMap.insertAll, List.foldl_filterMap]
  refine (List.foldl_hom Package.vars fun p d => ?_).symm
  cases d <;> rfl

theorem consts_declareAll :
    (p.declareAll ds).consts = p.consts.insertAll (ds.filterMap Declared.constantRow?) := by
  rw [OrderedMap.insertAll, List.foldl_filterMap]
  refine (List.foldl_hom Package.consts fun p d => ?_).symm
  cases d <;> rfl

end Package

/-- Whatever is declared in a new package, in whatever order and however often, each of its lists
has one place for every name that was declared in it, in the order in which the names first came,
and the list and its look-up hold what the name was last declared as there. Variables and constants
that are found through an index of their places are listed and found alike. -/
theorem declarations_keep_first_order (info : PackageInfo) {ds : List Declared}
    (hn : (ds.filterMap Declared.type?).Nodup) :
    let p := (Package.ofInfo info).declareAll ds
    let vars := ({} : IndexedMap Variable).insertAll (ds.filterMap Declared.variableRow?)
    let consts := ({} : IndexedMap Variable).insertAll (ds.filterMap Declared.constantRow?)
    (∀ list, Tabulates (ds.filterMap (Declared.typeRow? list)) (p.typeList list).ids
      (p.typeList list).get?) ∧
    Tabulates (ds.filterMap Declared.variableRow?) p.vars.values p.vars.get? ∧
    Tabulates (ds.filterMap Declared.constantRow?) p.consts.values p.consts.get? ∧
    vars.Indexes p.vars ∧
    Tabulates (ds.filterMap Declared.variableRow?) vars.values vars.get? ∧
    consts.Indexes p.consts ∧
    Tabulates (ds.filterMap Declared.constantRow?) consts.values consts.get? := by
  intro p vars consts
  have htypes : ∀ list, Tabulates (ds.filterMap (Declared.typeRow? list)) (p.typeList list).ids
      (p.typeList list).get? := by
    intro list
    have hempty : (Package.ofInfo info).typeList list = {} := by cases list <;> rfl
    rw [Package.typeList_declareAll, hempty]
    exact DeclList.tabulates_declareAll (hn.sublist (Declared.types_typeRow_sublist list ds))
  have hvars : p.vars = ({} : OrderedMap Variable).insertAll (ds.filterMap Declared.variableRow?) :=
    Package.vars_declareAll _ ds
  have hconsts : p.consts =
      ({} : OrderedMap Variable).insertAll (ds.filterMap Declared.constantRow?) :=
    Package.consts_declareAll _ ds
  have hvarRows := OrderedMap.tabulates_insertAll (ds.filterMap Declared.variableRow?)
  have hconstRows := OrderedMap.tabulates_insertAll (ds.filterMap Declared.constantRow?)
  have hvarIndex := IndexedMap.Indexes.empty.insertAll (ds.filterMap Declared.variableRow?)
  have hconstIndex := IndexedMap.Indexes.empty.insertAll (ds.filterMap Declared.constantRow?)
  rw [hvars, hconsts]
  exact ⟨htypes, hvarRows, hconstRows, hvarIndex, hvarIndex.tabulates hvarRows, hconstIndex,
    hconstIndex.tabulates hconstRows⟩

/-- A struct that becomes an interface and then another struct, with other declarations of the same
name between them. -/
def oneNameForAll : List Declared :=
  [.type "B" ⟨0⟩, .struct "A" ⟨1⟩, .variable ⟨"A", none, []⟩, .interface "A" ⟨2⟩,
    .function "A" ⟨3⟩, .variable ⟨"x", none, []⟩, .struct "A" ⟨4⟩, .variable ⟨"A", some ⟨7⟩, []⟩]

theorem oneNameForAll_listed :
    (oneNameForAll.filterMap Declared.type?).Nodup ∧
    let p := (Package.ofInfo ⟨"p", "p", "", []⟩).declareAll oneNameForAll
    p.types.ids.map some = [some ⟨0⟩, some ⟨4⟩] ∧ p.structs.get? "A" = some ⟨4⟩ ∧
      p.interfaces.get? "A" = some ⟨2⟩ ∧
      p.vars.values.map some = [some ⟨"A", some ⟨7⟩, []⟩, some ⟨"x", none, []⟩] := by
  have hn : (oneNameForAll.filterMap Declared.type?).Nodup := by decide
  obtain ⟨htypes, hvars, -⟩ := declarations_keep_first_order ⟨"p", "p", "", []⟩ hn
  refine ⟨hn, (htypes .types).listed.trans ?_, ((htypes .structs).get? "A").trans ?_,
    ((htypes .interfaces).get? "A").trans ?_, hvars.listed.trans ?_⟩
  · decide +kernel
  · decide +kernel
  · decide +kernel
  · decide +kernel

end GoPackages
