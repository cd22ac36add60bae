import Mathlib.Logic.Relation
import GoPackages.Proofs.Registry.Outlines
import Std.Data.HashMap

/-!
# The package tree

A package looks for its parent by cutting its import path at the last slash, and for its
children by what comes after its own path and a slash. Both tests mean the same on all paths,
so the links of the packages follow from their paths alone, in whatever order they came in.
-/
namespace GoPackages

/-- A path is another one with a slash and one more segment, which may be empty. -/
def OneAbove (above path : String) : Prop :=
  ∃ segment : String, '/' ∉ segment.toList ∧ path = above ++ "/" ++ segment

section Paths

variable {above path : String}

theorem oneAbove_iff : OneAbove above path ↔
    ∃ segment, '/' ∉ segment ∧ path = String.ofList (above.toList ++ '/' :: segment) := by
  constructor
  · rintro ⟨segment, hslash, rfl⟩
    refine ⟨segment.toList, hslash, String.toList_injective ?_⟩
    simp
  · rintro ⟨segment, hslash, rfl⟩
    refine ⟨String.ofList segment, by simpa using hslash, String.toList_injective ?_⟩
    simp

theorem OneAbove.length_lt (h : OneAbove above path) : above.length < path.length := by
  obtain ⟨segment, -, rfl⟩ := h
  have hslash : "/".length = 1 := rfl
  rw [String.length_append, String.length_append]
  omega

theorem exists_last_separator {sep : Char} {cs : List Char} (h : sep ∈ cs) :
    ∃ before after, sep ∉ after ∧ cs = before ++ sep :: after := by
  obtain ⟨after, before, hsep, heq⟩ := List.eq_append_cons_of_mem (List.mem_reverse.mpr h)
  refine ⟨before.reverse, after.reverse, by simpa using heq, ?_⟩
  rw [← List.reverse_reverse cs, hsep]
  simp

theorem parentPath?_eq_some_iff : parentPath? path = some above ↔ OneAbove above path := by
  rw [oneAbove_iff]
  constructor
  · intro h
    by_cases hslash : '/' ∈ path.toList
    · obtain ⟨before, after, hafter, heq⟩ := exists_last_separator hslash
      have hpath : path = String.ofList (before ++ '/' :: after) := by
        rw [← heq, String.ofList_toList]
      rw [parentPath?, hpath, Text.beforeLast?_append hafter] at h
      obtain rfl := Option.some.inj h
      exact ⟨after, hafter, by rwa [String.toList_ofList]⟩
    · have hnone := Text.beforeLast?_of_not_mem hslash
      rw [String.ofList_toList] at hnone
      rw [parentPath?, hnone] at h
      cases h
  · rintro ⟨segment, hslash, rfl⟩
    rw [parentPath?, Text.beforeLast?_append hslash, String.ofList_toList]

theorem isSegmentBelow_iff : isSegmentBelow above path = true ↔ OneAbove above path := by
  simp only [isSegmentBelow, Text.afterPrefix?, Option.any_map, Option.any_eq_true,
    List.isPrefixOf?_eq_some_iff_append_eq, oneAbove_iff]
  constructor
  · rintro ⟨segment, heq, hslash⟩
    refine ⟨segment, by simpa using hslash, ?_⟩
    rw [← String.ofList_toList (s := path), ← heq]
    simp
  · rintro ⟨segment, hslash, rfl⟩
    exact ⟨segment, by simp, by simpa using hslash⟩

theorem OneAbove.unique {above' : String} (h : OneAbove above path) (h' : OneAbove above' path) :
    above = above' :=
  Option.some.inj ((parentPath?_eq_some_iff.mpr h).symm.trans (parentPath?_eq_some_iff.mpr h'))

end Paths

namespace Registry

variable {reg reg' : Registry}

def ParentOf (reg : Registry) (q c : PackageId) : Prop :=
  ∃ p, reg.package? c = some p ∧ p.parent = some q

def LinksPaths (reg : Registry) (above path : String) : Prop :=
  ∃ q c, reg.byPath? above = some q ∧ reg.byPath? path = some c ∧ reg.ParentOf q c

/-- The links of the packages are those of their paths. -/
structure PackageTree (reg : Registry) : Prop where
  byPath : ∀ path q, reg.byPath? path = some q ↔
    ∃ p, reg.package? q = some p ∧ p.importPath = path
  registered : ∀ q c, reg.ParentOf q c → reg.Registered q
  parent : ∀ c q pc pq, reg.package? c = some pc → reg.package? q = some pq →
    (pc.parent = some q ↔ OneAbove pq.importPath pc.importPath)
  sorted : ∀ q p, reg.package? q = some p → p.subpackages.Pairwise (·.index < ·.index)
  subpackages : ∀ q p, reg.package? q = some p → ∀ c, c ∈ p.subpackages ↔ reg.ParentOf q c

theorem byPath?_iff_of_distinct (h : ∀ q q' p p', reg.package? q = some p →
      reg.package? q' = some p' → p.importPath = p'.importPath → q = q')
    (path : String) (q : PackageId) :
    reg.byPath? path = some q ↔ ∃ p, reg.package? q = some p ∧ p.importPath = path := by
  rw [byPath?_eq_some_iff]
  refine ⟨And.left, fun hq => ⟨hq, fun i hi p hp hpath => ?_⟩⟩
  obtain ⟨p', hp', rfl⟩ := hq
  obtain rfl := h ⟨i⟩ q p p' hp hp' hpath
  exact Nat.lt_irrefl i hi

namespace PackageTree

theorem distinct (h : reg.PackageTree) {q q' : PackageId} {p p' : Package}
    (hp : reg.package? q = some p) (hp' : reg.package? q' = some p')
    (heq : p.importPath = p'.importPath) : q = q' := by
  have hq := (h.byPath p.importPath q).mpr ⟨p, hp, rfl⟩
  have hq' := (h.byPath p.importPath q').mpr ⟨p', hp', heq.symm⟩
  exact Option.some.inj (hq.symm.trans hq')

theorem oneAbove (h : reg.PackageTree) {q c : PackageId} (hc : reg.ParentOf q c) :
    ∃ pq pc, reg.package? q = some pq ∧ reg.package? c = some pc ∧
      OneAbove pq.importPath pc.importPath := by
  obtain ⟨pq, hq⟩ := h.registered q c hc
  obtain ⟨pc, hpc, hparent⟩ := hc
  exact ⟨pq, pc, hq, hpc, (h.parent c q pc pq hpc hq).mp hparent⟩

theorem length_lt (h : reg.PackageTree) {q c : PackageId}
    (hc : Relation.TransGen reg.ParentOf q c) :
    ∃ pq pc, reg.package? q = some pq ∧ reg.package? c = some pc ∧
      pq.importPath.length < pc.importPath.length := by
  induction hc with
  | single hstep =>
    obtain ⟨pq, pc, hq, hpc, habove⟩ := h.oneAbove hstep
    exact ⟨pq, pc, hq, hpc, habove.length_lt⟩
  | tail _ hstep ih =>
    obtain ⟨pq, pm, hq, hm, hlt⟩ := ih
    obtain ⟨pm', pc, hm', hpc, habove⟩ := h.oneAbove hstep
    obtain rfl := Option.some.inj (hm.symm.trans hm')
    exact ⟨pq, pc, hq, hpc, Nat.lt_trans hlt habove.length_lt⟩

theorem acyclic (h : reg.PackageTree) (q : PackageId) :
    ¬Relation.TransGen reg.ParentOf q q := by
  intro hcycle
  obtain ⟨p, p', hp, hp', hlt⟩ := h.length_lt hcycle
  obtain rfl := Option.some.inj (hp.symm.trans hp')
  exact Nat.lt_irrefl _ hlt

theorem linksPaths_iff (h : reg.PackageTree) {above path : String} : reg.LinksPaths above path ↔
      (reg.byPath? above).isSome ∧ (reg.byPath? path).isSome ∧ OneAbove above path := by
  constructor
  · rintro ⟨q, c, hq, hc, hparent⟩
    obtain ⟨pq, pc, hpq, hpc, habove⟩ := h.oneAbove hparent
    obtain ⟨pq', hpq', rfl⟩ := (h.byPath above q).mp hq
    obtain ⟨pc', hpc', rfl⟩ := (h.byPath path c).mp hc
    obtain rfl := Option.some.inj (hpq.symm.trans hpq')
    obtain rfl := Option.some.inj (hpc.symm.trans hpc')
    exact ⟨Option.isSome_of_eq_some hq, Option.isSome_of_eq_some hc, habove⟩
  · rintro ⟨hq, hc, habove⟩
    obtain ⟨q, hq⟩ := Option.isSome_iff_exists.mp hq
    obtain ⟨c, hc⟩ := Option.isSome_iff_exists.mp hc
    obtain ⟨pq, hpq, rfl⟩ := (h.byPath above q).mp hq
    obtain ⟨pc, hpc, rfl⟩ := (h.byPath path c).mp hc
    exact ⟨q, c, hq, hc, pc, hpc, (h.parent c q pc pq hpc hpq).mpr habove⟩

/-- The tree is one of paths and links, whatever else is known of the packages. -/
theorem of_links (h : reg.PackageTree) {α : Type} {g : Package → α}
    (hg : ∀ p p', g p = g p' → p.importPath = p'.importPath ∧ p.parent = p'.parent ∧
      p.subpackages = p'.subpackages)
    (hlinks : ∀ q, (reg'.package? q).map g = (reg.package? q).map g) : reg'.PackageTree := by
  have hback : ∀ {q p'}, reg'.package? q = some p' → ∃ p, reg.package? q = some p ∧
      p.importPath = p'.importPath ∧ p.parent = p'.parent ∧ p.subpackages = p'.subpackages := by
    intro q p' hp'
    have hq := hlinks q
    rw [hp'] at hq
    obtain ⟨p, hp, heq⟩ := Option.map_eq_some_iff.mp hq.symm
    exact ⟨p, hp, hg p p' heq⟩
  have hforth : ∀ {q p}, reg.package? q = some p → ∃ p', reg'.package? q = some p' ∧
      p.importPath = p'.importPath ∧ p.parent = p'.parent ∧ p.subpackages = p'.subpackages := by
    intro q p hp
    have hq := hlinks q
    rw [hp] at hq
    obtain ⟨p', hp', heq⟩ := Option.map_eq_some_iff.mp hq
    exact ⟨p', hp', hg p p' heq.symm⟩
  have hparent : ∀ q c, reg'.ParentOf q c ↔ reg.ParentOf q c := by
    intro q c
    constructor
    · rintro ⟨p', hp', hq⟩
      obtain ⟨p, hp, -, hlink, -⟩ := hback hp'
      exact ⟨p, hp, hlink.trans hq⟩
    · rintro ⟨p, hp, hq⟩
      obtain ⟨p', hp', -, hlink, -⟩ := hforth hp
      exact ⟨p', hp', hlink.symm.trans hq⟩
  constructor
  case byPath =>
    refine byPath?_iff_of_distinct fun q₁ q₂ p₁ p₂ hp₁ hp₂ heq => ?_
    obtain ⟨o₁, ho₁, hpath₁, -⟩ := hback hp₁
    obtain ⟨o₂, ho₂, hpath₂, -⟩ := hback hp₂
    exact h.distinct ho₁ ho₂ (hpath₁.trans (heq.trans hpath₂.symm))
  case registered =>
    intro q c hc
    obtain ⟨p, hp⟩ := h.registered q c ((hparent q c).mp hc)
    obtain ⟨p', hp', -⟩ := hforth hp
    exact ⟨p', hp'⟩
  case parent =>
    intro c q pc pq hpc hpq
    obtain ⟨oc, hoc, hpathc, hlink, -⟩ := hback hpc
    obtain ⟨oq, hoq, hpathq, -⟩ := hback hpq
    rw [← hlink, ← hpathc, ← hpathq]
    exact h.parent c q oc oq hoc hoq
  case sorted =>
    intro q p hp
    obtain ⟨o, ho, -, -, hsubs⟩ := hback hp
    exact hsubs ▸ h.sorted q o ho
  case subpackages =>
    intro q p hp c
    obtain ⟨o, ho, -, -, hsubs⟩ := hback hp
    rw [← hsubs, hparent]
    exact h.subpackages q o ho c

end PackageTree

theorem package?_modifyPackage (reg : Registry) (id q : PackageId) (f : Package → Package) :
    (reg.modifyPackage id f).package? q =
      (reg.package? q).map fun p => if q = id then f p else p := by
  cases hp : reg.package? q with
  | none =>
    have hkept := map_modifyPackage (g := fun _ => ()) (f := f) (fun _ => rfl) reg id q
    rw [hp] at hkept
    exact Option.map_eq_none_iff.mp hkept
  | some p =>
    rw [package?_modifyPackage_of_some hp]
    by_cases hq : id = q
    · simp [hq]
    · simp [hq, Ne.symm hq]

theorem package?_adopt (reg : Registry) (parent child q : PackageId) :
    (reg.adopt parent child).package? q = (reg.package? q).map fun p =>
      { p with
        parent := if q = child then some parent else p.parent
        subpackages := if q = parent then p.subpackages ++ [child] else p.subpackages } := by
  rw [adopt, package?_modifyPackage, package?_modifyPackage]
  cases reg.package? q with
  | none => rfl
  | some p =>
    simp only [Option.map_some, Option.some.injEq]
    split <;> split <;> rfl

theorem package?_adopts (parent : PackageId) (children : List PackageId) (reg : Registry)
    (q : PackageId) :
    (children.foldl (fun reg child => reg.adopt parent child) reg).package? q =
      (reg.package? q).map fun p =>
        { p with
          parent := if q ∈ children then some parent else p.parent
          subpackages := if q = parent then p.subpackages ++ children else p.subpackages } := by
  induction children generalizing reg with
  | nil => cases hp : reg.package? q <;> simp [hp]
  | cons child rest ih =>
    rw [List.foldl_cons, ih, package?_adopt]
    cases reg.package? q with
    | none => rfl
    | some p =>
      simp only [Option.map_some, Option.some.injEq, Package.mk.injEq, List.mem_cons, true_and,
        and_true]
      constructor
      · by_cases hr : q ∈ rest <;> simp [hr]
      · by_cases hq : q = parent <;> simp [hq]

theorem mem_orphansOf {path : String} {c : PackageId} : c ∈ reg.orphansOf path ↔
    ∃ p, reg.package? c = some p ∧ p.parent = none ∧ OneAbove path p.importPath := by
  simp only [orphansOf, List.mem_filter, Option.any_eq_true, Bool.and_eq_true,
    Option.isNone_iff_eq_none, isSegmentBelow_iff]
  refine ⟨And.right, fun h => ⟨?_, h⟩⟩
  obtain ⟨p, hp, -⟩ := h
  obtain ⟨hlt, -⟩ := Array.getElem?_eq_some_iff.mp hp
  exact List.mem_map.mpr ⟨c.index, List.mem_range.mpr hlt, rfl⟩

theorem orphansOf_sorted (reg : Registry) (path : String) :
    (reg.orphansOf path).Pairwise (·.index < ·.index) := by
  refine List.Pairwise.filter _ (List.pairwise_map.mpr ?_)
  exact List.pairwise_lt_range

/-- A new package without links is linked with the package above it and with those below it that
have no parent, and nothing else changes. -/
structure Linked (reg : Registry) (p : Package) (reg' : Registry) (id : PackageId)
    (up : Option PackageId) (down : List PackageId) : Prop where
  new : reg.package? id = none
  above : ∀ q, up = some q ↔ ∃ path, OneAbove path p.importPath ∧ reg.byPath? path = some q
  sorted : down.Pairwise (·.index < ·.index)
  below : ∀ c, c ∈ down ↔
    ∃ pc, reg.package? c = some pc ∧ pc.parent = none ∧ OneAbove p.importPath pc.importPath
  self : reg'.package? id = some { p with parent := up, subpackages := down }
  others : ∀ q, q ≠ id → reg'.package? q = (reg.package? q).map fun old =>
    { old with
      parent := if q ∈ down then some id else old.parent
      subpackages := if up = some q then old.subpackages ++ [id] else old.subpackages }

/-- The new package under the one above it, before it looks for its children. -/
def Placed (reg : Registry) (p : Package) (mid : Registry) (id : PackageId)
    (up : Option PackageId) : Prop :=
  ∀ q, mid.package? q = if q = id then some { p with parent := up }
    else (reg.package? q).map fun old =>
      { old with subpackages := if up = some q then old.subpackages ++ [id] else old.subpackages }

section Append

variable {p : Package} {id : PackageId} {up : Option PackageId}

theorem placed_push (hparent : p.parent = none) :
    Placed reg p { reg with packages := reg.packages.push p } ⟨reg.packages.size⟩ none := by
  intro q
  rw [package?_push]
  split
  · rw [← hparent]
  · simp

theorem placed_adopt {parent : PackageId} (hregistered : reg.Registered parent) :
    Placed reg p (adopt { reg with packages := reg.packages.push p } parent ⟨reg.packages.size⟩)
      ⟨reg.packages.size⟩ (some parent) := by
  have hne : parent ≠ ⟨reg.packages.size⟩ := by
    rintro rfl
    obtain ⟨old, hold⟩ := hregistered
    exact absurd (Array.getElem?_eq_some_iff.mp hold).1 (Nat.lt_irrefl _)
  intro q
  rw [package?_adopt, package?_push]
  split
  next hq =>
    subst hq
    simp [Ne.symm hne]
  next => simp [eq_comm]

theorem Placed.linked {mid : Registry} (h : Placed reg p mid id up) (hnew : reg.package? id = none)
    (hup : ∀ q, up = some q ↔ ∃ path, OneAbove path p.importPath ∧ reg.byPath? path = some q)
    (hsubs : p.subpackages = []) :
    Linked reg p ((mid.orphansOf p.importPath).foldl (fun reg child => reg.adopt id child) mid) id
      up (mid.orphansOf p.importPath) := by
  have hdown : ∀ c, c ∈ mid.orphansOf p.importPath ↔ ∃ pc, reg.package? c = some pc ∧
      pc.parent = none ∧ OneAbove p.importPath pc.importPath := by
    intro c
    rw [mem_orphansOf, h c]
    split
    next hc =>
      subst hc
      rw [hnew]
      constructor
      · rintro ⟨pc, hpc, -, habove⟩
        obtain rfl := Option.some.inj hpc
        exact absurd habove.length_lt (Nat.lt_irrefl _)
      · rintro ⟨pc, hpc, -⟩
        cases hpc
    next => simp only [Option.map_eq_some_iff, exists_exists_and_eq_and]
  have hself : id ∉ mid.orphansOf p.importPath := by
    rw [hdown, hnew]
    rintro ⟨pc, hpc, -⟩
    cases hpc
  refine ⟨hnew, hup, orphansOf_sorted mid _, hdown, ?_, fun q hq => ?_⟩
  · rw [package?_adopts, h, if_pos rfl]
    simp [hself, hsubs]
  · rw [package?_adopts, h, if_neg hq, Option.map_map]
    simp only [Function.comp_def, if_neg hq]

theorem append_linked (hparent : p.parent = none) (hsubs : p.subpackages = [])
    (h : reg.append p = .ok (id, reg')) : ∃ up down, Linked reg p reg' id up down := by
  have hup : ∀ q, (parentPath? p.importPath).bind reg.byPath? = some q ↔
      ∃ path, OneAbove path p.importPath ∧ reg.byPath? path = some q := fun q => by
    simp only [Option.bind_eq_some_iff, parentPath?_eq_some_iff]
  have hnew : reg.package? ⟨reg.packages.size⟩ = none := Array.getElem?_eq_none (Nat.le_refl _)
  unfold append at h
  cases hnone : reg.byPath? p.importPath with
  | some q => rw [hnone] at h; cases h
  | none =>
    rw [hnone] at h
    cases hfound : (parentPath? p.importPath).bind reg.byPath? with
    | none =>
      rw [hfound] at h hup
      obtain ⟨rfl, rfl⟩ := Prod.mk.inj (Except.ok.inj h)
      exact ⟨none, _, (placed_push hparent).linked hnew hup hsubs⟩
    | some parent =>
      rw [hfound] at h hup
      obtain ⟨rfl, rfl⟩ := Prod.mk.inj (Except.ok.inj h)
      obtain ⟨path, -, hpath⟩ := (hup parent).mp rfl
      obtain ⟨⟨old, hold, -⟩, -⟩ := byPath?_eq_some_iff.mp hpath
      exact ⟨some parent, _, (placed_adopt ⟨old, hold⟩).linked hnew hup hsubs⟩

end Append

section Linked

variable {p : Package} {id : PackageId} {up : Option PackageId} {down : List PackageId}

theorem index_lt_of_new (hnew : reg.package? id = none) {q : PackageId} (hq : reg.Registered q) :
    q.index < id.index := by
  obtain ⟨old, hold⟩ := hq
  have hlt := (Array.getElem?_eq_some_iff.mp hold).1
  have hle := Array.getElem?_eq_none_iff.mp hnew
  omega

theorem Linked.ne_new (h : Linked reg p reg' id up down) {q : PackageId}
    (hq : reg.Registered q) : q ≠ id := by
  obtain ⟨old, hold⟩ := hq
  rintro rfl
  rw [h.new] at hold
  cases hold

theorem Linked.package?_cases (h : Linked reg p reg' id up down) {q : PackageId} {p' : Package}
    (hq : reg'.package? q = some p') :
    (q = id ∧ p' = { p with parent := up, subpackages := down }) ∨
      q ≠ id ∧ ∃ old, reg.package? q = some old ∧ p' =
        { old with
          parent := if q ∈ down then some id else old.parent
          subpackages := if up = some q then old.subpackages ++ [id] else old.subpackages } := by
  by_cases hid : q = id
  · subst hid
    exact .inl ⟨rfl, Option.some.inj (hq.symm.trans h.self)⟩
  · rw [h.others q hid] at hq
    obtain ⟨old, hold, rfl⟩ := Option.map_eq_some_iff.mp hq
    exact .inr ⟨hid, old, hold, rfl⟩

theorem Linked.parentOf_iff (h : Linked reg p reg' id up down) {q c : PackageId} :
    reg'.ParentOf q c ↔ (c = id ∧ up = some q) ∨ (c ∈ down ∧ q = id) ∨ reg.ParentOf q c := by
  by_cases hc : c = id
  · subst hc
    have hdown : c ∉ down := by
      rw [h.below, h.new]
      rintro ⟨pc, hpc, -⟩
      cases hpc
    have hold : ¬reg.ParentOf q c := by
      rintro ⟨pc, hpc, -⟩
      rw [h.new] at hpc
      cases hpc
    have hself : reg'.ParentOf q c ↔ up = some q := by simp [ParentOf, h.self]
    simp [hself, hdown, hold]
  · rw [ParentOf, h.others c hc]
    by_cases hdown : c ∈ down
    · obtain ⟨pc, hpc, hfree, -⟩ := (h.below c).mp hdown
      simp [ParentOf, hpc, hfree, hc, hdown, eq_comm]
    · simp [ParentOf, hc, hdown]

namespace PackageTree

theorem parent_eq_none (h : reg.PackageTree) {path : String} (hnone : reg.byPath? path = none)
    {c : PackageId} {pc : Package} (hpc : reg.package? c = some pc)
    (habove : OneAbove path pc.importPath) : pc.parent = none := by
  cases hparent : pc.parent with
  | none => rfl
  | some r =>
    obtain ⟨pr, hpr⟩ := h.registered r c ⟨pc, hpc, hparent⟩
    have habove' := (h.parent c r pc pr hpc hpr).mp hparent
    exact absurd (habove'.unique habove) (importPath_ne_of_byPath? hnone hpr)

section Grown

variable (h : reg.PackageTree) (hl : Linked reg p reg' id up down)
include h hl

theorem up_registered {q : PackageId} (hq : up = some q) : reg.Registered q := by
  obtain ⟨path, -, hpath⟩ := (hl.above q).mp hq
  obtain ⟨old, hold, -⟩ := (h.byPath path q).mp hpath
  exact ⟨old, hold⟩

theorem parent_of_new {q : PackageId} {pq : Package} (hpq : reg.package? q = some pq) :
    up = some q ↔ OneAbove pq.importPath p.importPath := by
  rw [hl.above]
  constructor
  · rintro ⟨path, habove, hpath⟩
    obtain ⟨old, hold, rfl⟩ := (h.byPath path q).mp hpath
    obtain rfl := Option.some.inj (hold.symm.trans hpq)
    exact habove
  · exact fun habove => ⟨_, habove, (h.byPath _ q).mpr ⟨pq, hpq, rfl⟩⟩

variable (hnone : reg.byPath? p.importPath = none)
include hnone

theorem mem_down_iff {c : PackageId} {pc : Package} (hpc : reg.package? c = some pc) :
    c ∈ down ↔ OneAbove p.importPath pc.importPath := by
  rw [hl.below]
  constructor
  · rintro ⟨pc', hpc', -, habove⟩
    obtain rfl := Option.some.inj (hpc.symm.trans hpc')
    exact habove
  · exact fun habove => ⟨pc, hpc, h.parent_eq_none hnone hpc habove, habove⟩

theorem linked_parent (c q : PackageId) (pc pq : Package) (hpc : reg'.package? c = some pc)
    (hpq : reg'.package? q = some pq) :
    pc.parent = some q ↔ OneAbove pq.importPath pc.importPath := by
  rcases hl.package?_cases hpc with ⟨rfl, rfl⟩ | ⟨hc, oc, hoc, rfl⟩ <;>
    rcases hl.package?_cases hpq with ⟨hq, rfl⟩ | ⟨hq, oq, hoq, rfl⟩
  · refine iff_of_false (fun hself => hl.ne_new (h.up_registered hl hself) hq) fun habove => ?_
    exact absurd habove.length_lt (Nat.lt_irrefl _)
  · have habove := h.parent_of_new hl hoq
    exact habove
  · subst hq
    have hdown := h.mem_down_iff hl hnone hoc
    by_cases hmem : c ∈ down
    · rw [if_pos hmem]
      exact iff_of_true rfl (hdown.mp hmem)
    · rw [if_neg hmem]
      refine iff_of_false (fun hparent => ?_) fun habove => hmem (hdown.mpr habove)
      exact hl.ne_new (h.registered q c ⟨oc, hoc, hparent⟩) rfl
  · have hold := h.parent c q oc oq hoc hoq
    by_cases hmem : c ∈ down
    · have habove := (h.mem_down_iff hl hnone hoc).mp hmem
      rw [if_pos hmem]
      refine iff_of_false (fun heq => hq (Option.some.inj heq).symm) fun habove' => ?_
      exact importPath_ne_of_byPath? hnone hoq (habove'.unique habove)
    · rw [if_neg hmem]
      exact hold

theorem linked : reg'.PackageTree where
  byPath := by
    have hfree : ∀ {q old}, reg.package? q = some old → old.importPath ≠ p.importPath :=
      fun hold => importPath_ne_of_byPath? hnone hold
    refine byPath?_iff_of_distinct fun q q' p₁ p₂ hp₁ hp₂ heq => ?_
    rcases hl.package?_cases hp₁ with ⟨rfl, rfl⟩ | ⟨-, o₁, ho₁, rfl⟩ <;>
      rcases hl.package?_cases hp₂ with ⟨rfl, rfl⟩ | ⟨-, o₂, ho₂, rfl⟩
    · rfl
    · exact (hfree ho₂ heq.symm).elim
    · exact (hfree ho₁ heq).elim
    · exact h.distinct ho₁ ho₂ heq
  registered := by
    have hkept : ∀ {q}, reg.Registered q → reg'.Registered q := by
      rintro q ⟨old, hold⟩
      rw [Registered, hl.others q (hl.ne_new ⟨old, hold⟩), hold]
      exact ⟨_, rfl⟩
    intro q c hc
    rcases hl.parentOf_iff.mp hc with ⟨-, hq⟩ | ⟨-, rfl⟩ | hold
    · exact hkept (h.up_registered hl hq)
    · exact ⟨_, hl.self⟩
    · exact hkept (h.registered q c hold)
  parent := h.linked_parent hl hnone
  sorted := by
    intro q p' hp'
    rcases hl.package?_cases hp' with ⟨rfl, rfl⟩ | ⟨-, old, hold, rfl⟩
    · exact hl.sorted
    · dsimp only
      split
      · refine List.pairwise_append.mpr ⟨h.sorted q old hold, List.pairwise_singleton _ _, ?_⟩
        intro c hc d hd
        obtain rfl := List.mem_singleton.mp hd
        obtain ⟨pc, hpc, -⟩ := (h.subpackages q old hold c).mp hc
        exact index_lt_of_new hl.new ⟨pc, hpc⟩
      · exact h.sorted q old hold
  subpackages := by
    intro q p' hp' c
    rw [hl.parentOf_iff]
    rcases hl.package?_cases hp' with ⟨rfl, rfl⟩ | ⟨hq, old, hold, rfl⟩
    · have hnotup : up ≠ some q := fun hself => hl.ne_new (h.up_registered hl hself) rfl
      have hold : ¬reg.ParentOf q c := fun hc => hl.ne_new (h.registered q c hc) rfl
      simp [hnotup, hold]
    · have hsubs := h.subpackages q old hold c
      dsimp only
      split
      next hparent => simp [hsubs, hparent, hq, or_comm]
      next hparent => simp [hsubs, hparent, hq]

end Grown

end PackageTree

/-- A package that comes in without links takes its place in the tree. -/
theorem PackageTree.append (h : reg.PackageTree) (hparent : p.parent = none)
    (hsubs : p.subpackages = []) (happend : reg.append p = .ok (id, reg')) : reg'.PackageTree := by
  obtain ⟨up, down, hl⟩ := append_linked hparent hsubs happend
  exact h.linked hl (append_ok happend).1

end Linked

theorem PackageTree.edits (h : reg.PackageTree) (he : Edits reg reg') : reg'.PackageTree := by
  refine h.of_links (g := Package.undeclared) (fun p p' heq => ?_) he.undeclared
  have hpath : p.undeclared.importPath = p'.undeclared.importPath := by rw [heq]
  have hparent : p.undeclared.parent = p'.undeclared.parent := by rw [heq]
  have hsubs : p.undeclared.subpackages = p'.undeclared.subpackages := by rw [heq]
  exact ⟨hpath, hparent, hsubs⟩

theorem PackageTree.modifyPackage (h : reg.PackageTree) (q : PackageId) {f : Package → Package}
    (hf : ∀ p, (f p).importPath = p.importPath ∧ (f p).parent = p.parent ∧
      (f p).subpackages = p.subpackages) : (reg.modifyPackage q f).PackageTree := by
  refine h.of_links (g := fun p => (p.importPath, p.parent, p.subpackages)) (fun p p' heq => ?_)
    (map_modifyPackage (fun p => ?_) reg q)
  · simpa only [Prod.mk.injEq] using heq
  · simpa only [Prod.mk.injEq] using hf p

section PathIndex

variable {p : Package} {id : PackageId}

def importPaths (reg : Registry) : List String := reg.packages.toList.map (·.importPath)

/-- The ids of the packages under their import paths, with an entry for every package that came
in. -/
def pathIndex (reg : Registry) : Std.HashMap String PackageId :=
  reg.importPaths.zipIdx.foldl (fun index (path, i) => index.insert path ⟨i⟩) ∅

theorem getElem?_importPaths (reg : Registry) (q : PackageId) :
    reg.importPaths[q.index]? = (reg.package? q).map (·.importPath) := by
  simp [importPaths, package?]

theorem getElem?_snoc {α : Type} (l : List α) (a : α) (i : Nat) :
    (l ++ [a])[i]? = if i = l.length then some a else l[i]? := by
  grind

theorem length_importPaths (reg : Registry) : reg.importPaths.length = reg.packages.size := by
  simp [importPaths]

theorem exists_importPath {i : Nat} (h : i < reg.importPaths.length) :
    ∃ p, reg.package? ⟨i⟩ = some p ∧ p.importPath = reg.importPaths[i] := by
  have hi := getElem?_importPaths reg ⟨i⟩
  rw [List.getElem?_eq_getElem h] at hi
  exact Option.map_eq_some_iff.mp hi.symm

theorem pathIndex_append (h : reg.append p = .ok (id, reg')) :
    reg'.pathIndex = reg.pathIndex.insert p.importPath id := by
  obtain ⟨-, rfl, -, -, hall⟩ := append_ok h
  have hpaths : reg'.importPaths = reg.importPaths ++ [p.importPath] := by
    refine List.ext_getElem? fun i => ?_
    have hi := congrArg (Option.map (·.importPath)) (hall ⟨i⟩)
    rw [Option.map_map] at hi
    rw [getElem?_importPaths reg' ⟨i⟩]
    refine hi.trans ?_
    rw [getElem?_snoc, length_importPaths, getElem?_importPaths reg ⟨i⟩]
    by_cases hnew : i = reg.packages.size
    · rw [if_pos (congrArg PackageId.mk hnew), if_pos hnew]
      rfl
    · have hid : (⟨i⟩ : PackageId) ≠ ⟨reg.packages.size⟩ := fun heq => hnew (PackageId.mk.inj heq)
      rw [if_neg hid, if_neg hnew, Option.map_map]
      rfl
  rw [pathIndex, hpaths, List.zipIdx_append, List.foldl_append, Nat.zero_add,
    length_importPaths]
  rfl

theorem index_eq_some_iff {paths : List String} (h : paths.Nodup) (path : String) (q : PackageId) :
    (paths.zipIdx.foldl (fun (index : Std.HashMap String PackageId) (path, i) =>
      index.insert path ⟨i⟩) ∅)[path]? = some q ↔ paths[q.index]? = some path := by
  induction paths using List.reverseRecOn with
  | nil => simp
  | append_singleton paths last ih =>
    rw [List.zipIdx_append, List.foldl_append]
    obtain ⟨hfront, -, hnew⟩ := List.nodup_append.mp h
    simp only [List.zipIdx_singleton, List.foldl_cons, List.foldl_nil,
      Std.HashMap.getElem?_insert, Nat.zero_add, beq_iff_eq]
    rw [getElem?_snoc]
    by_cases hlast : last = path
    · subst hlast
      have hfresh : paths[q.index]? ≠ some last := fun hq =>
        hnew last (List.mem_of_getElem? hq) last (List.mem_singleton_self last) rfl
      obtain ⟨i⟩ := q
      by_cases hi : i = paths.length
      · simp [hi]
      · simpa [hi, Ne.symm hi] using hfresh
    · rw [if_neg hlast, ih hfront]
      by_cases hi : q.index = paths.length
      · rw [if_pos hi, hi, List.getElem?_eq_none (Nat.le_refl _)]
        simp [hlast]
      · rw [if_neg hi]

theorem pathIndex_edits (h : Edits reg reg') : reg'.pathIndex = reg.pathIndex := by
  have hpaths : reg'.importPaths = reg.importPaths := by
    refine List.ext_getElem? fun i => ?_
    have hi := congrArg (Option.map (·.importPath)) (h.undeclared ⟨i⟩)
    rw [Option.map_map, Option.map_map] at hi
    rw [getElem?_importPaths reg' ⟨i⟩, getElem?_importPaths reg ⟨i⟩]
    exact hi
  rw [pathIndex, hpaths]
  rfl

theorem PackageTree.getElem?_pathIndex (h : reg.PackageTree) (path : String) :
    reg.pathIndex[path]? = reg.byPath? path := by
  have hdistinct : reg.importPaths.Nodup := by
    rw [List.nodup_iff_pairwise_ne, List.pairwise_iff_getElem]
    intro i j hi hj hlt heq
    obtain ⟨p, hp, hpath⟩ := exists_importPath hi
    obtain ⟨p', hp', hpath'⟩ := exists_importPath hj
    have hid := h.distinct hp hp' (hpath.trans (heq.trans hpath'.symm))
    exact absurd (PackageId.mk.inj hid) (Nat.ne_of_lt hlt)
  refine Option.ext fun q => ?_
  rw [pathIndex, index_eq_some_iff hdistinct, getElem?_importPaths, Option.map_eq_some_iff,
    h.byPath]

end PathIndex

theorem package?_new {q : PackageId} {p : Package} (h : Registry.new.package? q = some p) :
    q = ⟨0⟩ ∧ p.parent = none ∧ p.subpackages = [] := by
  have hone : Registry.new.packages.size = 1 := by decide +kernel
  have halone : ∀ p ∈ Registry.new.packages.toList, p.parent = none ∧ p.subpackages = [] := by
    decide +kernel
  refine ⟨?_, halone p (Array.mem_toList_iff.mpr (Array.mem_of_getElem? h))⟩
  obtain ⟨i⟩ := q
  have hlt : i < Registry.new.packages.size := (Array.getElem?_eq_some_iff.mp h).1
  rw [hone] at hlt
  obtain rfl := Nat.lt_one_iff.mp hlt
  rfl

theorem new_packageTree : Registry.new.PackageTree := by
  have hnoParent : ∀ q c, ¬Registry.new.ParentOf q c := by
    rintro q c ⟨p, hp, hq⟩
    rw [(package?_new hp).2.1] at hq
    cases hq
  constructor
  case byPath =>
    refine byPath?_iff_of_distinct fun q q' p p' hp hp' _ => ?_
    exact (package?_new hp).1.trans (package?_new hp').1.symm
  case registered => exact fun q c hc => (hnoParent q c hc).elim
  case parent =>
    intro c q pc pq hpc hpq
    obtain ⟨rfl, hparent, -⟩ := package?_new hpc
    obtain ⟨rfl, -⟩ := package?_new hpq
    obtain rfl := Option.some.inj (hpc.symm.trans hpq)
    refine ⟨fun hq => ?_, fun habove => absurd habove.length_lt (Nat.lt_irrefl _)⟩
    rw [hparent] at hq
    cases hq
  case sorted =>
    intro q p hp
    rw [(package?_new hp).2.2]
    exact .nil
  case subpackages =>
    intro q p hp c
    rw [(package?_new hp).2.2]
    exact ⟨fun hc => absurd hc List.not_mem_nil, fun hc => (hnoParent q c hc).elim⟩

end Registry

end GoPackages
