import GoPackages.Proofs.Environment.Terminals
import GoPackages.Proofs.Analysis.Expands
import GoPackages.Proofs.Registry.Later

/-!
# Looking up names while items come in any order

The names of a file without imports are found where they were found before, but for an alias,
which is found as what it stands for from its declaration on. Any other name of the package
has an entry that is its own, and no type before it is declared.
-/
namespace GoPackages

open Registry (Extends)

def declared (items : List Item) : List String := items.flatMap Item.typeNames

theorem declared_mono {items items' : List Item} (h : items ⊆ items') :
    declared items ⊆ declared items' := by
  intro n hn
  obtain ⟨item, hm, hn⟩ := List.mem_flatMap.mp hn
  exact List.mem_flatMap.mpr ⟨item, h hm, hn⟩

def Unaliased (items : List Item) (n : String) : Prop := ∀ target, (n, target) ∉ aliasesOf items

theorem unaliased_of_undeclared {items : List Item} {n : String} (hn : n ∉ declared items) :
    Unaliased items n := by
  intro target hm
  obtain ⟨doc, spec, hmem, -, rfl, -⟩ := mem_aliasesOf.mp hm
  exact hn (List.mem_flatMap.mpr ⟨_, hmem, List.mem_singleton_self _⟩)

/-- The tables after `items` were analyzed, from the registry `base` on. -/
structure Lookups (scope : FileScope) (base : Registry) (items : List Item) (reg : Registry) :
    Prop where
  sound : reg.Sound
  start : base.Sound
  old : ∀ r, base.graph.HasRef r → ∃ e, reg.graph.entryAt? r = some (.named e)
  kept : ∀ n r, scope.found? base n = some r → scope.found? reg n = some r
  tables : ∀ q ∈ scope.package :: scope.dotImports, ∀ n r, reg.ref? q n = some r →
    scope.found? reg n = some r
  foreign : ∀ q ∈ scope.dotImports, q ≠ scope.package → ∀ n r, reg.ref? q n = some r →
    base.ref? q n = some r
  own : ∀ n r, scope.found? base n = none → Unaliased items n → scope.found? reg n = some r →
    ¬base.graph.HasRef r ∧ ∃ e, reg.graph.entryAt? r = some (.named e) ∧ e.name = n ∧
      (n ∉ declared items → e.type = none)

section Found

variable {scope : FileScope} {reg reg' : Registry} {n : String} {r : RefId}

theorem FileScope.found?_mem (h : scope.found? reg n = some r) :
    ∃ q ∈ scope.package :: scope.dotImports, reg.ref? q n = some r :=
  List.exists_of_findSome?_eq_some h

theorem FileScope.found?_own (h : reg.ref? scope.package n = some r) :
    scope.found? reg n = some r := by
  unfold FileScope.found?
  rw [List.findSome?_cons, h]

theorem FileScope.found?_congr (h : ∀ q, reg'.ref? q n = reg.ref? q n) :
    scope.found? reg' n = scope.found? reg n := by
  unfold FileScope.found?
  exact congrArg (List.findSome? · _) (funext h)

theorem Consults.found? (h : Consults scope reg reg') (hf : scope.found? reg n = some r) :
    scope.found? reg' n = some r := by
  refine (FileScope.found?_congr fun q => ?_).trans hf
  cases hq : reg.ref? q n with
  | some s => exact h.refs q n s hq
  | none =>
    cases hq' : reg'.ref? q n with
    | none => rfl
    | some s =>
      rcases h.placed q n s hq' with hold | ⟨-, hnone⟩
      · cases hq.symm.trans hold
      · cases hf.symm.trans hnone

theorem Expands.found?_cases {free : TypeId → Prop} (h : Expands scope free reg reg')
    (hf : scope.found? reg' n = some r) : scope.found? reg n = some r ∨
      ¬reg.graph.HasRef r ∧
      reg'.graph.entryAt? r = some (.named { name := n, package := some scope.package }) := by
  cases hold : scope.found? reg n with
  | some s => exact .inl ((h.consults.found? hold).symm.trans hf)
  | none =>
    obtain ⟨q, hq, hr⟩ := FileScope.found?_mem hf
    have hnone := List.findSome?_eq_none_iff.mp hold q hq
    rcases h.consults.placed q n r hr with hr | ⟨rfl, -⟩
    · cases hnone.symm.trans hr
    · rcases h.placed _ n r hr with hr | hnew
      · cases hnone.symm.trans hr
      · exact .inr hnew

end Found

namespace Lookups

variable {scope : FileScope} {base reg reg' : Registry} {items items' : List Item} {n : String}
  {r : RefId}

theorem hasRef (h : Lookups scope base items reg) (hf : scope.found? reg n = some r) :
    reg.graph.HasRef r := by
  obtain ⟨q, -, hr⟩ := FileScope.found?_mem hf
  exact h.sound.refs q n r hr

theorem bottom (h : Lookups scope base items reg) : base.graph.HasRef TypeGraph.emptyInterface :=
  h.start.emptyInterface

theorem hasRef_known (h : Lookups scope base items reg) (hf : scope.found? base n = some r) :
    base.graph.HasRef r := by
  obtain ⟨q, -, hr⟩ := FileScope.found?_mem hf
  exact h.start.refs q n r hr

theorem grounded (h : Lookups scope base items reg) : reg.graph.Grounded :=
  TypeGraph.reachable_grounded h.sound.graph

theorem hasRef_old (h : Lookups scope base items reg) (hr : base.graph.HasRef r) :
    reg.graph.HasRef r := by
  obtain ⟨e, he⟩ := h.old r hr
  exact TypeGraph.hasRef_of_entryAt? he

theorem refCount_le (h : Lookups scope base items reg) :
    base.graph.refCount ≤ reg.graph.refCount := by
  by_contra hn
  have hlast : base.graph.HasRef ⟨reg.graph.refCount⟩ := Nat.lt_of_not_le hn
  exact Nat.lt_irrefl _ (h.hasRef_old hlast)

theorem found?_eq (h : Lookups scope base items reg) (hb : scope.found? base n = none) :
    scope.found? reg n = reg.ref? scope.package n := by
  cases hr : reg.ref? scope.package n with
  | some r => exact FileScope.found?_own hr
  | none =>
    refine List.findSome?_eq_none_iff.mpr fun q hq => ?_
    by_cases hown : q = scope.package
    · rw [hown, hr]
    · have hdots := (List.mem_cons.mp hq).resolve_left hown
      cases hq' : reg.ref? q n with
      | none => rfl
      | some s =>
        have hnone := List.findSome?_eq_none_iff.mp hb q hq
        cases hnone.symm.trans (h.foreign q hdots hown n s hq')

theorem meaning (h : Lookups scope base items reg) (ht : scope.typeParams = [])
    (hb : (scope.meaning reg).bare n r) : scope.found? reg n = some r := by
  unfold FileScope.meaning at hb
  simp only [ht, List.lookup_nil] at hb
  obtain ⟨q, hq, hr⟩ := hb
  exact h.tables q hq n r hr

theorem expanded (h : Lookups scope base items reg) {free : TypeId → Prop}
    (hg : Expands scope free reg reg') : Lookups scope base items reg' where
  sound := hg.sound h.sound
  start := h.start
  old r hr := by
    obtain ⟨e, he⟩ := h.old r hr
    exact ⟨e, hg.entries r _ he⟩
  kept n r hf := hg.consults.found? (h.kept n r hf)
  tables q hq n r hr := by
    rcases hg.consults.placed q n r hr with hold | ⟨rfl, -⟩
    · exact hg.consults.found? (h.tables q hq n r hold)
    · exact FileScope.found?_own hr
  foreign q hq hne n r hr := by
    rcases hg.consults.placed q n r hr with hold | ⟨rfl, -⟩
    · exact h.foreign q hq hne n r hold
    · exact absurd rfl hne
  own n r hb ha hf := by
    rcases hg.found?_cases hf with hold | ⟨hnew, he⟩
    · obtain ⟨hbase, e, he, hown⟩ := h.own n r hb ha hold
      exact ⟨hbase, e, hg.entries r _ he, hown⟩
    · exact ⟨fun hr => hnew (h.hasRef_old hr), _, he, rfl, fun _ => rfl⟩

theorem of_names (h : Lookups scope base items reg) (hsub : items ⊆ items') (hs : reg'.Sound)
    (href : ∀ q n, reg'.ref? q n = reg.ref? q n)
    (hnames : ∀ r e, reg.graph.entryAt? r = some (.named e) →
      ∃ e', reg'.graph.entryAt? r = some (.named e') ∧ e'.name = e.name ∧
        (e.name ∉ declared items' → e'.type = e.type)) : Lookups scope base items' reg' := by
  have hfound : ∀ n, scope.found? reg' n = scope.found? reg n :=
    fun n => FileScope.found?_congr fun q => href q n
  constructor
  case sound => exact hs
  case start => exact h.start
  case old =>
    intro r hr
    obtain ⟨e, he⟩ := h.old r hr
    obtain ⟨e', he', -⟩ := hnames r e he
    exact ⟨e', he'⟩
  case kept =>
    intro n r hf
    exact (hfound n).trans (h.kept n r hf)
  case tables =>
    intro q hq n r hr
    exact (hfound n).trans (h.tables q hq n r ((href q n).symm.trans hr))
  case foreign =>
    intro q hq hne n r hr
    exact h.foreign q hq hne n r ((href q n).symm.trans hr)
  case own =>
    intro n r hb ha hf
    have ha' : Unaliased items n := fun target hm => ha target (aliasesOf_subset hsub hm)
    obtain ⟨hbase, e, he, rfl, htype⟩ := h.own n r hb ha' ((hfound n).symm.trans hf)
    obtain ⟨e', he', hname, htype'⟩ := hnames r e he
    refine ⟨hbase, e', he', hname, fun hn => (htype' hn).trans (htype fun hm => hn ?_)⟩
    exact declared_mono hsub hm

theorem own_entry (h : Lookups scope base items reg) (hb : scope.found? base n = none)
    (hn : n ∉ declared items) (hf : scope.found? reg n = some r) :
    ¬base.graph.HasRef r ∧ ∃ e, reg.graph.entryAt? r = some (.named e) ∧ e.name = n ∧
      e.type = none := by
  obtain ⟨hbase, e, he, hname, htype⟩ := h.own n r hb (unaliased_of_undeclared hn) hf
  exact ⟨hbase, e, he, hname, htype hn⟩

theorem expands_introduce (h : Lookups scope base items reg) (hb : scope.found? base n = none)
    {p : Package} (hp : reg.package? scope.package = some p) (kind : TypeKind) :
    Expands scope reg.Unmade reg (reg.introduce scope.package n kind).2 := by
  let made := (reg.onGraph (·.addType { name := n, package := some scope.package, kind })).2
  have hadd : Consults scope reg made := .of_graph fun _ _ he => .inl he
  refine .of_extends (Registry.extends_introduce ..) (hadd.trans ?_) hp
  cases hr : made.ref? scope.package n with
  | some r =>
    change Consults scope made (made.ensureRef scope.package n).2
    rw [Registry.ensureRef_of_some hr]
    exact .refl scope made
  | none => exact .ensureRef ((h.found?_eq hb).trans hr)

end Lookups

end GoPackages
