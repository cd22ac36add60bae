import Mathlib.Data.List.Pairwise
import GoPackages.Proofs.Environment.Readings

/-!
# What items became

The invariant of a file without imports and type parameters, whatever the order of its items:
each of them has become a reference, a type or a method, whose places are among the entries that
were made for it. No entry was made for two items.
-/
namespace GoPackages

open Source (TypeExpr Field InterfaceElem TypeSpec FuncDecl ValueSpec GroupKind)

inductive Outcome where
  | renamed (target : RefId)
  | defined (owner : RefId) (ty : TypeId)
  | attached (receiver : RefId) (ty : TypeId)
  | listed

/-- An item with what it became, and where the entries made for it start and stop. -/
structure Analyzed where
  item : Item
  outcome : Outcome
  start : Nat
  stop : Nat

def Analyzed.attachment? (a : Analyzed) : Option (RefId × TypeId) :=
  match a.outcome with
  | .attached receiver ty => some (receiver, ty)
  | .renamed _ | .defined _ _ | .listed => none

def Analyzed.listed? (listed : TypeExpr → Bool) (n : String) (a : Analyzed) : Option TypeId :=
  match a.item, a.outcome with
  | .typeSpec _ spec, .defined _ ty => if spec.name = n ∧ listed spec.type then some ty else none
  | _, _ => none

def isStruct : TypeExpr → Bool
  | .struct _ => true
  | _ => false

def isInterface : TypeExpr → Bool
  | .interface _ => true
  | _ => false

/-- A list of a package holds the `listed` types among the items, and no others. -/
def Listing (listed : TypeExpr → Bool) (log : List Analyzed) (d : DeclList) : Prop :=
  ∀ n, d.get? n = log.findSome? (Analyzed.listed? listed n)

inductive Covered (scope : FileScope) (items : List Item) (reg : Registry) (start stop : Nat) :
    Item → Outcome → Prop where
  | renamed {doc spec target} : spec.isAlias = true →
      scope.found? reg spec.name = some target →
      Place scope items reg start stop spec.type target →
      Covered scope items reg start stop (.typeSpec doc spec) (.renamed target)
  | defined {doc spec owner ty data} : spec.isAlias = false →
      scope.found? reg spec.name = some owner → reg.graph.typeAt? ty = some data →
      (data.kind.isDefined = true → data.declaredBy = some owner) →
      KindPlaced scope items reg start stop spec.type data.kind →
      Covered scope items reg start stop (.typeSpec doc spec) (.defined owner ty)
  | attached {decl field receiver ty data} : decl.receiver = some field →
      reg.graph.typeAt? ty = some data → data.name = decl.name →
      Place scope items reg start stop (field.type ()) receiver →
      SignaturePlaced scope items reg start stop decl.params decl.results ty →
      Covered scope items reg start stop (.func decl) (.attached receiver ty)
  | function {decl} : decl.receiver = none →
      Covered scope items reg start stop (.func decl) .listed
  | value {kind doc spec source} :
      Covered scope items reg start stop (.valueSpec kind doc spec source) .listed

structure Covers (scope : FileScope) (base : Registry) (log : List Analyzed) (reg : Registry) :
    Prop where
  lookups : Lookups scope base (log.map Analyzed.item) reg
  package : ∃ p, reg.package? scope.package = some p
  covered : ∀ a ∈ log,
    Covered scope (log.map Analyzed.item) reg a.start a.stop a.item a.outcome
  within : ∀ a ∈ log, base.graph.refCount ≤ a.start ∧ a.stop ≤ reg.graph.refCount
  apart : log.Pairwise fun a b => a.stop ≤ b.start
  attached : reg.graph.Attached (log.filterMap Analyzed.attachment?)
  lists : ∃ structs interfaces, reg.lists? scope.package = some (structs, interfaces) ∧
    Listing isStruct log structs ∧ Listing isInterface log interfaces

section

variable {scope : FileScope} {base reg reg' : Registry} {items items' : List Item}
  {log : List Analyzed} {start stop : Nat} {item : Item} {outcome : Outcome} {r : RefId}

theorem Covered.sustained (h : Covered scope items reg start stop item outcome)
    (hm : item ∈ items) (hs : Sustains scope items items' reg.Unmade reg reg') :
    Covered scope items' reg' start stop item outcome := by
  have htype : ∀ ty data, reg.graph.typeAt? ty = some data → reg'.graph.typeAt? ty = some data :=
    fun ty data hd => hs.types ty data (fun hn => hn (TypeGraph.hasType_of_typeAt? hd)) hd
  have htable : ∀ n ∈ item.typeNames, ∀ r, scope.found? reg n = some r →
      scope.found? reg' n = some r :=
    fun n hn r hf => hs.table n (List.mem_flatMap.mpr ⟨item, hm, hn⟩) r hf
  cases h with
  | renamed ha hf hplace =>
    exact .renamed ha (htable _ (List.mem_singleton_self _) _ hf) (hplace.sustained hs)
  | defined ha hf hd howner hk =>
    exact .defined ha (htable _ (List.mem_singleton_self _) _ hf) (htype _ _ hd) howner
      (hk.sustained hs)
  | attached hr hd hn hplace hsig =>
    exact .attached hr (htype _ _ hd) hn (hplace.sustained hs)
      (hsig.sustained hs fun hn => hn hsig.hasType)
  | function hr => exact .function hr
  | value => exact .value

namespace Covers

theorem expanded (h : Covers scope base log reg) (hg : Expands scope reg.Unmade reg reg') :
    Covers scope base log reg' := by
  obtain ⟨p, hp⟩ := h.package
  have hs := Sustains.of_expands h.lookups hg fun _ hm => hm
  refine ⟨h.lookups.expanded hg, hg.package hp, fun a ha => ?_, fun a ha => ?_, h.apart, ?_, ?_⟩
  · exact (h.covered a ha).sustained (List.mem_map_of_mem ha) hs
  · exact ⟨(h.within a ha).1, Nat.le_trans (h.within a ha).2 hg.refCount_le⟩
  · have hattached := h.attached.gathers (hg.gathers h.lookups.sound)
    rwa [List.append_nil] at hattached
  · rw [hg.lists]
    exact h.lists

theorem snoc (h : Covers scope base log reg) {a : Analyzed}
    (hstart : base.graph.refCount ≤ a.start) (hafter : ∀ b ∈ log, b.stop ≤ a.start)
    (hstop : a.stop ≤ reg'.graph.refCount)
    (hl : Lookups scope base (log.map Analyzed.item ++ [a.item]) reg')
    (hpack : ∃ p, reg'.package? scope.package = some p)
    (hs : Sustains scope (log.map Analyzed.item) (log.map Analyzed.item ++ [a.item]) reg.Unmade
      reg reg')
    (hc : Covered scope (log.map Analyzed.item ++ [a.item]) reg' a.start a.stop a.item a.outcome)
    (hg : TypeGraph.Gathers reg.graph reg'.graph a.attachment?.toList)
    (hlists : ∃ structs interfaces, reg'.lists? scope.package = some (structs, interfaces) ∧
      Listing isStruct (log ++ [a]) structs ∧ Listing isInterface (log ++ [a]) interfaces) :
    Covers scope base (log ++ [a]) reg' := by
  have hitems : (log ++ [a]).map Analyzed.item = log.map Analyzed.item ++ [a.item] := by
    rw [List.map_append, List.map_singleton]
  refine ⟨hitems ▸ hl, hpack, fun b hb => ?_, fun b hb => ?_, ?_, ?_, hlists⟩
  · rw [hitems]
    rcases List.mem_append.mp hb with hb | hb
    · exact (h.covered b hb).sustained (List.mem_map_of_mem hb) hs
    · obtain rfl := List.mem_singleton.mp hb
      exact hc
  · rcases List.mem_append.mp hb with hb | hb
    · exact ⟨(h.within b hb).1, Nat.le_trans (h.within b hb).2 hs.refCount_le⟩
    · obtain rfl := List.mem_singleton.mp hb
      exact ⟨hstart, hstop⟩
  · refine List.pairwise_append.mpr ⟨h.apart, List.pairwise_singleton _ _, fun b hb c hc => ?_⟩
    obtain rfl := List.mem_singleton.mp hc
    exact hafter b hb
  · have hattached := h.attached.gathers hg
    rw [List.filterMap_append]
    cases hatt : a.attachment? with
    | none => simpa [hatt] using hattached
    | some m => simpa [hatt] using hattached

/-- Items whose entries meet are one. -/
theorem eq_of_private (h : Covers scope base log reg) {a b : Analyzed} (ha : a ∈ log)
    (hb : b ∈ log) (hpa : Private scope items reg a.start a.stop r)
    (hpb : Private scope items' reg b.start b.stop r) : a = b := by
  let Apart : Analyzed → Analyzed → Prop := fun a b =>
    a = b ∨ a.stop ≤ b.start ∨ b.stop ≤ a.start
  have hall : ∀ a ∈ log, ∀ b ∈ log, Apart a b := by
    refine List.Pairwise.forall_of_forall_of_flip (fun _ _ => .inl rfl) ?_ ?_
    · exact h.apart.imp fun hab => .inr (.inl hab)
    · exact h.apart.imp fun hab => .inr (.inr hab)
  have hlower := hpa.lower
  have hupper := hpa.upper
  have hlower' := hpb.lower
  have hupper' := hpb.upper
  rcases hall a ha b hb with heq | hab | hba
  · exact heq
  · omega
  · omega

theorem alias_placed (h : Covers scope base log reg) {n : String} {target : TypeExpr}
    (hm : (n, target) ∈ aliasesOf (log.map Analyzed.item)) :
    ∃ a ∈ log, ∃ s, a.item.alias? = some (n, target) ∧ scope.found? reg n = some s ∧
      Place scope (log.map Analyzed.item) reg a.start a.stop target s := by
  obtain ⟨item, hitem, halias⟩ := List.mem_filterMap.mp hm
  obtain ⟨a, ha, rfl⟩ := List.mem_map.mp hitem
  obtain ⟨item, outcome, start, stop⟩ := a
  have hc := h.covered _ ha
  cases hc with
  | renamed hspec hf hplace =>
    have heq := halias
    dsimp only [Item.alias?] at heq
    rw [if_pos hspec] at heq
    obtain ⟨rfl, rfl⟩ := Prod.mk.inj (Option.some.inj heq)
    exact ⟨_, ha, _, halias, hf, hplace⟩
  | defined hspec =>
    dsimp only [Item.alias?] at halias
    rw [hspec] at halias
    cases halias
  | attached | function | value => cases halias

end Covers

end

end GoPackages
