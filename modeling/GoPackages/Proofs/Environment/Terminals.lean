import GoPackages.Proofs.Acyclic
import GoPackages.Proofs.Analysis.Consults
import GoPackages.Proofs.Analysis.Views
import GoPackages.Proofs.Environment.Items

/-!
# Where types end

With its aliases replaced by what they stand for, a type ends in a name that is no alias, in
the empty interface, or in the entry that an alias was made for. Nothing but the aliases of a
file decides this, so it does not depend on their order.
-/
namespace GoPackages

open Source (TypeExpr)

def Item.alias? : Item → Option (String × TypeExpr)
  | .typeSpec _ spec => if spec.isAlias then some (spec.name, spec.type) else none
  | .importSpec _ | .valueSpec _ _ _ _ | .func _ => none

def aliasesOf (items : List Item) : List (String × TypeExpr) := items.filterMap Item.alias?

/-- The first name stands for a type that is written with the second one. -/
def Renaming (items : List Item) (a b : String) : Prop :=
  ∃ target, (a, target) ∈ aliasesOf items ∧ View.core.head target = .name b

inductive Terminal where
  | name (name : String)
  | empty
  | site (renamed : String)
  deriving DecidableEq, Repr

inductive Ends (v : View) (items : List Item) : TypeExpr → Terminal → Prop where
  | name {type : TypeExpr} {n} : v.head type = .name n →
      (∀ target, (n, target) ∉ aliasesOf items) → Ends v items type (.name n)
  | empty {type : TypeExpr} : v.head type = .empty → Ends v items type .empty
  | site {type target : TypeExpr} {n} : v.head type = .name n → (n, target) ∈ aliasesOf items →
      v.head target = .site → Ends v items type (.site n)
  | through {type target : TypeExpr} {n t} : v.head type = .name n →
      (n, target) ∈ aliasesOf items → Ends v items target t → Ends v items type t

section

variable {items items' : List Item} {v : View} {type : TypeExpr} {n : String} {t : Terminal}

theorem mem_aliasesOf {target : TypeExpr} : (n, target) ∈ aliasesOf items ↔
    ∃ doc spec, .typeSpec doc spec ∈ items ∧ spec.isAlias = true ∧ spec.name = n ∧
      spec.type = target := by
  constructor
  · intro h
    obtain ⟨item, hm, halias⟩ := List.mem_filterMap.mp h
    cases item with
    | typeSpec doc spec =>
      rw [Item.alias?] at halias
      split at halias
      next ha =>
        cases halias
        exact ⟨doc, spec, hm, ha, rfl, rfl⟩
      next => cases halias
    | importSpec | valueSpec | func => cases halias
  · rintro ⟨doc, spec, hm, ha, rfl, rfl⟩
    exact List.mem_filterMap.mpr ⟨_, hm, by rw [Item.alias?, if_pos ha]⟩

theorem aliasesOf_subset (h : items ⊆ items') : aliasesOf items ⊆ aliasesOf items' := by
  rintro ⟨n, target⟩ hm
  obtain ⟨doc, spec, hmem, halias⟩ := mem_aliasesOf.mp hm
  exact mem_aliasesOf.mpr ⟨doc, spec, h hmem, halias⟩

theorem Renaming.mono (h : items ⊆ items') {a b : String} (hr : Renaming items a b) :
    Renaming items' a b := by
  obtain ⟨target, hm, hhead⟩ := hr
  exact ⟨target, aliasesOf_subset h hm, hhead⟩

theorem View.core_head_of_whole (type : TypeExpr) (h : View.whole.head type = .name n) :
    View.core.head type = .name n := by
  cases type with
  | named name args => exact h
  | paren inner => exact View.core_head_of_whole (inner ()) h
  | pointer | array | slice | chan | ellipsis | map | func | struct | interface | selector | bad =>
    cases h
termination_by structural type

theorem View.core_head (v : View) (h : v.head type = .name n) : View.core.head type = .name n := by
  cases v with
  | whole => exact View.core_head_of_whole type h
  | core => exact h

theorem Ends.mono (h : Ends v items type t)
    (hsame : ∀ n target, (n, target) ∈ aliasesOf items ↔ (n, target) ∈ aliasesOf items') :
    Ends v items' type t := by
  induction h with
  | name hhead hn => exact .name hhead fun target hm => hn target ((hsame _ _).mpr hm)
  | empty hhead => exact .empty hhead
  | site hhead hm hsite => exact .site hhead ((hsame _ _).mp hm) hsite
  | through hhead hm _ ih => exact .through hhead ((hsame _ _).mp hm) ih

/-- Without a cycle every name ends somewhere. -/
theorem exists_ends (hacyclic : ∀ n, ¬Relation.TransGen (Renaming items) n n)
    (helse : ∀ n target, (n, target) ∈ aliasesOf items → v.head target ≠ .elsewhere)
    (hsite : v.head type ≠ .site) (htype : v.head type ≠ .elsewhere) :
    ∃ t, Ends v items type t := by
  have hsource : ∀ a b, Renaming items a b → a ∈ ((aliasesOf items).map Prod.fst).toFinset := by
    rintro a b ⟨target, hm, -⟩
    exact List.mem_toFinset.mpr (List.mem_map_of_mem hm)
  obtain ⟨rank, hrank, -, -⟩ := exists_rank (Renaming items) _ hsource hacyclic
  have hnames : ∀ bound n type, rank n < bound → v.head type = .name n →
      ∃ t, Ends v items type t := by
    intro bound
    induction bound with
    | zero => exact fun _ _ h => absurd h (Nat.not_lt_zero _)
    | succ bound ih =>
      intro n type hlt hhead
      by_cases halias : ∃ target, (n, target) ∈ aliasesOf items
      · obtain ⟨target, hm⟩ := halias
        cases htarget : v.head target with
        | name b =>
          have hstep := hrank n b ⟨target, hm, v.core_head htarget⟩
          obtain ⟨t, ht⟩ := ih b target (by omega) htarget
          exact ⟨t, .through hhead hm ht⟩
        | empty => exact ⟨_, .through hhead hm (.empty htarget)⟩
        | site => exact ⟨_, .site hhead hm htarget⟩
        | elsewhere => exact absurd htarget (helse n target hm)
      · exact ⟨_, .name hhead fun target hm => halias ⟨target, hm⟩⟩
  cases hhead : v.head type with
  | name n => exact hnames _ n type (Nat.lt_succ_self _) hhead
  | empty => exact ⟨_, .empty hhead⟩
  | site => exact absurd hhead hsite
  | elsewhere => exact absurd hhead htype

theorem Ends.renaming {a : String} (h : Ends .core items type t) (ht : t = .name a) :
    ∃ n, View.core.head type = .name n ∧ Relation.ReflTransGen (Renaming items) n a := by
  induction h with
  | name hhead =>
    cases ht
    exact ⟨a, hhead, .refl⟩
  | empty | site => cases ht
  | through hhead hm _ ih =>
    obtain ⟨b, hb, hsteps⟩ := ih ht
    exact ⟨_, hhead, .head ⟨_, hm, hb⟩ hsteps⟩

end

/-- The reference that an end has before any file is analyzed. -/
def Terminal.known? (scope : FileScope) (base : Registry) : Terminal → Option RefId
  | .name n => scope.found? base n
  | .empty => some TypeGraph.emptyInterface
  | .site _ => none

/-- The predeclared names may stand for one reference, as the name of the empty interface does. -/
def Terminal.Same (scope : FileScope) (base : Registry) (t t' : Terminal) : Prop :=
  t = t' ∨ ∃ r, t.known? scope base = some r ∧ t'.known? scope base = some r

/-- Types that end in the same reference when aliases are followed. A type with an entry of its
own is only the same as itself, which stands nowhere else. -/
def SameType (scope : FileScope) (base : Registry) (items : List Item) (type type' : TypeExpr) :
    Prop :=
  ∃ t t', Ends .whole items type t ∧ Ends .whole items type' t' ∧ t.Same scope base t'

end GoPackages
