import GoPackages.Proofs.Analysis.Members
import GoPackages.Proofs.TypeGraph.Alias

/-!
# The name that a type is written with

Pointers, lists, channels and parentheses around a name leave it in place: the reference of
such a type leads through its decorators to what the name stands for. Any other type leads
to an entry that no name was written for.
-/
namespace GoPackages

open Source (TypeExpr Expr)

/-- The name under the decorators of a type, behind its qualifier if it has one. -/
def writtenName? : TypeExpr → Option (Option Expr × String)
  | .named name _ => some (none, name)
  | .selector base name _ => some (some (base ()), name)
  | .pointer elem => writtenName? (elem ())
  | .array _ elem => writtenName? (elem ())
  | .slice elem => writtenName? (elem ())
  | .ellipsis elem => writtenName? (elem ())
  | .chan _ elem => writtenName? (elem ())
  | .paren inner => writtenName? (inner ())
  | .map _ _ | .func _ _ | .struct _ | .interface _ | .bad => none

def Meaning.stands (m : Meaning) : Option Expr × String → RefId → Prop
  | (none, name) => m.bare name
  | (some base, name) => m.qualified base name

namespace TypeGraph

/-- Whatever name `s` leads to, `r` leads to it as well. -/
def Over (g : TypeGraph) (s r : RefId) : Prop :=
  ∀ root k ds, Path g root k s ds → ∃ k' ds', Path g root k' r ds'

theorem Over.refl (g : TypeGraph) (r : RefId) : g.Over r r := fun _ k ds h => ⟨k, ds, h⟩

theorem Over.decorated {g : TypeGraph} {s inner r : RefId} {d : Decorator}
    (h : g.Over s inner) (he : g.entryAt? r = some (.decorated d inner)) : g.Over s r := by
  intro root k ds hp
  obtain ⟨k', ds', hp'⟩ := h root k ds hp
  exact ⟨k' + 1, d :: ds', .decorated he hp'⟩

theorem Over.trans {g : TypeGraph} {s t r : RefId} (h : g.Over s t) (h' : g.Over t r) :
    g.Over s r := by
  intro root k ds hp
  obtain ⟨k', ds', hp'⟩ := h root k ds hp
  exact h' root k' ds' hp'

theorem Over.path {g : TypeGraph} {s r : RefId} {e : NamedRef} (h : g.Over s r)
    (he : g.entryAt? s = some (.named e)) : ∃ k ds, Path g s k r ds := h s 0 [] (.named he)

theorem Over.namedRoot {g : TypeGraph} {s r : RefId} {e : NamedRef} (h : g.Over s r)
    (he : g.entryAt? s = some (.named e)) : g.namedRoot r = s := by
  obtain ⟨k, ds, hp⟩ := h.path he
  exact hp.namedRoot_eq

theorem Over.namedRoot_eq {g : TypeGraph} (hg : g.Grounded) {s r : RefId} (h : g.Over s r)
    (hs : g.HasRef s) : g.namedRoot r = g.namedRoot s := by
  obtain ⟨root, k, ds, hpath⟩ := hg s hs
  obtain ⟨k', ds', hpath'⟩ := h root k ds hpath
  exact hpath'.namedRoot_eq.trans hpath.namedRoot_eq.symm

theorem Over.resolved? {g : TypeGraph} {s r : RefId} {e : NamedRef} (h : g.Over s r)
    (he : g.entryAt? s = some (.named e)) : g.resolved? r = e.type := by
  obtain ⟨k, ds, hp⟩ := h.path he
  rw [TypeGraph.resolved?, hp.named?_eq he]
  rfl

/-- The entry of a type that was written in place, from the types from `lo` on. -/
def Unwritten (g : TypeGraph) (lo : Nat) (s : RefId) : Prop :=
  s = emptyInterface ∨ ∃ e ty, g.entryAt? s = some (.named e) ∧ e.type = some ty ∧ lo ≤ ty.index

theorem Holds.unwritten {g : TypeGraph} {lo : Nat} {r : RefId} {ty : TypeId} {kind : TypeKind}
    (h : g.Holds lo r ty kind) : g.Unwritten lo r := by
  obtain ⟨⟨e, he, ht⟩, hlo, -⟩ := h
  exact .inr ⟨e, ty, he, ht, hlo⟩

end TypeGraph

/-- What is under the decorators of a reference: what the written name stands for, or the
entry of a type without a name. -/
theorem Denotes.core {g : TypeGraph} {lo : Nat} {m : Meaning} (type : TypeExpr) (r : RefId)
    (h : Denotes g lo m type r) : ∃ s, g.Over s r ∧
      (∀ written, writtenName? type = some written → m.stands written s) ∧
      (writtenName? type = none → g.Unwritten lo s) := by
  cases type with
  | named name args | selector base name args =>
    refine ⟨r, .refl g r, fun written hw => ?_, fun hw => by cases hw⟩
    obtain rfl := Option.some.inj hw
    exact h
  | pointer elem | array _ elem | slice elem | chan _ elem | ellipsis elem =>
    obtain ⟨inner, he, hd⟩ := h
    obtain ⟨s, hover, hs⟩ := Denotes.core (elem ()) inner hd
    exact ⟨s, hover.decorated he, hs⟩
  | paren inner => exact Denotes.core (inner ()) r h
  | map key value =>
    obtain ⟨ty, t, hh, -⟩ := h
    exact ⟨r, .refl g r, fun _ hw => (by cases hw), fun _ => hh.unwritten⟩
  | func params results =>
    obtain ⟨ty, t, hh, -⟩ := h
    exact ⟨r, .refl g r, fun _ hw => (by cases hw), fun _ => hh.unwritten⟩
  | struct fields =>
    obtain ⟨ty, t, hh, -⟩ := h
    exact ⟨r, .refl g r, fun _ hw => (by cases hw), fun _ => hh.unwritten⟩
  | interface elems => exact ⟨r, .refl g r, fun _ hw => (by cases hw), fun _ => .inl h⟩
  | bad => exact h.elim
termination_by structural type

end GoPackages
