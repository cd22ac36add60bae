import GoPackages.Proofs.Analysis.Written

/-!
# Two views of a reference

Parameters are compared through aliases, receivers lead through aliases and decorators. What
a view shows of a type expression is decided by the head of the expression: a name, the empty
interface, or a type that has an entry of its own at the place where it was written.
-/
namespace GoPackages

open Source (TypeExpr)

inductive View where
  | whole
  | core
  deriving DecidableEq, Repr

inductive Head where
  | name (name : String)
  | empty
  | site
  | elsewhere
  deriving DecidableEq, Repr

namespace View

def of (v : View) (g : TypeGraph) (r : RefId) : RefId :=
  match v with
  | .whole => g.canonical r
  | .core => g.namedRoot r

def under (v : View) (head : Head) : Head :=
  match v with
  | .whole => .site
  | .core => head

def head (v : View) : TypeExpr → Head
  | .named name _ => .name name
  | .paren inner => v.head (inner ())
  | .pointer elem => v.under (v.head (elem ()))
  | .array _ elem => v.under (v.head (elem ()))
  | .slice elem => v.under (v.head (elem ()))
  | .chan _ elem => v.under (v.head (elem ()))
  | .ellipsis elem => v.under (v.head (elem ()))
  | .map _ _ | .func _ _ | .struct _ => .site
  | .interface _ => .empty
  | .selector _ _ _ | .bad => .elsewhere

section Graphs

variable {g g' : TypeGraph} {r s : RefId}

theorem of_named {e : NamedRef} (v : View) (h : g.entryAt? r = some (.named e)) :
    v.of g r = r := by
  cases v with
  | whole => exact TypeGraph.canonical_of_named h
  | core => exact TypeGraph.namedRoot_of_named h

theorem whole_of_decorated {d : Decorator} (h : g.entryAt? r = some (.decorated d s)) :
    whole.of g r = r := TypeGraph.canonical_of_decorated h

theorem core_of_decorated (hg : g.Grounded) {d : Decorator}
    (h : g.entryAt? r = some (.decorated d s)) : core.of g r = core.of g s := by
  obtain ⟨root, k, ds, hp⟩ := hg r (TypeGraph.hasRef_of_entryAt? h)
  have hleads : g.Leads r s := by rw [TypeGraph.Leads, h]; rfl
  obtain ⟨j, ds', -, hp'⟩ := hp.of_leads hleads
  exact hp.namedRoot_eq.trans hp'.namedRoot_eq.symm

theorem path_canonical (hg : g.Grounded) {root : RefId} {k : Nat} {ds : List Decorator}
    (hp : g.Path root k r ds) : ∃ j, g.Path root j (g.canonical r) ds := by
  induction hp with
  | named he =>
    rw [TypeGraph.canonical_of_named he]
    exact ⟨0, .named he⟩
  | decorated he hp =>
    rw [TypeGraph.canonical_of_decorated he]
    exact ⟨_, .decorated he hp⟩
  | aliased he hp ih =>
    have hw := hg.canonical_walk hp.hasRef
    rw [hg.canonical_eq (.step he rfl hw)]
    exact ih

theorem of_eq (v : View) (hg : g.Grounded) (hr : g.HasRef r) (hs : g.HasRef s)
    (h : g.canonical r = g.canonical s) : v.of g r = v.of g s := by
  cases v with
  | whole => exact h
  | core =>
    obtain ⟨root, k, ds, hp⟩ := hg r hr
    obtain ⟨root', k', ds', hp'⟩ := hg s hs
    obtain ⟨j, hc⟩ := path_canonical hg hp
    obtain ⟨j', hc'⟩ := path_canonical hg hp'
    change g.namedRoot r = g.namedRoot s
    rw [hp.namedRoot_eq, hp'.namedRoot_eq]
    exact (hc.unique (h ▸ hc')).1

theorem hasRef_of (v : View) (hg : g.Grounded) (hr : g.HasRef r) : g.HasRef (v.of g r) := by
  obtain ⟨root, k, ds, hp⟩ := hg r hr
  cases v with
  | whole =>
    obtain ⟨j, hc⟩ := path_canonical hg hp
    exact hc.hasRef
  | core =>
    obtain ⟨e, he⟩ := hp.root_named
    change g.HasRef (g.namedRoot r)
    rw [hp.namedRoot_eq]
    exact TypeGraph.hasRef_of_entryAt? he

theorem of_kept (v : View) (hg : g.Grounded) (hg' : g'.Grounded)
    (hk : TypeGraph.KeepsEdges g g') (hr : g.HasRef r) : v.of g' r = v.of g r := by
  cases v with
  | whole => exact hg'.canonical_eq ((hg.canonical_walk hr).kept hk)
  | core =>
    obtain ⟨root, k, ds, hp⟩ := hg r hr
    exact (hp.kept hk).namedRoot_eq.trans hp.namedRoot_eq.symm

theorem of_aliased (v : View) {target root : RefId}
    (h : TypeGraph.AliasEffect g r target g') (hroot : g.namedRoot r = root)
    (hs : g.HasRef s) :
    v.of g' s = if v.of g s = root then v.of g target else v.of g s := by
  subst hroot
  cases v with
  | whole => exact h.canonical s hs
  | core =>
    change g'.namedRoot s = if g.namedRoot s = _ then g.namedRoot target else g.namedRoot s
    split
    next heq => exact (h.moved s hs heq).1
    next hne => exact (h.kept s hs hne).1

end Graphs

end View

namespace TypeGraph

/-- Names other than the lost one keep all but their methods, and no other entry changes. -/
structure AliasEntries (g : TypeGraph) (r target : RefId) (g' : TypeGraph) : Prop where
  names : ∀ x e, g.entryAt? x = some (.named e) → x ≠ g.namedRoot r →
    g'.entryAt? x = some (.named (if g.namedRoot target = x then
      { e with methods := e.methods.insertAll (g.refMethods r).entries } else e))
  named : ∀ x e', g'.entryAt? x = some (.named e') →
    x ≠ g.namedRoot r ∧ ∃ e, g.entryAt? x = some (.named e)
  decorated : ∀ x d inner, g.entryAt? x = some (.decorated d inner) →
    g'.entryAt? x = some (.decorated d inner)

theorem aliasTo?_of_ne {g : TypeGraph} (h : Reachable g) {r target : RefId}
    (hr : g.HasRef r) (ht : g.HasRef target) (hne : g.namedRoot target ≠ g.namedRoot r) :
    ∃ g', g.aliasTo? r target = some g' ∧ AliasEffect g r target g' ∧
      AliasEntries g r target g' := by
  have hg := reachable_grounded h
  obtain ⟨root, k, ds, hp⟩ := hg r hr
  obtain ⟨other, j, es, hpt⟩ := hg target ht
  rw [hp.namedRoot_eq, hpt.namedRoot_eq] at hne
  have heffect := merge_effect hg hp hpt hne
  obtain ⟨e₁, he₁⟩ := hp.root_named
  obtain ⟨e₂, he₂⟩ := hpt.root_named
  refine ⟨_, aliasTo?_eq_merge (reachable_methodsNamed h) hp hpt hne, heffect, ?_, ?_, ?_⟩
  · intro x e he hx
    rw [hpt.namedRoot_eq]
    exact entryAt?_merge_of_named hp hpt he (hp.namedRoot_eq ▸ hx)
  · intro x e' he'
    have hx : x ≠ g.namedRoot r := by
      rintro rfl
      rw [heffect.redirected] at he'
      cases he'
    refine ⟨hx, ?_⟩
    by_cases hx' : x = g.namedRoot target
    · rw [hx', hpt.namedRoot_eq]
      exact ⟨e₂, he₂⟩
    · exact ⟨e', (heffect.entries_kept x hx hx').symm.trans he'⟩
  · intro x d inner hx
    refine (heffect.entries_kept x ?_ ?_).trans hx
    · rintro rfl
      rw [hp.namedRoot_eq, he₁] at hx
      cases hx
    · rintro rfl
      rw [hpt.namedRoot_eq, he₂] at hx
      cases hx

end TypeGraph

namespace TypeGraph

/-- Two references that cannot be told apart. -/
structure Alike (g : TypeGraph) (r s : RefId) : Prop where
  canonical : g.canonical r = g.canonical s
  decorators : g.decorators r = g.decorators s
  namedRoot : g.namedRoot r = g.namedRoot s
  resolved : g.resolved? r = g.resolved? s
  name : g.refName r = g.refName s
  package : g.refPackage r = g.refPackage s
  methods : g.refMethods r = g.refMethods s

/-- All that is read from a reference is read behind aliases. -/
theorem alike_of_canonical {g : TypeGraph} (hg : g.Grounded) {r s : RefId} (hr : g.HasRef r)
    (hs : g.HasRef s) (h : g.canonical r = g.canonical s) : g.Alike r s := by
  obtain ⟨root, k, ds, hp⟩ := hg r hr
  obtain ⟨root', k', ds', hp'⟩ := hg s hs
  obtain ⟨j, hc⟩ := View.path_canonical hg hp
  obtain ⟨j', hc'⟩ := View.path_canonical hg hp'
  obtain ⟨rfl, -, rfl⟩ := hc.unique (h ▸ hc')
  obtain ⟨e, he⟩ := hp.root_named
  have hname := (hp.named?_eq he).trans (hp'.named?_eq he).symm
  constructor
  case canonical => exact h
  case decorators => rw [hp.decorators_eq, hp'.decorators_eq]
  case namedRoot => rw [hp.namedRoot_eq, hp'.namedRoot_eq]
  all_goals simp only [resolved?, refName, refPackage, refMethods, hname]

end TypeGraph

section Types

variable {g : TypeGraph} {lo : Nat} {m : Meaning}

theorem View.of_denotes_name (v : View) (hg : g.Grounded) (type : TypeExpr) (r : RefId)
    {n : String} (h : Denotes g lo m type r) (hn : v.head type = .name n) :
    ∃ s, m.bare n s ∧ v.of g r = v.of g s := by
  cases type with
  | named name args =>
    cases hn
    exact ⟨r, h, rfl⟩
  | paren inner => exact View.of_denotes_name v hg (inner ()) r h hn
  | pointer elem | array _ elem | slice elem | chan _ elem | ellipsis elem =>
    obtain ⟨inner, he, hd⟩ := h
    cases v with
    | whole => cases hn
    | core =>
      obtain ⟨s, hs, heq⟩ := View.of_denotes_name .core hg (elem ()) inner hd hn
      exact ⟨s, hs, (View.core_of_decorated hg he).trans heq⟩
  | map | func | struct | interface | selector | bad => cases hn
termination_by structural type

theorem View.of_denotes_empty (v : View) (hg : g.Grounded) (type : TypeExpr) (r : RefId)
    (h : Denotes g lo m type r) (hn : v.head type = .empty) :
    v.of g r = v.of g TypeGraph.emptyInterface := by
  cases type with
  | interface elems => exact congrArg (v.of g) h
  | paren inner => exact View.of_denotes_empty v hg (inner ()) r h hn
  | pointer elem | array _ elem | slice elem | chan _ elem | ellipsis elem =>
    obtain ⟨inner, he, hd⟩ := h
    cases v with
    | whole => cases hn
    | core =>
      have heq := View.of_denotes_empty .core hg (elem ()) inner hd hn
      exact (View.core_of_decorated hg he).trans heq
  | map | func | struct | named | selector | bad => cases hn
termination_by structural type

theorem View.head_ne_elsewhere (v : View) (type : TypeExpr) (r : RefId)
    (hq : ∀ base n r, ¬m.qualified base n r) (h : Denotes g lo m type r) :
    v.head type ≠ .elsewhere := by
  cases type with
  | paren inner => exact View.head_ne_elsewhere v (inner ()) r hq h
  | pointer elem | array _ elem | slice elem | chan _ elem | ellipsis elem =>
    obtain ⟨inner, he, hd⟩ := h
    cases v with
    | whole => exact nofun
    | core => exact View.head_ne_elsewhere .core (elem ()) inner hq hd
  | named | map | func | struct | interface => exact nofun
  | selector base name args => exact absurd h (hq _ _ _)
  | bad => exact h.elim
termination_by structural type

end Types

end GoPackages
