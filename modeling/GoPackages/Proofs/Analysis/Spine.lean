import GoPackages.Proofs.Analysis.Resolve
import GoPackages.Proofs.Registry.Lookup
import GoPackages.Proofs.TypeGraph.Identity

/-!
# The shape of a type and of its reference

On the way inwards through a type stand decorators, up to the first type that is none. The reference
of the whole is the reference of that type with as many new entries around it, and no more. These
entries stay what they are whatever happens to the graph, also where the inner reference is an alias
of something that has decorators of its own.
-/
namespace GoPackages

open Source (TypeExpr)
open Registry (newScope newScope_sound newPackage newPackage_course)

/-- The decorators of a type expression, outermost first. Parentheses are skipped. -/
def spine : TypeExpr → List Decorator
  | .pointer elem => .pointer :: spine (elem ())
  | .array _ elem => .array :: spine (elem ())
  | .slice elem => .array :: spine (elem ())
  | .chan _ elem => .channel :: spine (elem ())
  | .ellipsis elem => .ellipsis :: spine (elem ())
  | .paren inner => spine (inner ())
  | .named _ _ | .selector _ _ _ | .map _ _ | .func _ _ | .struct _ | .interface _ | .bad => []

/-- The first type inside the decorators and parentheses that is neither. -/
def spineEnd : TypeExpr → TypeExpr
  | .pointer elem => spineEnd (elem ())
  | .array _ elem => spineEnd (elem ())
  | .slice elem => spineEnd (elem ())
  | .chan _ elem => spineEnd (elem ())
  | .ellipsis elem => spineEnd (elem ())
  | .paren inner => spineEnd (inner ())
  | .named name args => .named name args
  | .selector base name args => .selector base name args
  | .map key value => .map key value
  | .func params results => .func params results
  | .struct fields => .struct fields
  | .interface elems => .interface elems
  | .bad => .bad

namespace TypeGraph

variable {g g' : TypeGraph} {base r : RefId} {ds : List Decorator}

/-- One new entry for each decorator, the innermost first. -/
def decorateAll (g : TypeGraph) : List Decorator → RefId → RefId × TypeGraph
  | [], r => (r, g)
  | d :: ds, r => (g.decorateAll ds r).2.decorate d (g.decorateAll ds r).1

theorem refCount_decorateAll (g : TypeGraph) (ds : List Decorator) (base : RefId) :
    (g.decorateAll ds base).2.refCount = g.refCount + ds.length := by
  induction ds with
  | nil => rfl
  | cons d ds ih =>
    rw [decorateAll, decorate, refCount_addRef, ih]
    rfl

/-- What stands between a reference and one inside of it, if that is decorators alone. -/
inductive Wraps (g : TypeGraph) (base : RefId) : List Decorator → RefId → Prop where
  | bare : Wraps g base [] base
  | around {d ds inner r} : g.entryAt? r = some (.decorated d inner) → Wraps g base ds inner →
      Wraps g base (d :: ds) r

theorem Wraps.kept (h : Wraps g base ds r)
    (hkept : ∀ r d inner, g.entryAt? r = some (.decorated d inner) →
      g'.entryAt? r = some (.decorated d inner)) : Wraps g' base ds r := by
  induction h with
  | bare => exact .bare
  | around he _ ih => exact .around (hkept _ _ _ he) ih

theorem wraps_decorateAll (g : TypeGraph) (ds : List Decorator) (base : RefId) :
    Wraps (g.decorateAll ds base).2 base ds (g.decorateAll ds base).1 := by
  induction ds with
  | nil => exact .bare
  | cons d ds ih =>
    have hkept := (keepsEdges_addRef (g.decorateAll ds base).2
      (.decorated d (g.decorateAll ds base).1)).decorators
    exact .around (entryAt?_addRef_self _ _) (ih.kept hkept)

theorem decorateAll_new (g : TypeGraph) (hne : ds ≠ []) (base : RefId) :
    ¬g.HasRef (g.decorateAll ds base).1 := by
  obtain ⟨d, ds, rfl⟩ := List.exists_cons_of_ne_nil hne
  have hcount := refCount_decorateAll g ds base
  intro hold
  have hlt : (g.decorateAll ds base).2.refCount < g.refCount := hold
  omega

theorem Wraps.decorated (h : Wraps g base ds r) (hne : ds ≠ []) :
    ∃ d inner, g.entryAt? r = some (.decorated d inner) := by
  cases h with
  | bare => exact absurd rfl hne
  | around he _ => exact ⟨_, _, he⟩

theorem Wraps.path (h : Wraps g base ds r) {root : RefId} {k : Nat} {inside : List Decorator}
    (hp : Path g root k base inside) : ∃ k', Path g root k' r (ds ++ inside) := by
  induction h with
  | bare => exact ⟨k, hp⟩
  | around he _ ih =>
    obtain ⟨k', hpath⟩ := ih
    exact ⟨k' + 1, .decorated he hpath⟩

/-- The reference `r` is read as `base` is, but for the decorators `ds` around it. -/
structure ShapedBy (g : TypeGraph) (ds : List Decorator) (base r : RefId) : Prop where
  decorators : g.decorators r = ds ++ g.decorators base
  namedRoot : g.namedRoot r = g.namedRoot base
  name : g.refName r = g.refName base
  package : g.refPackage r = g.refPackage base
  resolved : g.resolved? r = g.resolved? base

theorem Wraps.shaped (h : Wraps g base ds r) (hg : g.Grounded) (hbase : g.HasRef base) :
    g.ShapedBy ds base r := by
  obtain ⟨root, k, inside, hp⟩ := hg base hbase
  obtain ⟨k', hp'⟩ := h.path hp
  have hroot : g.namedRoot r = g.namedRoot base := hp'.namedRoot_eq.trans hp.namedRoot_eq.symm
  have hnamed : g.named? r = g.named? base := by rw [named?, named?, hroot]
  constructor
  case decorators => rw [hp'.decorators_eq, hp.decorators_eq]
  case namedRoot => exact hroot
  case name => rw [refName, refName, hnamed]
  case package => rw [refPackage, refPackage, hnamed]
  case resolved => rw [resolved?, resolved?, hnamed]

theorem hasRef_run {ops : List Operation} (h : g.HasRef r) : (g.run ops).HasRef r := by
  induction ops generalizing g with
  | nil => exact h
  | cons op ops ih => exact ih (Nat.lt_of_lt_of_le h (refCount_le_next g op))

end TypeGraph

section Reading

variable {scope : FileScope}

theorem decorated_spine (d : Decorator) (ds : List Decorator) (m : Analysis RefId) :
    (do
      let inner ← m >>= fun base => Analysis.ofGraph (·.decorateAll ds base)
      Analysis.ofGraph (·.decorate d inner)) =
    m >>= fun base => Analysis.ofGraph (·.decorateAll (d :: ds) base) := by
  rw [bind_assoc]
  rfl

/-- A type is read by reading what is inside of its decorators, and putting these around it. -/
theorem resolveType_spine (scope : FileScope) (type : TypeExpr) :
    resolveType scope type = resolveType scope (spineEnd type) >>= fun base =>
      Analysis.ofGraph (·.decorateAll (spine type) base) := by
  cases type with
  | named | selector | map | func | struct | interface | bad => exact (bind_pure _).symm
  | pointer elem | array _ elem | slice elem | chan _ elem | ellipsis elem =>
    rw [resolveType, resolveType_spine scope (elem ()), decorated_spine]
    rfl
  | paren inner => exact resolveType_spine scope (inner ())
termination_by structural type

variable {reg reg' : Registry} {type : TypeExpr} {r : RefId}

theorem resolveType_parts (h : resolveType scope type reg = .ok r reg') :
    ∃ base mid, resolveType scope (spineEnd type) reg = .ok base mid ∧
      mid.onGraph (·.decorateAll (spine type) base) = (r, reg') := by
  rw [resolveType_spine] at h
  obtain ⟨base, mid, hbase, hdecorated⟩ := bind_ok h
  refine ⟨base, mid, hbase, ?_⟩
  cases hdecorated
  rfl

theorem resolveType_decorated (hr : reg.Sound) (hs : scope.Sound reg) (hne : spine type ≠ [])
    (h : resolveType scope type reg = .ok r reg') :
    ¬reg.graph.HasRef r ∧ ∃ d inner, reg'.graph.entryAt? r = some (.decorated d inner) := by
  obtain ⟨base, mid, hbase, hdecorated⟩ := resolveType_parts h
  obtain ⟨hx, -⟩ := (resolveType_reads hr hs (spineEnd type)).of_ok hbase
  obtain ⟨rfl, rfl⟩ := Prod.mk.inj hdecorated.symm
  refine ⟨fun hold => TypeGraph.decorateAll_new mid.graph hne base (hx.hasRef hold), ?_⟩
  exact (TypeGraph.wraps_decorateAll mid.graph (spine type) base).decorated hne

end Reading

/-- A type that is read gets one new entry for each of its decorators, around the reference of the
type inside of them. From then on, whatever operations change the graph, its reference is read as
the inner one behind these decorators. No later reading of a decorated type ever gives the same
reference. -/
theorem references_are_shaped_by_their_types {reg reg' : Registry} {scope : FileScope}
    (hr : reg.Sound) (hs : scope.Sound reg) {type : TypeExpr} {r : RefId}
    (h : resolveType scope type reg = .ok r reg') :
    (∃ base mid, resolveType scope (spineEnd type) reg = .ok base mid ∧
      mid.onGraph (·.decorateAll (spine type) base) = (r, reg') ∧
      reg'.graph.refCount = mid.graph.refCount + (spine type).length ∧
      ∀ ops, reg'.graph.ValidRun ops →
        (reg'.graph.run ops).ShapedBy (spine type) base r) ∧
    ∀ ops later, reg'.graph.ValidRun ops → later.graph = reg'.graph.run ops → later.Sound →
      ∀ scope' other r' last, scope'.Sound later → resolveType scope' other later = .ok r' last →
        spine type ≠ [] → spine other ≠ [] →
        ∀ ops', last.graph.ValidRun ops' → (last.graph.run ops').sameRef r r' = false := by
  obtain ⟨hx, -⟩ := (resolveType_reads hr hs type).of_ok h
  have hreach : TypeGraph.Reachable reg'.graph := (hx.sound hr).graph
  constructor
  · obtain ⟨base, mid, hbase, hdecorated⟩ := resolveType_parts h
    obtain ⟨-, hhas, -⟩ := (resolveType_reads hr hs (spineEnd type)).of_ok hbase
    obtain ⟨rfl, rfl⟩ := Prod.mk.inj hdecorated.symm
    have hcount := TypeGraph.refCount_decorateAll mid.graph (spine type) base
    have hwraps := TypeGraph.wraps_decorateAll mid.graph (spine type) base
    refine ⟨base, mid, hbase, rfl, hcount, fun ops hv => ?_⟩
    have hinside : (mid.graph.decorateAll (spine type) base).2.HasRef base :=
      Nat.lt_of_lt_of_le hhas (hcount ▸ Nat.le_add_right _ _)
    have hground := TypeGraph.reachable_grounded (hreach.run hv)
    have hkept := (TypeGraph.keepsIdentity_run hreach hv).decorated
    exact (hwraps.kept hkept).shaped hground (TypeGraph.hasRef_run hinside)
  · intro ops later hv hlater hlaterSound scope' other r' last hs' h' hne hne' ops' hv'
    obtain ⟨-, d, inner, hfirst⟩ := resolveType_decorated hr hs hne h
    obtain ⟨hnew, d', inner', hsecond⟩ := resolveType_decorated hlaterSound hs' hne' h'
    obtain ⟨hx', -⟩ := (resolveType_reads hlaterSound hs' other).of_ok h'
    have hbetween : later.graph.entryAt? r = some (.decorated d inner) := by
      rw [hlater]
      exact (TypeGraph.keepsIdentity_run hreach hv).decorated r d inner hfirst
    have hdistinct : r ≠ r' := by
      rintro rfl
      exact hnew (TypeGraph.hasRef_of_entryAt? hbetween)
    have hkept := (TypeGraph.keepsIdentity_run (hx'.sound hlaterSound).graph hv').decorated
    exact TypeGraph.not_sameRef_of_decorated hdistinct
      (hkept r d inner (hx'.entries r _ hbetween)) (hkept r' d' inner' hsecond)

def sliceOfName : TypeExpr := .slice fun _ => .paren fun _ => .named "P" []

def sliceRead : Registry := stateAfter (resolveType newScope sliceOfName) newPackage

def nameIsPointer : List TypeGraph.Operation := [.decorate .pointer ⟨1⟩, .aliasTo ⟨22⟩ ⟨24⟩]

def sliceAliased : Registry := { sliceRead with graph := sliceRead.graph.run nameIsPointer }

/-- The slice was read first. When its name has become an alias, it is a slice of pointers, and it
is not the slice that is read then. -/
theorem sliceOfAlias_is_shaped :
    resolveType newScope sliceOfName newPackage = .ok ⟨23⟩ sliceRead ∧
    sliceRead.graph.ValidRun nameIsPointer ∧
    sliceAliased.graph.ShapedBy [.array] ⟨22⟩ ⟨23⟩ ∧
    sliceAliased.graph.decorators ⟨23⟩ = [.array, .pointer] ∧
    ∃ last, resolveType newScope sliceOfName sliceAliased = .ok ⟨25⟩ last ∧
      last.graph.sameRef ⟨23⟩ ⟨25⟩ = false := by
  obtain ⟨-, hp⟩ := newPackage_course
  have hr : newPackage.Sound :=
    Registry.reachable_sound (Registry.Reachable.new.next (.append ⟨"p", "p", "", []⟩) trivial)
  have hs := newScope_sound hp
  have hread : resolveType newScope sliceOfName newPackage = .ok ⟨23⟩ sliceRead :=
    eq_ok_stateAfter (by decide +kernel)
  have hvalid : sliceRead.graph.ValidRun nameIsPointer := by decide +kernel
  obtain ⟨⟨base, mid, hbase, -, -, hshaped⟩, hdistinct⟩ :=
    references_are_shaped_by_their_types hr hs hread
  have hname : resolveType newScope (.named "P" []) newPackage = .ok ⟨22⟩ _ :=
    eq_ok_stateAfter (by decide +kernel)
  obtain ⟨rfl, -⟩ := EStateM.Result.ok.inj (hbase.symm.trans hname)
  have hsound : sliceRead.Sound := ((resolveType_reads hr hs _).of_ok hread).1.sound hr
  have halias : sliceAliased.Sound := by
    refine ⟨hsound.graph.run hvalid, fun q n r href => ?_⟩
    exact TypeGraph.hasRef_run (hsound.refs q n r href)
  have hscope : newScope.Sound sliceAliased :=
    newScope_sound (Option.isSome_iff_exists.mp (by decide +kernel))
  have hagain : resolveType newScope sliceOfName sliceAliased = .ok ⟨25⟩ _ :=
    eq_ok_stateAfter (by decide +kernel)
  refine ⟨hread, hvalid, hshaped _ hvalid, by decide +kernel, _, hagain, ?_⟩
  exact hdistinct nameIsPointer sliceAliased hvalid rfl halias newScope sliceOfName ⟨25⟩ _ hscope
    hagain
    (List.cons_ne_nil _ _) (List.cons_ne_nil _ _) [] trivial

end GoPackages
