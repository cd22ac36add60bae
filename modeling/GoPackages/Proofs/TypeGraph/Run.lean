import GoPackages.Proofs.TypeGraph.Redirect

/-!
# Runs of graph operations

The operations of a session on its graph, on references and types that exist, in any
order. Each keeps every reference on a path to a name, although an alias may lead to an
older or a newer entry: the comparison of the two names is guard enough.
-/
namespace GoPackages.TypeGraph

inductive Operation where
  | placeholder (package : Option PackageId) (name : String)
  | fresh (package : Option PackageId) (name : String) (ty : TypeId)
  | decorate (decorator : Decorator) (inner : RefId)
  | mapOf (package : Option PackageId) (key value : RefId)
  | addType (data : TypeData)
  | bind (r : RefId) (ty : TypeId)
  | addMethod (r : RefId) (method : TypeId)
  | aliasTo (r target : RefId)
  | editStruct (ty : TypeId) (f : StructType → StructType)
  | editInterface (ty : TypeId) (f : InterfaceType → InterfaceType)

def Enabled (g : TypeGraph) : Operation → Prop
  | .placeholder _ _ | .addType _ | .editStruct _ _ | .editInterface _ _ => True
  | .fresh _ _ ty => g.HasType ty
  | .decorate _ inner => g.HasRef inner
  | .mapOf _ key value => g.HasRef key ∧ g.HasRef value
  | .bind r ty | .addMethod r ty => g.HasRef r ∧ g.HasType ty
  | .aliasTo r target => g.HasRef r ∧ g.HasRef target

instance (g : TypeGraph) (op : Operation) : Decidable (g.Enabled op) := by
  cases op <;> simp only [Enabled] <;> infer_instance

/-- A refused alias leaves the graph as it is. -/
def next (g : TypeGraph) : Operation → TypeGraph
  | .placeholder package name => (g.placeholder package name).2
  | .fresh package name ty => (g.fresh package name ty).2
  | .decorate decorator inner => (g.decorate decorator inner).2
  | .mapOf package key value => (g.mapOf package key value).2
  | .addType data => (g.addType data).2
  | .bind r ty => (g.bind r ty).2
  | .addMethod r method => (g.addMethod r method).2
  | .aliasTo r target => (g.aliasTo? r target).getD g
  | .editStruct ty f => g.modifyStruct ty f
  | .editInterface ty f => g.modifyInterface ty f

inductive Reachable : TypeGraph → Prop where
  | new : Reachable .new
  | next {g : TypeGraph} (op : Operation) : Reachable g → g.Enabled op → Reachable (g.next op)

def run (g : TypeGraph) (ops : List Operation) : TypeGraph := ops.foldl next g

def ValidRun (g : TypeGraph) : List Operation → Prop
  | [] => True
  | op :: ops => g.Enabled op ∧ ValidRun (g.next op) ops

instance (g : TypeGraph) (ops : List Operation) : Decidable (g.ValidRun ops) := by
  induction ops generalizing g with
  | nil => exact isTrue trivial
  | cons op ops ih => exact instDecidableAnd

theorem Reachable.run {g : TypeGraph} (hg : Reachable g) {ops} (h : g.ValidRun ops) :
    Reachable (g.run ops) := by
  induction ops generalizing g with
  | nil => exact hg
  | cons op ops ih => exact ih (hg.next op h.1) h.2

theorem grounded_new : new.Grounded := by
  intro r hr
  obtain rfl : r = ⟨0⟩ := by
    cases r
    exact congrArg RefId.mk (Nat.lt_one_iff.mp hr)
  exact ⟨⟨0⟩, 0, [], .named rfl⟩

theorem step_preserves_grounded {g : TypeGraph} (hg : g.Grounded) {op : Operation}
    (he : g.Enabled op) : (g.next op).Grounded := by
  cases op with
  | placeholder package name => exact hg.addRef _ fun s hs => by simp [RefEntry.inner?] at hs
  | fresh package name ty => exact hg.addRef _ fun s hs => by simp [RefEntry.inner?] at hs
  | decorate d inner =>
    refine hg.addRef _ fun s hs => ?_
    obtain rfl : inner = s := by simpa [RefEntry.inner?] using hs
    exact he
  | mapOf package key value =>
    have ht : ∀ data, (g.addType data).2.Grounded := fun _ => hg.kept (.of_refs_eq rfl) rfl
    exact (ht _).addRef _ fun s hs => by simp [RefEntry.inner?] at hs
  | addType data => exact hg.kept (.of_refs_eq rfl) rfl
  | bind r ty => exact hg.kept (keepsEdges_bind g r ty) (refCount_bind g r ty)
  | addMethod r m => exact hg.kept (keepsEdges_addMethod g r m) (refCount_addMethod g r m)
  | aliasTo r target =>
    cases ha : g.aliasTo? r target with
    | none => simpa [next, ha] using hg
    | some g' => simpa [next, ha] using hg.aliasTo? he.1 he.2 ha
  | editStruct ty f => exact hg.kept (.of_refs_eq rfl) rfl
  | editInterface ty f => exact hg.kept (.of_refs_eq rfl) rfl

theorem reachable_grounded {g : TypeGraph} (h : Reachable g) : g.Grounded := by
  induction h with
  | new => exact grounded_new
  | next op _ he ih => exact step_preserves_grounded ih he

theorem refCount_le_next (g : TypeGraph) (op : Operation) :
    g.refCount ≤ (g.next op).refCount := by
  cases op with
  | placeholder | fresh | decorate | mapOf =>
    exact Nat.le_trans (Nat.le_succ _) (refCount_addRef ..).ge
  | addType | editStruct | editInterface => exact Nat.le_refl _
  | bind r ty => exact (refCount_bind g r ty).ge
  | addMethod r m => exact (refCount_addMethod g r m).ge
  | aliasTo r target =>
    simp only [next, aliasTo?_eq]
    split
    · exact Nat.le_refl _
    · exact Nat.le_of_eq (by simp [refCount_addMethods])

theorem reachable_hasRef_emptyInterface {g : TypeGraph} (h : Reachable g) :
    g.HasRef emptyInterface := by
  induction h with
  | new => exact Nat.zero_lt_one
  | next op _ _ ih => exact Nat.lt_of_lt_of_le ih (refCount_le_next _ op)

/-- What makes reading a reference safe. `moving` is about the graphs in the middle of an
alias operation, where the name is redirected and some of its methods have moved. -/
structure EndsInNames (g : TypeGraph) : Prop where
  acyclic : ∀ r, ¬Relation.TransGen g.Leads r r
  root : ∀ r, g.HasRef r → Walk g RefEntry.inner? r (g.namedRoot r) ∧
    ∃ e, g.entryAt? (g.namedRoot r) = some (.named e)
  canonical : ∀ r, g.HasRef r → Walk g RefEntry.aliasTarget? r (g.canonical r)
  decorators : ∀ r, g.HasRef r → Unwraps g r (g.decorators r)
  moving : ∀ r target, g.HasRef r → g.HasRef target → g.namedRoot target ≠ g.namedRoot r →
    ∀ moved, moved <+: (g.refMethods (g.namedRoot r)).values →
      ∀ s, g.HasRef s →
        let mid := (g.redirect (g.namedRoot r) target).addMethods target moved
        ∃ e, mid.entryAt? (mid.namedRoot s) = some (.named e)

theorem Grounded.root_named {g : TypeGraph} (hg : g.Grounded) {r} (hr : g.HasRef r) :
    ∃ e, g.entryAt? (g.namedRoot r) = some (.named e) := by
  obtain ⟨root, k, ds, hp⟩ := hg r hr
  rw [hp.namedRoot_eq]
  exact hp.root_named

/-- The references of every session end in names, whatever operations it made. -/
theorem references_end_in_names {g : TypeGraph} (h : Reachable g) : EndsInNames g where
  acyclic := (reachable_grounded h).acyclic
  root r hr := by
    obtain ⟨root, k, ds, hp⟩ := reachable_grounded h r hr
    refine ⟨?_, (reachable_grounded h).root_named hr⟩
    rw [namedRoot, hp.follow_refCount fun _ _ hs => hs]
    exact hp.walk_follow fun _ _ hs => hs
  canonical r hr := by
    obtain ⟨root, k, ds, hp⟩ := reachable_grounded h r hr
    rw [TypeGraph.canonical, hp.follow_refCount Path.alias_inner]
    exact hp.walk_follow Path.alias_inner
  decorators r hr := by
    obtain ⟨root, k, ds, hp⟩ := reachable_grounded h r hr
    rw [hp.decorators_eq]
    exact hp.unwraps
  moving r target hr ht hne moved _ s hs := by
    have hg := reachable_grounded h
    obtain ⟨e, he⟩ := hg.root_named hr
    have hm := (hg.redirect he ht hne).kept (keepsEdges_addMethods _ target moved)
      (refCount_addMethods _ _ _)
    refine hm.root_named ?_
    unfold HasRef at hs ⊢
    simpa [refCount_addMethods] using hs

/-- A name that became an alias of a newer pointer, and then that pointer's name an alias
of an older name. -/
def redirected : List Operation :=
  [.placeholder none "A", .placeholder none "B", .placeholder none "C", .decorate .pointer ⟨2⟩,
    .decorate .array ⟨1⟩, .aliasTo ⟨5⟩ ⟨4⟩, .aliasTo ⟨4⟩ ⟨3⟩, .aliasTo ⟨3⟩ ⟨5⟩]

theorem redirected_references_end_in_names :
    ValidRun .new redirected ∧ EndsInNames (run .new redirected) ∧
    (run .new redirected).namedRoot ⟨5⟩ = ⟨3⟩ ∧
    (run .new redirected).decorators ⟨5⟩ = [.array, .pointer] :=
  ⟨by decide, references_end_in_names (Reachable.new.run (by decide)), by decide, by decide⟩

end GoPackages.TypeGraph
