import GoPackages.Proofs.TypeGraph.Path

/-!
# Paths after a change of the graph

New entries and new contents of names leave every path as it is. An alias redirects one
name: the paths that ended there go on along the path of the target.
-/
namespace GoPackages.TypeGraph

/-- Every entry is kept with its edges; a name may change what it holds. -/
structure KeepsEdges (g g' : TypeGraph) : Prop where
  names : ∀ r e, g.entryAt? r = some (.named e) → ∃ e', g'.entryAt? r = some (.named e')
  decorators : ∀ r d inner, g.entryAt? r = some (.decorated d inner) →
    g'.entryAt? r = some (.decorated d inner)
  aliases : ∀ r target, g.entryAt? r = some (.aliasOf target) →
    g'.entryAt? r = some (.aliasOf target)

theorem KeepsEdges.refl (g : TypeGraph) : KeepsEdges g g :=
  ⟨fun _ e h => ⟨e, h⟩, fun _ _ _ h => h, fun _ _ h => h⟩

theorem KeepsEdges.trans {g h i : TypeGraph} (hgh : KeepsEdges g h) (hhi : KeepsEdges h i) :
    KeepsEdges g i := by
  refine ⟨?_, ?_, ?_⟩
  · intro r e he
    obtain ⟨e', he'⟩ := hgh.names r e he
    exact hhi.names r e' he'
  · intro r d inner he
    exact hhi.decorators r d inner (hgh.decorators r d inner he)
  · intro r target he
    exact hhi.aliases r target (hgh.aliases r target he)

theorem KeepsEdges.of_refs_eq {g g' : TypeGraph} (h : g'.refs = g.refs) : KeepsEdges g g' := by
  have he : ∀ r, g'.entryAt? r = g.entryAt? r := fun r => by simp [entryAt?, h]
  exact ⟨fun r e hr => ⟨e, (he r).trans hr⟩, fun r _ _ hr => (he r).trans hr,
    fun r _ hr => (he r).trans hr⟩

theorem Path.kept {g g' : TypeGraph} {root k r ds} (h : Path g root k r ds)
    (hk : KeepsEdges g g') : Path g' root k r ds := by
  induction h with
  | named he =>
    obtain ⟨e', he'⟩ := hk.names _ _ he
    exact .named he'
  | decorated he _ ih => exact .decorated (hk.decorators _ _ _ he) ih
  | aliased he _ ih => exact .aliased (hk.aliases _ _ he) ih

theorem Grounded.kept {g g' : TypeGraph} (hg : g.Grounded) (hk : KeepsEdges g g')
    (hc : g'.refCount = g.refCount) : g'.Grounded := by
  intro r hr
  obtain ⟨root, k, ds, hp⟩ := hg r (by unfold HasRef at hr ⊢; omega)
  exact ⟨root, k, ds, hp.kept hk⟩

theorem keepsEdges_addRef (g : TypeGraph) (e : RefEntry) : KeepsEdges g (g.addRef e).2 := by
  have hold : ∀ r e', g.entryAt? r = some e' → (g.addRef e).2.entryAt? r = some e' :=
    fun r e' he => (entryAt?_addRef_of_lt (hasRef_of_entryAt? he) e).trans he
  exact ⟨fun r e' he => ⟨e', hold r _ he⟩, fun r _ _ he => hold r _ he,
    fun r _ he => hold r _ he⟩

theorem HasRef.addRef_cases {g : TypeGraph} {e : RefEntry} {r}
    (h : (g.addRef e).2.HasRef r) : g.HasRef r ∨ r = (g.addRef e).1 := by
  unfold HasRef at h ⊢
  rw [refCount_addRef] at h
  by_cases hr : r.index < g.refCount
  · exact .inl hr
  · refine .inr ?_
    have hi : r.index = g.refs.size := by unfold refCount at h hr; omega
    cases r
    exact congrArg RefId.mk hi

theorem Grounded.addRef {g : TypeGraph} (hg : g.Grounded) (e : RefEntry)
    (he : ∀ s, e.inner? = some s → g.HasRef s) : (g.addRef e).2.Grounded := by
  intro r hr
  rcases hr.addRef_cases with hr | rfl
  · obtain ⟨root, k, ds, hp⟩ := hg r hr
    exact ⟨root, k, ds, hp.kept (keepsEdges_addRef g e)⟩
  · have hself := entryAt?_addRef_self g e
    cases e with
    | named entry => exact ⟨_, 0, [], .named hself⟩
    | decorated d inner =>
      obtain ⟨root, k, ds, hp⟩ := hg inner (he inner rfl)
      exact ⟨root, k + 1, d :: ds, .decorated hself (hp.kept (keepsEdges_addRef g _))⟩
    | aliasOf target =>
      obtain ⟨root, k, ds, hp⟩ := hg target (he target rfl)
      exact ⟨root, k + 1, ds, .aliased hself (hp.kept (keepsEdges_addRef g _))⟩

theorem keepsEdges_modifyNamed (g : TypeGraph) (r : RefId) (f : NamedRef → NamedRef) :
    KeepsEdges g (g.modifyNamed r f) := by
  refine ⟨?_, ?_, ?_⟩
  · intro s e he
    by_cases hs : r = s
    · subst hs; exact ⟨f e, entryAt?_modifyNamed_of_named he f⟩
    · exact ⟨e, (entryAt?_modifyNamed_of_ne hs g f).trans he⟩
  · intro s d inner he
    simp only [modifyNamed, entryAt?, Array.getElem?_modify] at he ⊢
    split <;> simp [he]
  · intro s target he
    simp only [modifyNamed, entryAt?, Array.getElem?_modify] at he ⊢
    split <;> simp [he]

theorem keepsEdges_bind (g : TypeGraph) (r : RefId) (ty : TypeId) :
    KeepsEdges g (g.bind r ty).2 :=
  (keepsEdges_modifyNamed g _ _).trans (.of_refs_eq rfl)

theorem entryAt?_bind_of_ne {g : TypeGraph} {r x : RefId} (h : g.namedRoot r ≠ x) (ty : TypeId) :
    (g.bind r ty).2.entryAt? x = g.entryAt? x :=
  entryAt?_modifyNamed_of_ne h g _

theorem entryAt?_bind_self {g : TypeGraph} {r : RefId} {e : NamedRef}
    (h : g.entryAt? (g.namedRoot r) = some (.named e)) (ty : TypeId) :
    (g.bind r ty).2.entryAt? (g.namedRoot r) = some (.named { e with type := some ty }) :=
  entryAt?_modifyNamed_of_named h _

theorem entryAt?_bind_named {g : TypeGraph} {r : RefId} {e : NamedRef}
    (he : g.entryAt? r = some (.named e)) (ty : TypeId) :
    (g.bind r ty).2.entryAt? r = some (.named { e with type := some ty }) := by
  have hroot : g.namedRoot r = r := namedRoot_of_named he
  have hself := entryAt?_bind_self (hroot.symm ▸ he) ty
  rwa [hroot] at hself

theorem entryAt?_bind_other {g : TypeGraph} {r x : RefId} {e : NamedRef}
    (he : g.entryAt? r = some (.named e)) (hx : r ≠ x) (ty : TypeId) :
    (g.bind r ty).2.entryAt? x = g.entryAt? x :=
  entryAt?_bind_of_ne ((namedRoot_of_named he).trans_ne hx) ty

theorem typeAt?_bind_of_ne {g : TypeGraph} {ty t : TypeId} (h : ty ≠ t) (r : RefId) :
    (g.bind r ty).2.typeAt? t = g.typeAt? t :=
  typeAt?_modifyType_of_ne h (g.modifyNamed _ _) _

theorem typeAt?_bind_self {g : TypeGraph} {ty : TypeId} {data : TypeData}
    (h : g.typeAt? ty = some data) (r : RefId) :
    (g.bind r ty).2.typeAt? ty = some (if data.kind.isDefined then
      { data with declaredBy := some (g.namedRoot r) } else data) := by
  unfold typeAt? at h ⊢
  simp [bind, modifyType, modifyNamed, Array.getElem?_modify, h]

theorem keepsEdges_addMethod (g : TypeGraph) (r : RefId) (method : TypeId) :
    KeepsEdges g (g.addMethod r method).2 := by
  unfold addMethod
  split
  · exact .refl g
  · exact keepsEdges_modifyNamed g _ _

def addMethods (g : TypeGraph) (r : RefId) (methods : List TypeId) : TypeGraph :=
  methods.foldl (fun g method => (g.addMethod r method).2) g

theorem keepsEdges_addMethods (g : TypeGraph) (r : RefId) (methods : List TypeId) :
    KeepsEdges g (g.addMethods r methods) := by
  induction methods generalizing g with
  | nil => exact .refl g
  | cons m rest ih => exact (keepsEdges_addMethod g r m).trans (ih _)

theorem refCount_addMethods (g : TypeGraph) (r : RefId) (methods : List TypeId) :
    (g.addMethods r methods).refCount = g.refCount := by
  induction methods generalizing g with
  | nil => rfl
  | cons m rest ih => exact (ih _).trans (refCount_addMethod g r m)

theorem types_addMethods (g : TypeGraph) (r : RefId) (methods : List TypeId) :
    (g.addMethods r methods).types = g.types := by
  induction methods generalizing g with
  | nil => rfl
  | cons m rest ih => exact (ih _).trans (types_addMethod g r m)

def redirect (g : TypeGraph) (root target : RefId) : TypeGraph :=
  { g with refs := g.refs.setIfInBounds root.index (.aliasOf target) }

theorem aliasTo?_eq (g : TypeGraph) (r target : RefId) :
    g.aliasTo? r target =
      if g.namedRoot target = g.namedRoot r then none
      else some ((g.redirect (g.namedRoot r) target).addMethods target
        (g.refMethods (g.namedRoot r)).values) := rfl

@[simp] theorem refCount_redirect (g : TypeGraph) (root target : RefId) :
    (g.redirect root target).refCount = g.refCount := by
  simp [redirect, refCount]

theorem entryAt?_redirect_self {g : TypeGraph} {root : RefId} (h : g.HasRef root)
    (target : RefId) : (g.redirect root target).entryAt? root = some (.aliasOf target) := by
  unfold HasRef refCount at h
  simp [redirect, entryAt?, h]

theorem entryAt?_redirect_of_ne {root r : RefId} (h : root ≠ r) (g : TypeGraph)
    (target : RefId) : (g.redirect root target).entryAt? r = g.entryAt? r := by
  have hi : root.index ≠ r.index := fun e => h (by cases root; cases r; exact congrArg _ e)
  simp [redirect, entryAt?, hi]

theorem entryAt?_redirect_named {g : TypeGraph} {root target x : RefId} {e}
    (h : (g.redirect root target).entryAt? x = some (.named e)) :
    g.entryAt? x = some (.named e) := by
  by_cases hx : root = x
  · subst hx
    have hroot : g.HasRef root := by
      have := hasRef_of_entryAt? h
      unfold HasRef at this ⊢
      simpa using this
    simp [entryAt?_redirect_self hroot] at h
  · rwa [entryAt?_redirect_of_ne hx] at h

theorem Path.redirect_of_ne {g : TypeGraph} {root other k r ds} (h : Path g other k r ds)
    {e} (hroot : g.entryAt? root = some (.named e)) (hne : other ≠ root) (target : RefId) :
    Path (g.redirect root target) other k r ds := by
  induction h with
  | named he => exact .named ((entryAt?_redirect_of_ne hne.symm g target).trans he)
  | @decorated k r d inner ds he _ ih =>
    have hr : root ≠ r := by rintro rfl; simp [hroot] at he
    exact .decorated ((entryAt?_redirect_of_ne hr g target).trans he) ih
  | @aliased k r t ds he _ ih =>
    have hr : root ≠ r := by rintro rfl; simp [hroot] at he
    exact .aliased ((entryAt?_redirect_of_ne hr g target).trans he) ih

theorem Path.redirect_self {g : TypeGraph} {root k r ds} (h : Path g root k r ds)
    {other j target es} (ht : Path g other j target es) (hne : other ≠ root) :
    Path (g.redirect root target) other (k + 1 + j) r (ds ++ es) := by
  obtain ⟨e, hroot⟩ := h.root_named
  have ht' := ht.redirect_of_ne hroot hne target
  induction h with
  | named he =>
    rw [Nat.zero_add, Nat.add_comm]
    exact .aliased (entryAt?_redirect_self (hasRef_of_entryAt? he) target) ht'
  | @decorated k r d inner ds he _ ih =>
    have hr : root ≠ r := by rintro rfl; simp [hroot] at he
    rw [show k + 1 + 1 + j = k + 1 + j + 1 by omega]
    exact .decorated ((entryAt?_redirect_of_ne hr g target).trans he) ih
  | @aliased k r t ds he _ ih =>
    have hr : root ≠ r := by rintro rfl; simp [hroot] at he
    rw [show k + 1 + 1 + j = k + 1 + j + 1 by omega]
    exact .aliased ((entryAt?_redirect_of_ne hr g target).trans he) ih

/-- No cycle arises where the target does not lead back to the redirected name. -/
theorem Grounded.redirect {g : TypeGraph} (hg : g.Grounded) {root target : RefId} {e}
    (hroot : g.entryAt? root = some (.named e)) (ht : g.HasRef target)
    (hne : g.namedRoot target ≠ root) : (g.redirect root target).Grounded := by
  intro r hr
  obtain ⟨other, j, es, hpt⟩ := hg target ht
  rw [hpt.namedRoot_eq] at hne
  obtain ⟨end', k, ds, hp⟩ := hg r (by unfold HasRef at hr ⊢; simpa using hr)
  by_cases he : end' = root
  · subst he; exact ⟨other, _, _, hp.redirect_self hpt hne⟩
  · exact ⟨end', k, ds, hp.redirect_of_ne hroot he target⟩

theorem Grounded.aliasTo? {g g' : TypeGraph} (hg : g.Grounded) {r target : RefId}
    (hr : g.HasRef r) (ht : g.HasRef target) (h : g.aliasTo? r target = some g') :
    g'.Grounded := by
  rw [aliasTo?_eq] at h
  split at h
  · simp at h
  next hne =>
    obtain ⟨root, k, ds, hp⟩ := hg r hr
    obtain ⟨e, he⟩ := hp.root_named
    rw [hp.namedRoot_eq] at h hne
    obtain rfl := Option.some.inj h
    exact (hg.redirect he ht hne).kept (keepsEdges_addMethods _ _ _) (refCount_addMethods _ _ _)

end GoPackages.TypeGraph
