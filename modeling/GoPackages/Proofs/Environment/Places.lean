import GoPackages.Proofs.Environment.Redirects

/-!
# Places of types while items come in any order

The reference that was read for a type shows, in both views, what its head stands for at the
moment, also after more items. What it shows of a type with an entry of its own lies among the
entries that were made for its item, where no name but that of an alias is found.
-/
namespace GoPackages

open Source (TypeExpr)

/-- An entry from `start` on and before `stop` that is the own one of no name. -/
structure Private (scope : FileScope) (items : List Item) (reg : Registry) (start stop : Nat)
    (r : RefId) : Prop where
  lower : start ≤ r.index
  upper : r.index < stop
  unnamed : ∀ n, Unaliased items n → scope.found? reg n ≠ some r

structure Place (scope : FileScope) (items : List Item) (reg : Registry) (start stop : Nat)
    (type : TypeExpr) (r : RefId) : Prop where
  hasRef : reg.graph.HasRef r
  written : ∀ v : View, v.head type ≠ .elsewhere
  name : ∀ (v : View) n, v.head type = .name n →
    ∃ s, scope.found? reg n = some s ∧ v.of reg.graph r = v.of reg.graph s
  empty : ∀ v : View, v.head type = .empty → v.of reg.graph r = TypeGraph.emptyInterface
  site : ∀ v : View, v.head type = .site →
    Private scope items reg start stop (v.of reg.graph r)

/-- What places and records rely on while the registry goes on. Only `free` types may change. -/
structure Sustains (scope : FileScope) (items items' : List Item) (free : TypeId → Prop)
    (reg reg' : Registry) : Prop where
  subset : items ⊆ items'
  hasRef : ∀ r, reg.graph.HasRef r → reg'.graph.HasRef r
  types : ∀ ty data, ¬free ty → reg.graph.typeAt? ty = some data →
    reg'.graph.typeAt? ty = some data
  table : ∀ n ∈ declared items, ∀ r, scope.found? reg n = some r →
    scope.found? reg' n = some r
  found : ∀ n s, scope.found? reg n = some s → ∃ s', scope.found? reg' n = some s' ∧
    ∀ (v : View) r, reg.graph.HasRef r → v.of reg.graph r = v.of reg.graph s →
      v.of reg'.graph r = v.of reg'.graph s'
  empty : ∀ (v : View) r, reg.graph.HasRef r → v.of reg.graph r = TypeGraph.emptyInterface →
    v.of reg'.graph r = TypeGraph.emptyInterface
  sites : ∀ (v : View) r, reg.graph.HasRef r →
    (∀ n, Unaliased items n → scope.found? reg n ≠ some (v.of reg.graph r)) →
    v.of reg'.graph r = v.of reg.graph r ∧
      ∀ n, Unaliased items' n → scope.found? reg' n ≠ some (v.of reg.graph r)

section

variable {scope : FileScope} {base reg mid reg' : Registry} {items items₁ items' : List Item}
  {free free' : TypeId → Prop} {start stop start' stop' : Nat} {type : TypeExpr} {r : RefId}
  {name : String} {target : RefId}

theorem unaliased_anti (h : items ⊆ items') {n : String} (ha : Unaliased items' n) :
    Unaliased items n := fun target hm => ha target (aliasesOf_subset h hm)

theorem Private.widen (h : Private scope items reg start stop r) (hl : start' ≤ start)
    (hu : stop ≤ stop') : Private scope items reg start' stop' r :=
  ⟨Nat.le_trans hl h.lower, Nat.lt_of_lt_of_le h.upper hu, h.unnamed⟩

theorem Place.widen (h : Place scope items reg start stop type r) (hl : start' ≤ start)
    (hu : stop ≤ stop') : Place scope items reg start' stop' type r :=
  { h with site := fun v hv => (h.site v hv).widen hl hu }

theorem Place.sustained (h : Place scope items reg start stop type r)
    (hs : Sustains scope items items' free reg reg') :
    Place scope items' reg' start stop type r where
  hasRef := hs.hasRef r h.hasRef
  written := h.written
  name v n hn := by
    obtain ⟨s, hf, hv⟩ := h.name v n hn
    obtain ⟨s', hf', hviews⟩ := hs.found n s hf
    exact ⟨s', hf', hviews v r h.hasRef hv⟩
  empty v hv := hs.empty v r h.hasRef (h.empty v hv)
  site v hv := by
    obtain ⟨hl, hu, hn⟩ := h.site v hv
    obtain ⟨hkept, hn'⟩ := hs.sites v r h.hasRef hn
    rw [hkept]
    exact ⟨hl, hu, hn'⟩

namespace Sustains

theorem weaken (h : Sustains scope items items' free reg reg')
    (hf : ∀ ty, free ty → free' ty) : Sustains scope items items' free' reg reg' :=
  { h with types := fun ty data hn => h.types ty data fun ht => hn (hf ty ht) }

theorem refCount_le (h : Sustains scope items items' free reg reg') :
    reg.graph.refCount ≤ reg'.graph.refCount := by
  by_contra hn
  have hlast : reg.graph.HasRef ⟨reg'.graph.refCount⟩ := Nat.lt_of_not_le hn
  exact Nat.lt_irrefl _ (h.hasRef _ hlast)

theorem hasType (h : Sustains scope items items' reg.Unmade reg reg') {ty : TypeId}
    (ht : reg.graph.HasType ty) : reg'.graph.HasType ty := by
  obtain ⟨data, hd⟩ := ht.data
  exact TypeGraph.hasType_of_typeAt? (h.types ty data (fun hn => hn ht) hd)

theorem trans (h : Sustains scope items items₁ free reg mid)
    (h' : Sustains scope items₁ items' free mid reg') :
    Sustains scope items items' free reg reg' where
  subset := fun _ hm => h'.subset (h.subset hm)
  hasRef r hr := h'.hasRef r (h.hasRef r hr)
  types ty data hf hd := h'.types ty data hf (h.types ty data hf hd)
  table n hn r hf := h'.table n (declared_mono h.subset hn) r (h.table n hn r hf)
  found n s hf := by
    obtain ⟨s₁, hf₁, hv₁⟩ := h.found n s hf
    obtain ⟨s₂, hf₂, hv₂⟩ := h'.found n s₁ hf₁
    exact ⟨s₂, hf₂, fun v r hr hv => hv₂ v r (h.hasRef r hr) (hv₁ v r hr hv)⟩
  empty v r hr hv := h'.empty v r (h.hasRef r hr) (h.empty v r hr hv)
  sites v r hr hn := by
    obtain ⟨hkept, hn₁⟩ := h.sites v r hr hn
    obtain ⟨hkept', hn'⟩ := h'.sites v r (h.hasRef r hr) (hkept ▸ hn₁)
    exact ⟨hkept'.trans hkept, hkept ▸ hn'⟩

/-- Entries stay with their edges, and only what is new is found under more names. -/
theorem of_edges (hl : Lookups scope base items reg) (hr' : reg'.Sound) (hsub : items ⊆ items')
    (hk : TypeGraph.KeepsEdges reg.graph reg'.graph)
    (href : ∀ r, reg.graph.HasRef r → reg'.graph.HasRef r)
    (htypes : ∀ ty data, ¬free ty → reg.graph.typeAt? ty = some data →
      reg'.graph.typeAt? ty = some data)
    (hfound : ∀ n r, scope.found? reg n = some r → scope.found? reg' n = some r)
    (hnew : ∀ n r, scope.found? reg' n = some r → scope.found? reg n = some r ∨
      ¬reg.graph.HasRef r) : Sustains scope items items' free reg reg' := by
  have hkept : ∀ (v : View) r, reg.graph.HasRef r → v.of reg'.graph r = v.of reg.graph r :=
    fun v r => v.of_kept hl.grounded (TypeGraph.reachable_grounded hr'.graph) hk
  refine ⟨hsub, href, htypes, fun n _ => hfound n, ?_, ?_, ?_⟩
  · intro n s hf
    refine ⟨s, hfound n s hf, fun v r hr hv => ?_⟩
    rw [hkept v r hr, hkept v s (hl.hasRef hf), hv]
  · intro v r hr hv
    rw [hkept v r hr, hv]
  · intro v r hr hn
    refine ⟨hkept v r hr, fun n ha hf => ?_⟩
    rcases hnew n _ hf with hold | hnot
    · exact hn n (unaliased_anti hsub ha) hold
    · exact hnot (v.hasRef_of hl.grounded hr)

theorem of_expands (hl : Lookups scope base items reg) (hg : Expands scope free reg reg')
    (hsub : items ⊆ items') : Sustains scope items items' free reg reg' := by
  have hk : TypeGraph.KeepsEdges reg.graph reg'.graph :=
    ⟨fun r e he => ⟨e, hg.entries r _ he⟩, fun r _ _ => hg.entries r _, fun r _ => hg.entries r _⟩
  refine of_edges hl (hg.sound hl.sound) hsub hk (fun _ => hg.hasRef) hg.types
    (fun _ _ => hg.consults.found?) fun n r hf => ?_
  exact (hg.found?_cases hf).imp_right And.left

/-- The views of everything else are as before, and those of the lost entry of the alias are the
views of its target. -/
theorem of_redirects (hl : Lookups scope base items reg) (hb : scope.found? base name = none)
    (hn : name ∉ declared items) (hr : Redirects scope name target reg reg')
    (ht : reg.graph.HasRef target) {item : Item} (halias : item.alias? = some (name, type)) :
    Sustains scope items (items ++ [item]) free reg reg' := by
  have hsub : items ⊆ items ++ [item] := List.subset_append_left _ _
  have hunaliased : Unaliased items name := unaliased_of_undeclared hn
  have hlost : ∀ x, base.graph.HasRef x → scope.found? reg name ≠ some x :=
    fun x hx hf => (hl.own_entry hb hn hf).1 hx
  constructor
  case subset => exact hsub
  case hasRef => exact fun r => hr.gathers.hasRef r
  case types =>
    intro ty data _ hd
    rwa [TypeGraph.typeAt?, hr.types]
  case table =>
    intro n hn' r hf
    have hne : n ≠ name := fun heq => hn (heq ▸ hn')
    exact (hr.others n hne).trans hf
  case found =>
    intro n s hf
    have htarget : ∀ v : View, v.of reg'.graph target = v.of reg.graph target :=
      fun v => hr.stayed v target ht (hr.apart v)
    by_cases hne : n = name
    · subst hne
      obtain ⟨-, e, he, -⟩ := hl.own_entry hb hn hf
      refine ⟨target, hr.found, fun v r href hv => ?_⟩
      rw [htarget v]
      exact hr.moved v r href (hf.trans (congrArg some (hv.trans (v.of_named he)).symm))
    · refine ⟨s, (hr.others n hne).trans hf, fun v r href hv => ?_⟩
      by_cases hlead : scope.found? reg name = some (v.of reg.graph r)
      · rw [hr.moved v r href hlead, hr.moved v s (hl.hasRef hf) (hv ▸ hlead)]
      · rw [hr.stayed v r href hlead, hr.stayed v s (hl.hasRef hf) (hv ▸ hlead), hv]
  case empty =>
    intro v r href hv
    have hlead : scope.found? reg name ≠ some (v.of reg.graph r) := hv ▸ hlost _ hl.bottom
    exact (hr.stayed v r href hlead).trans hv
  case sites =>
    intro v r href hfree
    refine ⟨hr.stayed v r href (hfree name hunaliased), fun n ha hf => ?_⟩
    have hne : n ≠ name := by
      rintro rfl
      refine ha type (List.mem_filterMap.mpr ⟨item, ?_, halias⟩)
      exact List.mem_append_right _ (List.mem_singleton_self _)
    exact hfree n (unaliased_anti hsub ha) ((hr.others n hne).symm.trans hf)

end Sustains

end

end GoPackages
