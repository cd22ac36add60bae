import GoPackages.Proofs.Environment.Lookups
import GoPackages.Proofs.Registry.Isolation

/-!
# Aliases in a table

Where the name of an alias was used before its declaration, the entry that it got is read
through the target from then on. Nothing else changes but the methods of names.
-/
namespace GoPackages

open Source (TypeExpr)

structure Redirects (scope : FileScope) (name : String) (target : RefId) (reg reg' : Registry) :
    Prop where
  sound : reg'.Sound
  package : ∃ p, reg'.package? scope.package = some p
  lists : reg'.lists? scope.package = reg.lists? scope.package
  found : scope.found? reg' name = some target
  others : ∀ n, n ≠ name → scope.found? reg' n = scope.found? reg n
  tables : ∀ q n r, reg'.ref? q n = some r →
    q = scope.package ∧ n = name ∧ r = target ∨ reg.ref? q n = some r
  types : reg'.graph.types = reg.graph.types
  names : ∀ r e, reg.graph.entryAt? r = some (.named e) → scope.found? reg name ≠ some r →
    ∃ e', reg'.graph.entryAt? r = some (.named e') ∧ e'.name = e.name ∧ e'.type = e.type
  decorated : ∀ r d inner, reg.graph.entryAt? r = some (.decorated d inner) →
    reg'.graph.entryAt? r = some (.decorated d inner)
  apart : ∀ v : View, scope.found? reg name ≠ some (v.of reg.graph target)
  moved : ∀ (v : View) r, reg.graph.HasRef r → scope.found? reg name = some (v.of reg.graph r) →
    v.of reg'.graph r = v.of reg.graph target
  stayed : ∀ (v : View) r, reg.graph.HasRef r → scope.found? reg name ≠ some (v.of reg.graph r) →
    v.of reg'.graph r = v.of reg.graph r
  gathers : TypeGraph.Gathers reg.graph reg'.graph []

section

variable {scope : FileScope} {base reg reg' mid : Registry} {items : List Item} {name : String}
  {target : RefId}

theorem declareAlias_ok {type : TypeExpr} (h : resolveType scope type reg = .ok target mid)
    (hr : mid.rename? scope.package name target = some reg') :
    declareAlias scope name type reg = .ok () reg' := by
  unfold declareAlias
  have hget : (get : Analysis Registry) mid = .ok mid mid := rfl
  rw [bind_eq_of_ok h, bind_eq_of_ok hget]
  unfold Registry.rename? at hr
  cases hex : mid.ref? scope.package name with
  | none =>
    rw [hex] at hr
    cases hr
    rfl
  | some existing =>
    rw [hex] at hr
    obtain ⟨graph, hg, rfl⟩ := Option.map_eq_some_iff.mp hr
    dsimp only
    rw [hg]
    rfl

theorem found?_register {p : Package} (hp : reg.package? scope.package = some p) (n : String) :
    scope.found? (reg.register scope.package name target) n =
      if n = name then some target else scope.found? reg n := by
  split
  next h =>
    rw [h]
    exact FileScope.found?_own (Registry.ref?_register_self hp name target)
  next h =>
    refine FileScope.found?_congr fun q => ?_
    by_cases hq : scope.package = q
    · rw [← hq]
      exact Registry.ref?_register_of_ne (fun heq => h heq.symm) reg _ _
    · exact Registry.ref?_modifyPackage_of_ne hq reg _ n

theorem lists?_register {p : Package} (hp : reg.package? scope.package = some p) :
    (reg.register scope.package name target).lists? scope.package =
      reg.lists? scope.package := by
  rw [Registry.lists?, Registry.lists?, Registry.package?_register_self hp, hp]
  rfl

theorem Lookups.redirects_new (h : Lookups scope base items reg) {p : Package}
    (hp : reg.package? scope.package = some p) (ht : reg.graph.HasRef target)
    (hnone : scope.found? reg name = none) :
    Redirects scope name target reg (reg.register scope.package name target) := by
  have hfound : ∀ r, scope.found? reg name ≠ some r := fun r hr => by cases hnone.symm.trans hr
  constructor
  case sound => exact h.sound.register ht _ _
  case package => exact ⟨_, Registry.package?_register_self hp name target⟩
  case lists => exact lists?_register hp
  case found => rw [found?_register hp, if_pos rfl]
  case others =>
    intro n hn
    rw [found?_register hp, if_neg hn]
  case tables => exact fun q n r hr => Registry.ref?_register_cases hr
  case types => rfl
  case names => exact fun r e he _ => ⟨e, he, rfl, rfl⟩
  case decorated => exact fun _ _ _ he => he
  case apart => exact fun v => hfound _
  case moved => exact fun v r _ hr => absurd hr (hfound _)
  case stayed => exact fun _ _ _ _ => rfl
  case gathers => exact TypeGraph.gathers_types h.grounded rfl (.of_types_eq rfl)

theorem Lookups.redirects_used (h : Lookups scope base items reg) {p : Package}
    (hp : reg.package? scope.package = some p) (ht : reg.graph.HasRef target) {existing : RefId}
    {e : NamedRef} (hfound : scope.found? reg name = some existing)
    (he : reg.graph.entryAt? existing = some (.named e))
    (hne : reg.graph.namedRoot target ≠ existing) :
    ∃ g, reg.graph.aliasTo? existing target = some g ∧
      Redirects scope name target reg
        (Registry.register { reg with graph := g } scope.package name target) := by
  have hroot : reg.graph.namedRoot existing = existing := TypeGraph.namedRoot_of_named he
  have href := TypeGraph.hasRef_of_entryAt? he
  obtain ⟨g, hg, heffect, hentries⟩ :=
    TypeGraph.aliasTo?_of_ne h.sound.graph href ht (by rwa [hroot])
  have hview := fun (v : View) r hr => v.of_aliased (s := r) heffect hroot hr
  have hp' : Registry.package? { reg with graph := g } scope.package = some p := hp
  have hstep := h.sound.step (.aliasTo existing target) ⟨href, ht⟩
  rw [TypeGraph.next, hg, Option.getD_some] at hstep
  have hgathers := TypeGraph.gathers_aliasTo h.grounded
    (TypeGraph.reachable_methodsNamed h.sound.graph) href ht hg
  refine ⟨g, hg, ?_⟩
  constructor
  case sound => exact hstep.register (hgathers.hasRef target ht) _ _
  case package => exact ⟨_, Registry.package?_register_self hp' name target⟩
  case lists => exact lists?_register hp'
  case found => rw [found?_register hp', if_pos rfl]
  case others =>
    intro n hn
    rw [found?_register hp', if_neg hn]
    rfl
  case tables => exact fun q n r hr => Registry.ref?_register_cases hr
  case types => exact heffect.types_kept
  case names =>
    intro r e' he' hr
    have hr' : r ≠ reg.graph.namedRoot existing := by
      rw [hroot]
      rintro rfl
      exact hr hfound
    refine ⟨_, hentries.names r e' he' hr', ?_, ?_⟩
    · split <;> rfl
    · split <;> rfl
  case decorated => exact hentries.decorated
  case apart =>
    intro v heq
    have hv : v.of reg.graph target = existing := Option.some.inj (heq.symm.trans hfound)
    cases v with
    | core => exact hne hv
    | whole =>
      have hc : reg.graph.canonical target = reg.graph.canonical existing :=
        hv.trans (TypeGraph.canonical_of_named he).symm
      exact hne ((View.of_eq .core h.grounded ht href hc).trans hroot)
  case moved =>
    intro v r hr heq
    have hv : v.of reg.graph r = existing := Option.some.inj (heq.symm.trans hfound)
    exact (hview v r hr).trans (if_pos hv)
  case stayed =>
    intro v r hr hne'
    refine (hview v r hr).trans (if_neg fun heq => hne' ?_)
    rw [heq]
    exact hfound
  case gathers =>
    exact hgathers.trans (TypeGraph.gathers_types (TypeGraph.reachable_grounded hstep.graph) rfl
      (.of_types_eq rfl))

theorem Lookups.exists_redirects (h : Lookups scope base items reg)
    (hb : scope.found? base name = none) (hn : name ∉ declared items) {p : Package}
    (hp : reg.package? scope.package = some p) (ht : reg.graph.HasRef target)
    (hne : scope.found? reg name ≠ some (reg.graph.namedRoot target)) :
    ∃ reg', reg.rename? scope.package name target = some reg' ∧
      Redirects scope name target reg reg' := by
  have hlookup := h.found?_eq hb
  unfold Registry.rename?
  cases hex : reg.ref? scope.package name with
  | none => exact ⟨_, rfl, h.redirects_new hp ht (hlookup.trans hex)⟩
  | some existing =>
    have hfound := hlookup.trans hex
    obtain ⟨-, e, he, -, -⟩ := h.own_entry hb hn hfound
    have hcore : reg.graph.namedRoot target ≠ existing := by
      rintro rfl
      exact hne hfound
    obtain ⟨g, hg, hredirects⟩ := h.redirects_used hp ht hfound he hcore
    refine ⟨_, ?_, hredirects⟩
    dsimp only
    rw [hg]
    rfl

/-- The tables after an alias was declared. -/
theorem Lookups.redirected (h : Lookups scope base items reg) {item : Item} {type : TypeExpr}
    (halias : item.alias? = some (name, type)) (hb : scope.found? base name = none)
    (hn : name ∉ declared items) (hr : Redirects scope name target reg reg') :
    Lookups scope base (items ++ [item]) reg' where
  sound := hr.sound
  start := h.start
  old r hold := by
    obtain ⟨e, he⟩ := h.old r hold
    have hne : scope.found? reg name ≠ some r := fun hf => (h.own_entry hb hn hf).1 hold
    obtain ⟨e', he', -⟩ := hr.names r e he hne
    exact ⟨e', he'⟩
  kept n r hf := by
    have hne : n ≠ name := by
      rintro rfl
      cases hb.symm.trans hf
    exact (hr.others n hne).trans (h.kept n r hf)
  tables q hq n r href := by
    by_cases hown : q = scope.package
    · exact FileScope.found?_own (hown ▸ href)
    · have hold := (hr.tables q n r href).resolve_left fun ⟨heq, _⟩ => hown heq
      have hne : n ≠ name := by
        rintro rfl
        have hdots := (List.mem_cons.mp hq).resolve_left hown
        have hnone := List.findSome?_eq_none_iff.mp hb q hq
        cases hnone.symm.trans (h.foreign q hdots hown n r hold)
      exact (hr.others n hne).trans (h.tables q hq n r hold)
  foreign q hq hne n r href := by
    rcases hr.tables q n r href with ⟨rfl, -⟩ | hold
    · exact absurd rfl hne
    · exact h.foreign q hq hne n r hold
  own n r hbn ha hf := by
    have hne : n ≠ name := by
      rintro rfl
      refine ha type (List.mem_filterMap.mpr ⟨item, ?_, halias⟩)
      exact List.mem_append_right _ (List.mem_singleton_self _)
    have ha' : Unaliased items n := fun target hm =>
      ha target (aliasesOf_subset (List.subset_append_left _ _) hm)
    rw [hr.others n hne] at hf
    obtain ⟨hold, e, he, rfl, htype⟩ := h.own n r hbn ha' hf
    have hlost : scope.found? reg name ≠ some r := by
      intro hr
      obtain ⟨-, e', he', rfl, -⟩ := h.own_entry hb hn hr
      obtain rfl : e = e' := by simpa [he] using he'
      exact hne rfl
    obtain ⟨e', he', hname, htype'⟩ := hr.names r e he hlost
    refine ⟨hold, e', he', hname, fun hn => htype'.trans (htype fun hm => hn ?_)⟩
    exact declared_mono (List.subset_append_left _ _) hm

end

end GoPackages
