import GoPackages.Proofs.TypeGraph.Alias

/-!
# Methods are never lost

Over a run of operations names are only ever united, and with them their methods. So a name
has the methods that were registered through references which lead to it now, wherever these
references led when the methods came, and a defined type keeps the methods of its name.
-/
namespace GoPackages

namespace TypeGraph

theorem Path.refMethods_eq {g : TypeGraph} {root k r ds e} (h : Path g root k r ds)
    (he : g.entryAt? root = some (.named e)) : g.refMethods r = e.methods := by
  simp [refMethods, h.named?_eq he]

theorem refMethods_congr {g : TypeGraph} {x y : RefId} (h : g.namedRoot x = g.namedRoot y) :
    g.refMethods x = g.refMethods y := by
  simp [refMethods, named?, h]

/-- Names that were one stay one, their methods stay, and what is new among the methods was
registered meanwhile through a reference of the name. -/
structure Gathers (g g' : TypeGraph) (added : List (RefId × TypeId)) : Prop where
  hasRef : ∀ x, g.HasRef x → g'.HasRef x
  together : ∀ x y, g.HasRef x → g.HasRef y → g.namedRoot x = g.namedRoot y →
    g'.namedRoot x = g'.namedRoot y
  names : KeepsNames g g'
  kept : ∀ x n, g.HasRef x → (g.refMethods x).contains n = true →
    (g'.refMethods x).contains n = true
  origin : ∀ x n m, g'.HasRef x → (n, m) ∈ (g'.refMethods x).entries →
    (∃ y, g.HasRef y ∧ g'.namedRoot y = g'.namedRoot x ∧ (n, m) ∈ (g.refMethods y).entries) ∨
      ∃ y, (y, m) ∈ added ∧ g'.namedRoot y = g'.namedRoot x
  registered : ∀ y m, (y, m) ∈ added → g'.HasRef y ∧
    ∃ data, g'.typeAt? m = some data ∧ (g'.refMethods y).contains data.name = true

namespace Gathers

variable {g h i : TypeGraph} {added added' : List (RefId × TypeId)}

theorem trans (hgh : Gathers g h added) (hhi : Gathers h i added') :
    Gathers g i (added ++ added') where
  hasRef x hx := hhi.hasRef x (hgh.hasRef x hx)
  together x y hx hy hxy :=
    hhi.together x y (hgh.hasRef x hx) (hgh.hasRef y hy) (hgh.together x y hx hy hxy)
  names ty data hd := by
    obtain ⟨data', hd', hn⟩ := hgh.names ty data hd
    obtain ⟨data'', hd'', hn'⟩ := hhi.names ty data' hd'
    exact ⟨data'', hd'', hn'.trans hn⟩
  kept x n hx hn := hhi.kept x n (hgh.hasRef x hx) (hgh.kept x n hx hn)
  origin x n m hx hm := by
    rcases hhi.origin x n m hx hm with ⟨y, hy, hroot, hm⟩ | ⟨y, hy, hroot⟩
    · rcases hgh.origin y n m hy hm with ⟨z, hz, hzy, hm⟩ | ⟨z, hz, hzy⟩
      · exact .inl ⟨z, hz, (hhi.together z y (hgh.hasRef z hz) hy hzy).trans hroot, hm⟩
      · have hz' := (hgh.registered z m hz).1
        exact .inr ⟨z, List.mem_append_left _ hz, (hhi.together z y hz' hy hzy).trans hroot⟩
    · exact .inr ⟨y, List.mem_append_right _ hy, hroot⟩
  registered y m hm := by
    rcases List.mem_append.mp hm with hm | hm
    · obtain ⟨hy, data, hd, hc⟩ := hgh.registered y m hm
      obtain ⟨data', hd', hn⟩ := hhi.names m data hd
      exact ⟨hhi.hasRef y hy, data', hd', hn ▸ hhi.kept y _ hy hc⟩
    · exact hhi.registered y m hm

/-- Nothing was registered where every old reference keeps its name with all methods, and
every new one is a name without methods or leads to an old one. -/
theorem of_same (hn : KeepsNames g h) (hrefs : ∀ x, g.HasRef x → h.HasRef x)
    (hsame : ∀ x, g.HasRef x → h.namedRoot x = g.namedRoot x ∧ h.refMethods x = g.refMethods x)
    (hnew : ∀ x, h.HasRef x → ¬g.HasRef x → (h.refMethods x).entries = [] ∨
      ∃ y, g.HasRef y ∧ h.namedRoot y = h.namedRoot x) : Gathers g h [] where
  hasRef := hrefs
  together x y hx hy hxy := by rw [(hsame x hx).1, (hsame y hy).1, hxy]
  names := hn
  kept x n hx hc := by rwa [(hsame x hx).2]
  origin x n m hx hm := by
    by_cases hold : g.HasRef x
    · exact .inl ⟨x, hold, rfl, (hsame x hold).2 ▸ hm⟩
    · rcases hnew x hx hold with hempty | ⟨y, hy, hroot⟩
      · rw [hempty] at hm
        cases hm
      · rw [← refMethods_congr hroot, (hsame y hy).2] at hm
        exact .inl ⟨y, hy, hroot, hm⟩
  registered _ _ hm := by cases hm

end Gathers

section Steps

variable {g : TypeGraph}

theorem gathers_of_edges {g' : TypeGraph} (hg : g.Grounded) (hk : KeepsEdges g g')
    (hc : g'.refCount = g.refCount) (hn : KeepsNames g g')
    (hm : ∀ r e e', g.entryAt? r = some (.named e) → g'.entryAt? r = some (.named e') →
      e'.methods = e.methods) : Gathers g g' [] := by
  have hrefs : ∀ x, g'.HasRef x ↔ g.HasRef x := fun x => by
    unfold HasRef
    rw [hc]
  refine .of_same hn (fun x hx => (hrefs x).mpr hx) ?_ fun x hx hnot =>
    absurd ((hrefs x).mp hx) hnot
  intro x hx
  obtain ⟨root, k, ds, hp⟩ := hg x hx
  obtain ⟨e, he⟩ := hp.root_named
  obtain ⟨e', he'⟩ := hk.names root e he
  have hp' := hp.kept hk
  refine ⟨hp'.namedRoot_eq.trans hp.namedRoot_eq.symm, ?_⟩
  rw [hp'.refMethods_eq he', hp.refMethods_eq he, hm root e e' he he']

theorem gathers_addRef (hg : g.Grounded) {e : RefEntry}
    (he : ∀ s, e.inner? = some s → g.HasRef s)
    (hm : ∀ entry, e = .named entry → entry.methods = {}) : Gathers g (g.addRef e).2 [] := by
  have hk := keepsEdges_addRef g e
  have hself := entryAt?_addRef_self g e
  refine .of_same (.of_types_eq rfl) (fun x hx => ?_) (fun x hx => ?_) fun x hx hnot => ?_
  · exact Nat.lt_of_lt_of_eq (Nat.lt_succ_of_lt hx) (refCount_addRef g e).symm
  · obtain ⟨root, k, ds, hp⟩ := hg x hx
    obtain ⟨entry, hroot⟩ := hp.root_named
    have hroot' := (entryAt?_addRef_of_lt (hasRef_of_entryAt? hroot) e).trans hroot
    have hp' := hp.kept hk
    exact ⟨hp'.namedRoot_eq.trans hp.namedRoot_eq.symm,
      (hp'.refMethods_eq hroot').trans (hp.refMethods_eq hroot).symm⟩
  · obtain rfl := hx.addRef_cases.resolve_left hnot
    cases e with
    | named entry =>
      refine .inl ?_
      rw [(Path.named hself).refMethods_eq hself, hm entry rfl]
    | decorated d inner =>
      obtain ⟨root, k, ds, hp⟩ := hg inner (he inner rfl)
      have hp' := hp.kept hk
      have hroot := (Path.decorated hself hp').namedRoot_eq
      exact .inr ⟨inner, he inner rfl, by rw [hp'.namedRoot_eq, hroot]⟩
    | aliasOf target =>
      obtain ⟨root, k, ds, hp⟩ := hg target (he target rfl)
      have hp' := hp.kept hk
      have hroot := (Path.aliased hself hp').namedRoot_eq
      exact .inr ⟨target, he target rfl, by rw [hp'.namedRoot_eq, hroot]⟩

theorem gathers_types {g' : TypeGraph} (hg : g.Grounded) (hr : g'.refs = g.refs)
    (hn : KeepsNames g g') : Gathers g g' [] := by
  refine gathers_of_edges hg (.of_refs_eq hr) (congrArg Array.size hr) hn fun r e e' he he' => ?_
  unfold entryAt? at he he'
  rw [hr, he] at he'
  obtain rfl : e = e' := by simpa using he'
  rfl

theorem gathers_bind (hg : g.Grounded) (r : RefId) (ty : TypeId) :
    Gathers g (g.bind r ty).2 [] := by
  refine gathers_of_edges hg (keepsEdges_bind g r ty) (refCount_bind g r ty) ?_ ?_
  · refine keepsNames_modifyType (g.modifyNamed _ _) ty fun data => ?_
    split <;> rfl
  · intro x e e' he he'
    change (g.modifyNamed _ _).entryAt? x = _ at he'
    obtain ⟨e₀, he₀, heq⟩ := entryAt?_modifyNamed_cases he'
    obtain rfl : e = e₀ := by simpa [he] using he₀
    rcases heq with rfl | ⟨-, rfl⟩ <;> rfl

theorem gathers_addMethod (hg : g.Grounded) {r : RefId} {method : TypeId} (hr : g.HasRef r)
    (hm : g.HasType method) : Gathers g (g.addMethod r method).2 [(r, method)] := by
  obtain ⟨data, hd⟩ := hm.data
  have hroots : ∀ x, (g.addMethod r method).2.namedRoot x = g.namedRoot x :=
    fun x => namedRoot_addMethod g r x method
  have hmethods : ∀ x, g.HasRef x → (g.addMethod r method).2.refMethods x =
      if g.namedRoot x = g.namedRoot r then (g.refMethods x).insert data.name method
      else g.refMethods x := by
    intro x hx
    obtain ⟨root, k, ds, hp⟩ := hg x hx
    obtain ⟨e, he⟩ := hp.root_named
    have hp' := hp.kept (keepsEdges_addMethod g r method)
    have he' : (g.addMethod r method).2.entryAt? root = some (.named
        (if g.namedRoot r = root then
          { e with methods := e.methods.insert data.name method } else e)) := by
      simp only [addMethod, hd, entryAt?_modifyNamed, he]
    rw [hp'.refMethods_eq he', hp.refMethods_eq he, hp.namedRoot_eq]
    by_cases hroot : g.namedRoot r = root
    · rw [if_pos hroot, if_pos hroot.symm]
    · rw [if_neg hroot, if_neg fun h => hroot h.symm]
  have hrefs : ∀ x, (g.addMethod r method).2.HasRef x ↔ g.HasRef x := fun x => by
    unfold HasRef
    rw [refCount_addMethod]
  constructor
  case hasRef => exact fun x hx => (hrefs x).mpr hx
  case together =>
    intro x y _ _ hxy
    rw [hroots, hroots, hxy]
  case names => exact .of_types_eq (types_addMethod g r method)
  case kept =>
    intro x n hx hc
    rw [hmethods x hx]
    split
    · exact (OrderedMap.contains_insert _ _ _ _).mpr (.inr hc)
    · exact hc
  case origin =>
    intro x n m hx hmem
    have hx' := (hrefs x).mp hx
    rw [hmethods x hx'] at hmem
    split at hmem
    next hroot =>
      rcases OrderedMap.mem_entries_insert hmem with hmem | ⟨-, rfl⟩
      · exact .inl ⟨x, hx', rfl, hmem⟩
      · exact .inr ⟨r, List.mem_cons_self, by rw [hroots, hroots, hroot]⟩
    · exact .inl ⟨x, hx', rfl, hmem⟩
  case registered =>
    intro y m hmem
    obtain ⟨rfl, rfl⟩ := Prod.mk.inj (List.mem_singleton.mp hmem)
    refine ⟨(hrefs y).mpr hr, data, by simpa [typeAt?] using hd, ?_⟩
    rw [hmethods y hr, if_pos rfl]
    exact (OrderedMap.contains_insert _ _ _ _).mpr (.inl rfl)

theorem gathers_aliasTo (hg : g.Grounded) (hn : g.MethodsNamed) {r target : RefId}
    (hr : g.HasRef r) (ht : g.HasRef target) {g' : TypeGraph}
    (h : g.aliasTo? r target = some g') : Gathers g g' [] := by
  obtain ⟨root, k, ds, hp⟩ := hg r hr
  obtain ⟨other, j, es, hpt⟩ := hg target ht
  have hne : other ≠ root := by
    rintro rfl
    simp [aliasTo?_eq, hp.namedRoot_eq, hpt.namedRoot_eq] at h
  obtain rfl := Option.some.inj ((aliasTo?_eq_merge hn hp hpt hne).symm.trans h)
  have heffect := merge_effect hg hp hpt hne
  have htarget : (g.merge r target).namedRoot target = g.namedRoot target :=
    (heffect.kept target ht (by rwa [hp.namedRoot_eq, hpt.namedRoot_eq])).1
  have hrefs : ∀ x, (g.merge r target).HasRef x ↔ g.HasRef x := fun x => by
    unfold HasRef
    simp [merge]
  -- the name behind `x` was lost, was the target's, or had nothing to do with the alias
  have hcases : ∀ x, g.HasRef x →
      (g.namedRoot x = g.namedRoot r ∨ g.namedRoot x = g.namedRoot target) ∧
        (g.merge r target).namedRoot x = (g.merge r target).namedRoot target ∨
      (g.merge r target).namedRoot x = g.namedRoot x ∧
        (g.merge r target).refMethods x = g.refMethods x := by
    intro x hx
    by_cases hxr : g.namedRoot x = g.namedRoot r
    · exact .inl ⟨.inl hxr, (heffect.moved x hx hxr).1.trans htarget.symm⟩
    · have hkept := (heffect.kept x hx hxr).1
      by_cases hxt : g.namedRoot x = g.namedRoot target
      · exact .inl ⟨.inr hxt, by rw [hkept, htarget, hxt]⟩
      · exact .inr ⟨hkept, heffect.methods_kept x hx hxr hxt⟩
  constructor
  case hasRef => exact fun x hx => (hrefs x).mpr hx
  case together =>
    intro x y hx hy hxy
    by_cases hxr : g.namedRoot x = g.namedRoot r
    · rw [(heffect.moved x hx hxr).1, (heffect.moved y hy (hxy ▸ hxr)).1]
    · rw [(heffect.kept x hx hxr).1, (heffect.kept y hy (hxy ▸ hxr)).1, hxy]
  case names => exact .of_types_eq heffect.types_kept
  case kept =>
    intro x n hx hc
    rcases hcases x hx with ⟨hold, hroot⟩ | ⟨-, hsame⟩
    · rw [refMethods_congr hroot, heffect.methods_moved, OrderedMap.contains_insertAll]
      rcases hold with hold | hold
      · exact .inr (OrderedMap.mem_of_contains (refMethods_congr hold ▸ hc))
      · exact .inl (refMethods_congr hold ▸ hc)
    · rwa [hsame]
  case origin =>
    intro x n m hx hmem
    have hx' := (hrefs x).mp hx
    rcases hcases x hx' with ⟨-, hroot⟩ | ⟨-, hsame⟩
    · rw [refMethods_congr hroot, heffect.methods_moved] at hmem
      rcases OrderedMap.mem_entries_insertAll hmem with hmem | hmem
      · exact .inl ⟨target, ht, hroot.symm, hmem⟩
      · exact .inl ⟨r, hr, ((heffect.moved r hr rfl).1.trans htarget.symm).trans hroot.symm, hmem⟩
    · exact .inl ⟨x, hx', rfl, hsame ▸ hmem⟩
  case registered =>
    intro _ _ hmem
    cases hmem

end Steps

def Operation.registers : Operation → List (RefId × TypeId)
  | .addMethod r method => [(r, method)]
  | .placeholder _ _ | .fresh _ _ _ | .decorate _ _ | .mapOf _ _ _ | .addType _ | .bind _ _
  | .aliasTo _ _ | .editStruct _ _ | .editInterface _ _ => []

theorem gathers_next {g : TypeGraph} (h : Reachable g) {op : Operation} (he : g.Enabled op) :
    Gathers g (g.next op) op.registers := by
  have hg := reachable_grounded h
  cases op with
  | placeholder package name =>
    exact gathers_addRef hg (fun s hs => by cases hs) fun e hn => by cases hn; rfl
  | fresh package name ty =>
    exact gathers_addRef hg (fun s hs => by cases hs) fun e hn => by cases hn; rfl
  | decorate d inner =>
    refine gathers_addRef hg (fun s hs => ?_) fun e hn => by cases hn
    obtain rfl : inner = s := by simpa [RefEntry.inner?] using hs
    exact he
  | mapOf package key value =>
    have hadd : ∀ data, Gathers g (g.addType data).2 [] := fun data =>
      gathers_types hg rfl (keepsNames_addType g data)
    have hg' : ∀ data, (g.addType data).2.Grounded := fun _ => hg.kept (.of_refs_eq rfl) rfl
    exact (hadd _).trans (gathers_addRef (hg' _) (fun s hs => by cases hs)
      fun e hn => by cases hn; rfl)
  | addType data => exact gathers_types hg rfl (keepsNames_addType g data)
  | bind r ty => exact gathers_bind hg r ty
  | addMethod r m => exact gathers_addMethod hg he.1 he.2
  | aliasTo r target =>
    cases ha : g.aliasTo? r target with
    | none =>
      rw [next, ha]
      exact gathers_types hg rfl (.of_types_eq rfl)
    | some g' =>
      rw [next, ha]
      exact gathers_aliasTo hg (reachable_methodsNamed h) he.1 he.2 ha
  | editStruct ty f =>
    refine gathers_types hg rfl (keepsNames_modifyType g ty fun data => ?_)
    split <;> rfl
  | editInterface ty f =>
    refine gathers_types hg rfl (keepsNames_modifyType g ty fun data => ?_)
    split <;> rfl

/-- All methods that were registered, each with the reference it was registered through, are
with their names, and no others. -/
structure Attached (g : TypeGraph) (log : List (RefId × TypeId)) : Prop where
  found : ∀ y m, (y, m) ∈ log → g.HasRef y ∧
    ∃ data, g.typeAt? m = some data ∧ (g.refMethods y).contains data.name = true
  origin : ∀ x n m, g.HasRef x → (n, m) ∈ (g.refMethods x).entries →
    ∃ y, (y, m) ∈ log ∧ g.namedRoot y = g.namedRoot x

theorem Attached.gathers {g g' : TypeGraph} {log added : List (RefId × TypeId)}
    (h : Attached g log) (hs : Gathers g g' added) : Attached g' (log ++ added) where
  found y m hm := by
    rcases List.mem_append.mp hm with hm | hm
    · obtain ⟨hy, data, hd, hc⟩ := h.found y m hm
      obtain ⟨data', hd', hn⟩ := hs.names m data hd
      exact ⟨hs.hasRef y hy, data', hd', hn ▸ hs.kept y _ hy hc⟩
    · exact hs.registered y m hm
  origin x n m hx hm := by
    rcases hs.origin x n m hx hm with ⟨y, hy, hroot, hm⟩ | ⟨y, hy, hroot⟩
    · obtain ⟨z, hz, hzy⟩ := h.origin y n m hy hm
      have hz' := (h.found z m hz).1
      exact ⟨z, List.mem_append_left _ hz, (hs.together z y hz' hy hzy).trans hroot⟩
    · exact ⟨y, List.mem_append_right _ hy, hroot⟩

theorem attached_run {g : TypeGraph} (hg : Reachable g) {log : List (RefId × TypeId)}
    (h : Attached g log) {ops : List Operation} (hv : g.ValidRun ops) :
    Attached (g.run ops) (log ++ ops.flatMap Operation.registers) := by
  induction ops generalizing g log with
  | nil =>
    rw [List.flatMap_nil, List.append_nil]
    exact h
  | cons op rest ih =>
    have hrest := ih (hg.next op hv.1) (h.gathers (gathers_next hg hv.1)) hv.2
    rwa [List.append_assoc] at hrest

theorem attached_new : Attached new [] where
  found y m hm := by cases hm
  origin x n m hx hm := by
    obtain rfl : x = ⟨0⟩ := by
      cases x
      exact congrArg RefId.mk (Nat.lt_one_iff.mp hx)
    cases hm

theorem mem_registers {ops : List Operation} {y : RefId} {m : TypeId} :
    (y, m) ∈ ops.flatMap Operation.registers ↔ .addMethod y m ∈ ops := by
  rw [List.mem_flatMap]
  constructor
  · rintro ⟨op, hop, hm⟩
    cases op with
    | addMethod r method =>
      obtain ⟨rfl, rfl⟩ := Prod.mk.inj (List.mem_singleton.mp hm)
      exact hop
    | placeholder | fresh | decorate | mapOf | addType | bind | aliasTo | editStruct
    | editInterface => cases hm
  · intro hop
    exact ⟨_, hop, List.mem_singleton_self _⟩

def Operation.binds (ty : TypeId) (last : Option RefId) : Operation → Option RefId
  | .bind r t => if t = ty then some r else last
  | .placeholder _ _ | .fresh _ _ _ | .decorate _ _ | .mapOf _ _ _ | .addType _
  | .addMethod _ _ | .aliasTo _ _ | .editStruct _ _ | .editInterface _ _ => last

def lastBinding? (ty : TypeId) (ops : List Operation) : Option RefId :=
  ops.foldl (Operation.binds ty) none

/-- The owner of a defined type, once it has one, is of the same name as `r`. -/
structure OwnedBy (g : TypeGraph) (ty : TypeId) (r : RefId) : Prop where
  hasType : g.HasType ty
  hasRef : g.HasRef r
  owner : ∀ data, g.typeAt? ty = some data → data.kind.isDefined = true →
    ∃ s, data.declaredBy = some s ∧ g.HasRef s ∧ g.namedRoot s = g.namedRoot r

theorem typeAt?_next {g : TypeGraph} {op : Operation} {ty : TypeId} (ht : g.HasType ty)
    (hop : ∀ r, op ≠ .bind r ty) {data : TypeData} (hd : (g.next op).typeAt? ty = some data) :
    ∃ old, g.typeAt? ty = some old ∧ data.declaredBy = old.declaredBy ∧
      data.kind.isDefined = old.kind.isDefined := by
  have hedit : ∀ (t : TypeId) (f : TypeData → TypeData),
      (∀ d, (f d).declaredBy = d.declaredBy ∧ (f d).kind.isDefined = d.kind.isDefined) →
      (g.modifyType t f).typeAt? ty = some data →
      ∃ old, g.typeAt? ty = some old ∧ data.declaredBy = old.declaredBy ∧
        data.kind.isDefined = old.kind.isDefined := by
    intro t f hf h
    rw [typeAt?_modifyType] at h
    obtain ⟨old, hold, rfl⟩ := Option.map_eq_some_iff.mp h
    refine ⟨old, hold, ?_⟩
    split
    · exact hf old
    · exact ⟨rfl, rfl⟩
  cases op with
  | placeholder | fresh | decorate => exact ⟨data, hd, rfl, rfl⟩
  | mapOf package key value =>
    exact ⟨data, (typeAt?_addType_of_lt ht _).symm.trans hd, rfl, rfl⟩
  | addType d => exact ⟨data, (typeAt?_addType_of_lt ht d).symm.trans hd, rfl, rfl⟩
  | bind r t =>
    have hne : t ≠ ty := fun h => hop r (h ▸ rfl)
    exact ⟨data, (typeAt?_bind_of_ne hne r).symm.trans hd, rfl, rfl⟩
  | addMethod r m =>
    refine ⟨data, ?_, rfl, rfl⟩
    rwa [next, typeAt?, types_addMethod] at hd
  | aliasTo r target =>
    refine ⟨data, ?_, rfl, rfl⟩
    simp only [next, aliasTo?_eq] at hd
    split at hd
    · exact hd
    · rwa [Option.getD_some, typeAt?, types_addMethods] at hd
  | editStruct t f =>
    refine hedit t _ (fun d => ?_) hd
    split
    next h => simp [h, TypeKind.isDefined]
    next => exact ⟨rfl, rfl⟩
  | editInterface t f =>
    refine hedit t _ (fun d => ?_) hd
    split
    next h => simp [h, TypeKind.isDefined]
    next => exact ⟨rfl, rfl⟩

theorem OwnedBy.next {g : TypeGraph} (hr : Reachable g) {op : Operation} (he : g.Enabled op)
    {ty : TypeId} {r : RefId} (h : OwnedBy g ty r) (hop : ∀ s, op ≠ .bind s ty) :
    OwnedBy (g.next op) ty r := by
  have hs := gathers_next hr he
  obtain ⟨old, hold⟩ := h.hasType.data
  obtain ⟨_, hnew, -⟩ := hs.names ty old hold
  refine ⟨hasType_of_typeAt? hnew, hs.hasRef r h.hasRef, fun data hd hk => ?_⟩
  obtain ⟨before, hb, howner, hkind⟩ := typeAt?_next h.hasType hop hd
  obtain ⟨s, hs', hsr, hroot⟩ := h.owner before hb (hkind ▸ hk)
  exact ⟨s, howner.trans hs', hs.hasRef s hsr, hs.together s r hsr h.hasRef hroot⟩

theorem ownedBy_bind {g : TypeGraph} (hg : g.Grounded) {r : RefId} {ty : TypeId}
    (hr : g.HasRef r) (ht : g.HasType ty) : OwnedBy (g.bind r ty).2 ty r := by
  have hrefs : ∀ x, g.HasRef x → (g.bind r ty).2.HasRef x := fun x hx =>
    Nat.lt_of_lt_of_eq hx (refCount_bind g r ty).symm
  obtain ⟨before, hb⟩ := ht.data
  have hnew := typeAt?_bind_self hb r
  refine ⟨hasType_of_typeAt? hnew, hrefs r hr, fun data hd hk => ?_⟩
  obtain rfl := Option.some.inj (hnew.symm.trans hd)
  have hdefined : before.kind.isDefined = true := by
    split at hk
    next h => exact h
    next => exact hk
  obtain ⟨e, he⟩ := hg.root_named hr
  refine ⟨g.namedRoot r, by rw [if_pos hdefined], hrefs _ (hasRef_of_entryAt? he), ?_⟩
  rw [namedRoot_bind, namedRoot_bind, namedRoot_of_named he]

/-- Whatever follows, the owner of a bound type is of the name it was last bound through. -/
theorem ownedBy_run {g : TypeGraph} (hg : Reachable g) {ops : List Operation}
    (hv : g.ValidRun ops) {ty : TypeId} {last : Option RefId}
    (h : ∀ r, last = some r → OwnedBy g ty r) {r : RefId}
    (hl : ops.foldl (Operation.binds ty) last = some r) : OwnedBy (g.run ops) ty r := by
  induction ops generalizing g last with
  | nil => exact h r hl
  | cons op rest ih =>
    refine ih (hg.next op hv.1) hv.2 (fun s hs => ?_) hl
    by_cases hop : ∃ x, op = .bind x ty
    · obtain ⟨x, rfl⟩ := hop
      obtain rfl : x = s := by simpa [Operation.binds] using hs
      exact ownedBy_bind (reachable_grounded hg) hv.1.1 hv.1.2
    · have hlast : Operation.binds ty last op = last := by
        cases op with
        | bind x t =>
          refine if_neg ?_
          rintro rfl
          exact hop ⟨x, rfl⟩
        | placeholder | fresh | decorate | mapOf | addType | addMethod | aliasTo | editStruct
        | editInterface => rfl
      exact (h s (hlast ▸ hs)).next hg hv.1 fun x hx => hop ⟨x, hx⟩

theorem OwnedBy.methodsOf?_eq {g : TypeGraph} {ty : TypeId} {r : RefId} (h : OwnedBy g ty r)
    {data : TypeData} (hd : g.typeAt? ty = some data) (hk : data.kind.isDefined = true) :
    g.methodsOf? ty = some (g.refMethods r) := by
  obtain ⟨s, hs, -, hroot⟩ := h.owner data hd hk
  rw [← refMethods_congr hroot, methodsOf?, hd, Option.bind_some]
  split
  next hkind => rw [hkind] at hk; cases hk
  next => rw [hs]; rfl
  next => rw [hs]; rfl
  next hkind => rw [hkind] at hk; cases hk
  next hkind => rw [hkind] at hk; cases hk

/-- After any run, a name has a method if and only if one of that name was registered through
a reference that is of the same name now, and a defined type has the methods of the reference
that it was last bound through. -/
theorem no_method_is_lost {ops : List Operation} (hv : ValidRun .new ops) :
    (∀ x n, (run .new ops).HasRef x → (((run .new ops).refMethods x).contains n = true ↔
      ∃ y m, .addMethod y m ∈ ops ∧
        (run .new ops).namedRoot y = (run .new ops).namedRoot x ∧
        ((run .new ops).typeAt? m).map TypeData.name = some n)) ∧
    ∀ ty r data, lastBinding? ty ops = some r → (run .new ops).typeAt? ty = some data →
      data.kind.isDefined = true →
      (run .new ops).methodsOf? ty = some ((run .new ops).refMethods r) := by
  have hattached : Attached (run .new ops) (ops.flatMap Operation.registers) :=
    attached_run .new attached_new hv
  constructor
  · intro x n hx
    constructor
    · intro hc
      obtain ⟨m, hm⟩ := OrderedMap.mem_of_contains hc
      obtain ⟨y, hy, hroot⟩ := hattached.origin x n m hx hm
      obtain ⟨e, he⟩ := (reachable_grounded (Reachable.new.run hv)).root_named hx
      have hmem : (n, m) ∈ e.methods.entries := by
        rwa [refMethods, named?, he] at hm
      obtain ⟨data, hd, hn⟩ := reachable_methodsNamed (Reachable.new.run hv) _ e he n m hmem
      exact ⟨y, m, mem_registers.mp hy, hroot, by rw [hd, ← hn]; rfl⟩
    · rintro ⟨y, m, hop, hroot, hn⟩
      obtain ⟨-, data, hd, hc⟩ := hattached.found y m (mem_registers.mpr hop)
      obtain rfl : data.name = n := by simpa [hd] using hn
      rwa [← refMethods_congr hroot]
  · intro ty r data hl hd hk
    exact (ownedBy_run .new hv (fun _ h => by cases h) hl).methodsOf?_eq hd hk

/-- A method that came through a pointer, before its name was bound and became an alias. -/
def attachedEarly : List Operation :=
  [.placeholder none "A", .placeholder none "B", .decorate .pointer ⟨1⟩,
    .addType { name := "M", package := none, kind := .method {} },
    .addMethod ⟨3⟩ ⟨1⟩,
    .addType { name := "A", package := none, kind := .struct {} },
    .bind ⟨1⟩ ⟨2⟩, .aliasTo ⟨1⟩ ⟨2⟩]

theorem attachedEarly_not_lost :
    ValidRun .new attachedEarly ∧ ((run .new attachedEarly).refMethods ⟨2⟩).contains "M" = true ∧
    lastBinding? ⟨2⟩ attachedEarly = some ⟨1⟩ ∧
    (run .new attachedEarly).methodsOf? ⟨2⟩ = some ((run .new attachedEarly).refMethods ⟨1⟩) := by
  have hvalid : ValidRun .new attachedEarly := by decide
  have h := no_method_is_lost hvalid
  refine ⟨hvalid, ?_, rfl, h.2 ⟨2⟩ ⟨1⟩ _ rfl rfl rfl⟩
  exact (h.1 ⟨2⟩ "M" (by decide)).mpr ⟨⟨3⟩, ⟨1⟩, by simp [attachedEarly], by decide, by decide⟩

end TypeGraph

end GoPackages
