import GoPackages.Proofs.TypeGraph.MethodNames

/-!
# The effect of an alias

One entry is overwritten in place, and with it the view of every reference that led to it
changes: its path goes on along the path of the target. Everything else stays.
-/
namespace GoPackages.TypeGraph

theorem ext_entries {g g' : TypeGraph} (hr : ∀ r, g.entryAt? r = g'.entryAt? r)
    (ht : g.types = g'.types) : g = g' := by
  have hrefs : g.refs = g'.refs := Array.ext_getElem? fun i => hr ⟨i⟩
  cases g
  cases g'
  simp_all

theorem entryAt?_modifyNamed (g : TypeGraph) (r s : RefId) (f : NamedRef → NamedRef) :
    (g.modifyNamed r f).entryAt? s =
      match g.entryAt? s with
      | some (.named e) => some (.named (if r = s then f e else e))
      | other => other := by
  by_cases h : r = s
  · subst h
    cases he : g.entryAt? r with
    | none =>
      unfold entryAt? at he
      simp [modifyNamed, entryAt?, Array.getElem?_modify, he]
    | some e =>
      cases e with
      | named e => simpa using entryAt?_modifyNamed_of_named he f
      | decorated d inner => exact (keepsEdges_modifyNamed g r f).decorators r d inner he
      | aliasOf target => exact (keepsEdges_modifyNamed g r f).aliases r target he
  · rw [entryAt?_modifyNamed_of_ne h]
    split <;> simp_all

theorem modifyNamed_id (g : TypeGraph) (r : RefId) : g.modifyNamed r (fun e => e) = g := by
  refine ext_entries (fun s => ?_) rfl
  rw [entryAt?_modifyNamed]
  split <;> simp_all

theorem modifyNamed_modifyNamed (g : TypeGraph) (r : RefId) (f f' : NamedRef → NamedRef) :
    (g.modifyNamed r f).modifyNamed r f' = g.modifyNamed r fun e => f' (f e) := by
  refine ext_entries (fun s => ?_) rfl
  simp only [entryAt?_modifyNamed]
  cases g.entryAt? s with
  | none => rfl
  | some e =>
    cases e with
    | named e => by_cases h : r = s <;> simp [h]
    | decorated | aliasOf => rfl

theorem addMethods_eq {g : TypeGraph} (r : RefId) {entries : List (String × TypeId)}
    (h : ∀ n m, (n, m) ∈ entries → ∃ data, g.typeAt? m = some data ∧ data.name = n) :
    g.addMethods r (entries.map Prod.snd) = g.modifyNamed (g.namedRoot r) fun e =>
      { e with methods := e.methods.insertAll entries } := by
  induction entries generalizing g with
  | nil => exact (modifyNamed_id g _).symm
  | cons head rest ih =>
    obtain ⟨n, m⟩ := head
    obtain ⟨data, hd, rfl⟩ := h n m List.mem_cons_self
    have hadd : (g.addMethod r m).2 = g.modifyNamed (g.namedRoot r) fun e =>
        { e with methods := e.methods.insert data.name m } := by
      simp [addMethod, hd]
    have hrest := ih (g := (g.addMethod r m).2) fun n' m' hm => by
      obtain ⟨d, hd', hn'⟩ := h n' m' (List.mem_cons_of_mem _ hm)
      exact ⟨d, by simpa [typeAt?] using hd', hn'⟩
    rw [namedRoot_addMethod, hadd, modifyNamed_modifyNamed] at hrest
    rw [← hadd] at hrest
    exact hrest

theorem Walk.unique {g : TypeGraph} {next? r s t} (h : Walk g next? r s)
    (h' : Walk g next? r t) : s = t := by
  induction h with
  | stop he hn =>
    cases h' with
    | stop => rfl
    | step he' hn' _ => simp_all
  | step he hn _ ih =>
    cases h' with
    | stop he' hn' => simp_all
    | step he' hn' hw =>
      obtain rfl := Option.some.inj (he.symm.trans he')
      obtain rfl := Option.some.inj (hn.symm.trans hn')
      exact ih hw

theorem Grounded.canonical_walk {g : TypeGraph} (hg : g.Grounded) {r} (hr : g.HasRef r) :
    Walk g RefEntry.aliasTarget? r (g.canonical r) := by
  obtain ⟨root, k, ds, hp⟩ := hg r hr
  rw [TypeGraph.canonical, hp.follow_refCount Path.alias_inner]
  exact hp.walk_follow Path.alias_inner

theorem Grounded.canonical_eq {g : TypeGraph} (hg : g.Grounded) {r c}
    (h : Walk g RefEntry.aliasTarget? r c) : g.canonical r = c := by
  have hr : g.HasRef r := by
    cases h with
    | stop he _ => exact hasRef_of_entryAt? he
    | step he _ _ => exact hasRef_of_entryAt? he
  exact (hg.canonical_walk hr).unique h

theorem Walk.kept {g g' : TypeGraph} {r t} (h : Walk g RefEntry.aliasTarget? r t)
    (hk : KeepsEdges g g') : Walk g' RefEntry.aliasTarget? r t := by
  induction h with
  | @stop r e he hn =>
    cases e with
    | named entry =>
      obtain ⟨e', he'⟩ := hk.names r entry he
      exact .stop he' rfl
    | decorated d inner => exact .stop (hk.decorators r d inner he) rfl
    | aliasOf target => simp [RefEntry.aliasTarget?] at hn
  | @step r s t e he hn _ ih =>
    cases e with
    | aliasOf target => exact .step (hk.aliases r target he) hn ih
    | named | decorated => simp [RefEntry.aliasTarget?] at hn

theorem Walk.redirect_of_ne {g : TypeGraph} {root r t}
    (h : Walk g RefEntry.aliasTarget? r t) {entry}
    (hroot : g.entryAt? root = some (.named entry)) (hne : t ≠ root) (target : RefId) :
    Walk (g.redirect root target) RefEntry.aliasTarget? r t := by
  induction h with
  | stop he hn => exact .stop ((entryAt?_redirect_of_ne hne.symm g target).trans he) hn
  | @step r s t e he hn _ ih =>
    have hr : root ≠ r := by
      rintro rfl
      obtain rfl := Option.some.inj (hroot.symm.trans he)
      simp [RefEntry.aliasTarget?] at hn
    exact .step ((entryAt?_redirect_of_ne hr g target).trans he) hn (ih hne)

theorem Walk.redirect_self {g : TypeGraph} {root r} (h : Walk g RefEntry.aliasTarget? r root)
    {entry} (hroot : g.entryAt? root = some (.named entry)) {target c}
    (ht : Walk (g.redirect root target) RefEntry.aliasTarget? target c) :
    Walk (g.redirect root target) RefEntry.aliasTarget? r c := by
  induction h with
  | stop he hn => exact .step (entryAt?_redirect_self (hasRef_of_entryAt? he) target) rfl ht
  | @step r s t e he hn _ ih =>
    have hr : t ≠ r := by
      rintro rfl
      obtain rfl := Option.some.inj (hroot.symm.trans he)
      simp [RefEntry.aliasTarget?] at hn
    exact .step ((entryAt?_redirect_of_ne hr g target).trans he) hn (ih hroot ht)

theorem Path.of_canonical {g : TypeGraph} {root k r ds c e} (h : Path g root k r ds)
    (hw : Walk g RefEntry.aliasTarget? r c) (hc : g.entryAt? c = some (.named e)) :
    root = c := by
  induction hw generalizing k ds with
  | stop _ _ => exact (h.unique (.named hc)).1
  | @step r s c e' he hn _ ih =>
    have hl : g.Leads r s := by rw [Leads, he]; exact Path.alias_inner _ _ hn
    obtain ⟨j, ds', _, hp⟩ := h.of_leads hl
    exact ih hp hc

theorem Path.named?_eq {g : TypeGraph} {root k r ds e} (h : Path g root k r ds)
    (he : g.entryAt? root = some (.named e)) : g.named? r = some e := by
  simp [named?, h.namedRoot_eq, he]

/-- What an alias of the name behind `r` does to all references, as a relation between the
graphs before and after. -/
structure AliasEffect (g : TypeGraph) (r target : RefId) (g' : TypeGraph) : Prop where
  moved : ∀ x, g.HasRef x → g.namedRoot x = g.namedRoot r →
    g'.namedRoot x = g.namedRoot target ∧
    g'.decorators x = g.decorators x ++ g.decorators target ∧
    g'.resolved? x = g.resolved? target ∧ g'.refName x = g.refName target ∧
    g'.refPackage x = g.refPackage target
  kept : ∀ x, g.HasRef x → g.namedRoot x ≠ g.namedRoot r →
    g'.namedRoot x = g.namedRoot x ∧ g'.decorators x = g.decorators x ∧
    g'.resolved? x = g.resolved? x ∧ g'.refName x = g.refName x ∧
    g'.refPackage x = g.refPackage x
  canonical : ∀ x, g.HasRef x → g'.canonical x =
    if g.canonical x = g.namedRoot r then g.canonical target else g.canonical x
  methods_moved : g'.refMethods target =
    (g.refMethods target).insertAll (g.refMethods r).entries
  methods_kept : ∀ x, g.HasRef x → g.namedRoot x ≠ g.namedRoot r →
    g.namedRoot x ≠ g.namedRoot target → g'.refMethods x = g.refMethods x
  redirected : g'.entryAt? (g.namedRoot r) = some (.aliasOf target)
  entries_kept : ∀ x, x ≠ g.namedRoot r → x ≠ g.namedRoot target →
    g'.entryAt? x = g.entryAt? x
  types_kept : g'.types = g.types

/-- The methods move in one go: their entries are inserted in the set of the target. -/
def merge (g : TypeGraph) (r target : RefId) : TypeGraph :=
  (g.redirect (g.namedRoot r) target).modifyNamed (g.namedRoot target) fun e =>
    { e with methods := e.methods.insertAll (g.refMethods r).entries }

section Merge

variable {g : TypeGraph} {r target root other : RefId} {k j : Nat} {ds es : List Decorator}

theorem aliasTo?_eq_merge (hm : g.MethodsNamed) (hp : Path g root k r ds)
    (ht : Path g other j target es) (hne : other ≠ root) :
    g.aliasTo? r target = some (g.merge r target) := by
  obtain ⟨e, he⟩ := hp.root_named
  have hroot : g.refMethods root = e.methods := by
    simp [refMethods, (Path.named he).named?_eq he]
  have hr : g.refMethods r = e.methods := by simp [refMethods, hp.named?_eq he]
  have hnames : ∀ n m, (n, m) ∈ e.methods.entries →
      ∃ data, (g.redirect root target).typeAt? m = some data ∧ data.name = n := hm root e he
  have hother : (g.redirect root target).namedRoot target = other :=
    (ht.redirect_of_ne he hne target).namedRoot_eq
  have hmove := addMethods_eq target hnames
  rw [hother] at hmove
  rw [aliasTo?_eq, merge, hp.namedRoot_eq, ht.namedRoot_eq, if_neg hne, hroot, hr]
  exact congrArg some hmove

theorem keepsEdges_merge (g : TypeGraph) (r target : RefId) :
    KeepsEdges (g.redirect (g.namedRoot r) target) (g.merge r target) :=
  keepsEdges_modifyNamed _ _ _

theorem entryAt?_merge_of_named (hp : Path g root k r ds) (ht : Path g other j target es)
    {x e} (he : g.entryAt? x = some (.named e)) (hx : x ≠ root) :
    (g.merge r target).entryAt? x = some (.named (if other = x then
      { e with methods := e.methods.insertAll (g.refMethods r).entries } else e)) := by
  rw [merge, entryAt?_modifyNamed, hp.namedRoot_eq, ht.namedRoot_eq,
    entryAt?_redirect_of_ne hx.symm, he]

theorem path_merge_of_ne (hp : Path g root k r ds) (target : RefId) {end' i x fs}
    (hx : Path g end' i x fs) (hend : end' ≠ root) : Path (g.merge r target) end' i x fs := by
  obtain ⟨e, he⟩ := hp.root_named
  have hk := keepsEdges_merge g r target
  rw [hp.namedRoot_eq] at hk
  exact (hx.redirect_of_ne he hend target).kept hk

theorem path_merge_self (hp : Path g root k r ds) (ht : Path g other j target es)
    (hne : other ≠ root) {i x fs} (hx : Path g root i x fs) :
    Path (g.merge r target) other (i + 1 + j) x (fs ++ es) := by
  have hk := keepsEdges_merge g r target
  rw [hp.namedRoot_eq] at hk
  exact (hx.redirect_self ht hne).kept hk

theorem grounded_merge (hg : g.Grounded) (hp : Path g root k r ds)
    (ht : Path g other j target es) (hne : other ≠ root) : (g.merge r target).Grounded := by
  obtain ⟨e, he⟩ := hp.root_named
  have hr := hg.redirect he ht.hasRef (by rwa [ht.namedRoot_eq])
  rw [← hp.namedRoot_eq] at hr
  exact hr.kept (keepsEdges_merge g r target) (by simp [merge])

theorem canonical_merge (hg : g.Grounded) (hp : Path g root k r ds)
    (ht : Path g other j target es) (hne : other ≠ root) {x} (hx : g.HasRef x) :
    (g.merge r target).canonical x =
      if g.canonical x = root then g.canonical target else g.canonical x := by
  obtain ⟨e, he⟩ := hp.root_named
  have hgm := grounded_merge hg hp ht hne
  have hk := keepsEdges_merge g r target
  rw [hp.namedRoot_eq] at hk
  have hw := hg.canonical_walk hx
  have hwt := hg.canonical_walk ht.hasRef
  -- were the target canonically the lost name, the two names would be one
  have hct : g.canonical target ≠ root := by
    intro hc
    rw [hc] at hwt
    exact hne (ht.of_canonical hwt he)
  split
  next hc =>
    rw [hc] at hw
    exact hgm.canonical_eq ((hw.redirect_self he (hwt.redirect_of_ne he hct target)).kept hk)
  next hc => exact hgm.canonical_eq ((hw.redirect_of_ne he hc target).kept hk)

theorem merge_effect (hg : g.Grounded) (hp : Path g root k r ds)
    (ht : Path g other j target es) (hne : other ≠ root) :
    AliasEffect g r target (g.merge r target) := by
  obtain ⟨e, he⟩ := hp.root_named
  obtain ⟨et, het⟩ := ht.root_named
  have hother := entryAt?_merge_of_named hp ht het hne
  rw [if_pos rfl] at hother
  have htm := path_merge_of_ne hp target ht hne
  constructor
  case moved =>
    intro x hx hroot
    obtain ⟨end', i, fs, hpx⟩ := hg x hx
    obtain rfl : end' = root := by rw [← hpx.namedRoot_eq, hroot, hp.namedRoot_eq]
    have hm := path_merge_self hp ht hne hpx
    refine ⟨?_, ?_, ?_, ?_, ?_⟩
    · rw [hm.namedRoot_eq, ht.namedRoot_eq]
    · rw [hm.decorators_eq, hpx.decorators_eq, ht.decorators_eq]
    · simp [resolved?, hm.named?_eq hother, ht.named?_eq het]
    · simp [refName, hm.named?_eq hother, ht.named?_eq het]
    · simp [refPackage, hm.named?_eq hother, ht.named?_eq het]
  case kept =>
    intro x hx hroot
    obtain ⟨end', i, fs, hpx⟩ := hg x hx
    rw [hpx.namedRoot_eq, hp.namedRoot_eq] at hroot
    obtain ⟨ex, hex⟩ := hpx.root_named
    have hm := path_merge_of_ne hp target hpx hroot
    have hem := entryAt?_merge_of_named hp ht hex hroot
    refine ⟨?_, ?_, ?_, ?_, ?_⟩
    · rw [hm.namedRoot_eq, hpx.namedRoot_eq]
    · rw [hm.decorators_eq, hpx.decorators_eq]
    · simp only [resolved?, hm.named?_eq hem, hpx.named?_eq hex]; split <;> rfl
    · simp only [refName, hm.named?_eq hem, hpx.named?_eq hex]; split <;> rfl
    · simp only [refPackage, hm.named?_eq hem, hpx.named?_eq hex]; split <;> rfl
  case canonical =>
    intro x hx
    rw [hp.namedRoot_eq]
    exact canonical_merge hg hp ht hne hx
  case methods_moved => simp [refMethods, htm.named?_eq hother, ht.named?_eq het]
  case methods_kept =>
    intro x hx hroot htarget
    obtain ⟨end', i, fs, hpx⟩ := hg x hx
    rw [hpx.namedRoot_eq, hp.namedRoot_eq] at hroot
    rw [hpx.namedRoot_eq, ht.namedRoot_eq] at htarget
    obtain ⟨ex, hex⟩ := hpx.root_named
    have hem := entryAt?_merge_of_named hp ht hex hroot
    rw [if_neg htarget.symm] at hem
    simp [refMethods, (path_merge_of_ne hp target hpx hroot).named?_eq hem,
      hpx.named?_eq hex]
  case redirected =>
    rw [hp.namedRoot_eq]
    have hk := keepsEdges_merge g r target
    rw [hp.namedRoot_eq] at hk
    exact hk.aliases _ _ (entryAt?_redirect_self (hasRef_of_entryAt? he) target)
  case entries_kept =>
    intro x hroot htarget
    rw [merge, entryAt?_modifyNamed_of_ne htarget.symm, entryAt?_redirect_of_ne hroot.symm]
  case types_kept => rfl

end Merge

/-- An alias is refused exactly where both references are of one name. Otherwise every
reference of the lost name is read through the target from then on, and nothing else. -/
theorem aliasTo_effect {g : TypeGraph} (h : Reachable g) {r target : RefId}
    (hr : g.HasRef r) (ht : g.HasRef target) :
    (g.aliasTo? r target = none ↔ g.namedRoot r = g.namedRoot target) ∧
    (g.namedRoot r = g.namedRoot target → g.next (.aliasTo r target) = g) ∧
    ∀ g', g.aliasTo? r target = some g' → AliasEffect g r target g' := by
  have hg := reachable_grounded h
  obtain ⟨root, k, ds, hp⟩ := hg r hr
  obtain ⟨other, j, es, hpt⟩ := hg target ht
  rw [hp.namedRoot_eq, hpt.namedRoot_eq]
  by_cases hne : other = root
  · have hnone : g.aliasTo? r target = none := by
      rw [aliasTo?_eq, hp.namedRoot_eq, hpt.namedRoot_eq, if_pos hne]
    refine ⟨⟨fun _ => hne.symm, fun _ => hnone⟩, fun _ => ?_, fun g' hg' => ?_⟩
    · simp [next, hnone]
    · simp [hnone] at hg'
  · have hsome := aliasTo?_eq_merge (reachable_methodsNamed h) hp hpt hne
    refine ⟨⟨fun hn => ?_, fun he => absurd he.symm hne⟩, fun he => absurd he.symm hne, ?_⟩
    · simp [hsome] at hn
    · intro g' hg'
      obtain rfl := Option.some.inj (hsome.symm.trans hg')
      exact merge_effect hg hp hpt hne

/-- Two names with a method of one name each, one of them behind an alias, and a pointer. -/
def twoNames : List Operation :=
  [.placeholder none "A", .placeholder none "B", .decorate .pointer ⟨1⟩,
    .addType { name := "M", package := none, kind := .method {} },
    .addType { name := "M", package := none, kind := .method {} },
    .addType { name := "N", package := none, kind := .method {} },
    .addMethod ⟨3⟩ ⟨1⟩, .addMethod ⟨2⟩ ⟨2⟩, .addMethod ⟨3⟩ ⟨3⟩,
    .placeholder none "C", .aliasTo ⟨4⟩ ⟨3⟩]

theorem twoNames_aliasTo_effect :
    (run .new twoNames).aliasTo? ⟨4⟩ ⟨3⟩ = none ∧
    ∃ g', (run .new twoNames).aliasTo? ⟨4⟩ ⟨2⟩ = some g' ∧
      AliasEffect (run .new twoNames) ⟨4⟩ ⟨2⟩ g' ∧
      (g'.refMethods ⟨4⟩).entries = [("M", ⟨1⟩), ("N", ⟨3⟩)] := by
  have h : Reachable (run .new twoNames) := Reachable.new.run (by decide)
  refine ⟨(aliasTo_effect h (by decide) (by decide)).1.mpr (by decide), ?_⟩
  refine ⟨_, rfl, (aliasTo_effect h (by decide) (by decide)).2.2 _ rfl, by decide⟩

end GoPackages.TypeGraph
