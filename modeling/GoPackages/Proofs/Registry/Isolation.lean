import GoPackages.Proofs.Registry.Actions
import GoPackages.Proofs.TypeGraph.Alias
import GoPackages.Proofs.TypeGraph.Bound

/-!
# Names that a type declaration may touch

A declaration binds or redirects the name behind the reference that its package has for the
declared name. Where an earlier alias has put a reference of another owner there, that
owner's name is hit; otherwise the names of all other owners keep their types.
-/
namespace GoPackages.Registry

open Source (TypeSpec)

/-- The package has a reference for the name, and its owner is someone else. -/
def Foreign (reg : Registry) (pkg : PackageId) (name : String) : Prop :=
  ∃ r, reg.ref? pkg name = some r ∧ reg.graph.refPackage r ≠ some pkg

/-- Of the names that were there, those of other owners keep all but their methods. New entries
are names of `pkg`, names without a type, or decorators. -/
structure OnlyOwn (pkg : PackageId) (reg reg' : Registry) : Prop where
  kept : ∀ x e, reg.graph.entryAt? x = some (.named e) → e.package ≠ some pkg →
    ∃ methods, reg'.graph.entryAt? x = some (.named { e with methods })
  made : ∀ x e, ¬reg.graph.HasRef x → reg'.graph.entryAt? x = some e → Made pkg e

/-- Reading types changes no entry; after that only own names are touched. -/
def Isolated (pkg : PackageId) (reg reg' : Registry) : Prop :=
  ∃ mid, Extends pkg reg.Unmade reg mid ∧ OnlyOwn pkg mid reg'

section

variable {pkg : PackageId} {free : TypeId → Prop} {reg mid reg' : Registry} {name : String}
  {kind : TypeKind}

theorem OnlyOwn.of_extends (h : Extends pkg free reg reg') : OnlyOwn pkg reg reg' where
  kept x e he _ := ⟨e.methods, h.entries x _ he⟩
  made x e hn he := by
    rcases h.made x e he with hold | hm
    · exact absurd (TypeGraph.hasRef_of_entryAt? hold) hn
    · exact hm

theorem OnlyOwn.then_extends (h : OnlyOwn pkg reg mid) (he : Extends pkg free mid reg') :
    OnlyOwn pkg reg reg' where
  kept x e hx hp := by
    obtain ⟨methods, hm⟩ := h.kept x e hx hp
    exact ⟨methods, he.entries x _ hm⟩
  made x e hn hx := by
    rcases he.made x e hx with hold | hm
    · exact h.made x e hn hold
    · exact hm

theorem isolated_of_extends (h : Extends pkg reg.Unmade reg reg') : Isolated pkg reg reg' :=
  ⟨reg', h, .of_extends (.refl pkg (fun _ => False) reg')⟩

/-- The names of other owners are kept over the whole of an isolated declaration. -/
theorem Isolated.kept (h : Isolated pkg reg reg') {x : RefId} {e : NamedRef}
    (hx : reg.graph.entryAt? x = some (.named e)) (hp : e.package ≠ some pkg) :
    ∃ methods, reg'.graph.entryAt? x = some (.named { e with methods }) := by
  obtain ⟨mid, he, ho⟩ := h
  exact ho.kept x e (he.entries x _ hx) hp

theorem Sound.named (hr : reg.Sound) {r : RefId} (h : reg.graph.HasRef r) :
    ∃ k ds e, TypeGraph.Path reg.graph (reg.graph.namedRoot r) k r ds ∧
      reg.graph.entryAt? (reg.graph.namedRoot r) = some (.named e) ∧
      reg.graph.refPackage r = e.package := by
  obtain ⟨root, k, ds, hp⟩ := TypeGraph.reachable_grounded hr.graph r h
  obtain ⟨e, he⟩ := hp.root_named
  rw [hp.namedRoot_eq]
  exact ⟨k, ds, e, hp, he, by simp [TypeGraph.refPackage, hp.named?_eq he]⟩

theorem Extends.named (h : Extends pkg free reg reg') (hr : reg.Sound) {r : RefId}
    (hhas : reg.graph.HasRef r) : reg'.graph.namedRoot r = reg.graph.namedRoot r ∧
      reg'.graph.refPackage r = reg.graph.refPackage r := by
  obtain ⟨k, ds, e, hp, he, hpkg⟩ := hr.named hhas
  have hkeep : TypeGraph.KeepsEdges reg.graph reg'.graph :=
    ⟨fun x e hx => ⟨e, h.entries x _ hx⟩, fun x d inner => h.entries x _,
      fun x target => h.entries x _⟩
  have hp' := hp.kept hkeep
  refine ⟨hp'.namedRoot_eq, ?_⟩
  rw [hpkg, TypeGraph.refPackage, hp'.named?_eq (h.entries _ _ he)]
  rfl

theorem Extends.foreign_iff (h : Extends pkg free reg reg') (hr : reg.Sound) (name : String) :
    Foreign reg' pkg name ↔ Foreign reg pkg name := by
  constructor
  · rintro ⟨r, href, hp⟩
    rcases h.placed pkg name r href with hold | ⟨-, he⟩
    · exact ⟨r, hold, (h.named hr (hr.refs _ _ _ hold)).2 ▸ hp⟩
    · refine absurd ?_ hp
      rw [TypeGraph.refPackage, (TypeGraph.Path.named he).named?_eq he]
      rfl
  · rintro ⟨r, href, hp⟩
    exact ⟨r, h.refs pkg name r href, (h.named hr (hr.refs _ _ _ href)).2 ▸ hp⟩

theorem introduce_root (hr : reg.Sound) (pkg : PackageId) (name : String) (kind : TypeKind) :
    ∃ e, (reg.introduce pkg name kind).2.graph.entryAt?
        ((reg.introduce pkg name kind).2.graph.namedRoot (reg.introduce pkg name kind).1) =
          some (.named e) ∧ (e.package = some pkg ↔ ¬Foreign reg pkg name) := by
  have hx := extends_introduce reg pkg name kind pkg fun _ => False
  obtain ⟨_, _, e, _, he, hp⟩ := (hx.sound hr).named (introduce_hasRef hr)
  refine ⟨e, he, ?_⟩
  cases href : reg.ref? pkg name with
  | some r =>
    rw [introduce_of_some href] at hp hx
    rw [← hp, (hx.named hr (hr.refs _ _ _ href)).2]
    constructor
    · rintro hown ⟨s, hs, hn⟩
      obtain rfl := Option.some.inj (href.symm.trans hs)
      exact hn hown
    · intro hn
      by_contra hown
      exact hn ⟨r, href, hown⟩
  | none =>
    have hself : (reg.introduce pkg name kind).2.graph.entryAt? _ = _ := introduce_of_none href
    rw [TypeGraph.refPackage, (TypeGraph.Path.named hself).named?_eq hself] at hp
    constructor
    · rintro - ⟨s, hs, -⟩
      simp [href] at hs
    · exact fun _ => hp.symm

theorem declare_entryAt?_of_ne {x : RefId}
    (h : (reg.introduce pkg name kind).2.graph.namedRoot (reg.introduce pkg name kind).1 ≠ x) :
    (reg.declare pkg name kind).2.graph.entryAt? x =
      (reg.introduce pkg name kind).2.graph.entryAt? x := by
  rw [declare_eq]
  exact TypeGraph.entryAt?_bind_of_ne h _

theorem declare_entryAt?_root {e : NamedRef}
    (h : (reg.introduce pkg name kind).2.graph.entryAt?
      ((reg.introduce pkg name kind).2.graph.namedRoot (reg.introduce pkg name kind).1) =
        some (.named e)) :
    (reg.declare pkg name kind).2.graph.entryAt?
      ((reg.introduce pkg name kind).2.graph.namedRoot (reg.introduce pkg name kind).1) =
        some (.named { e with type := some reg.nextType }) := by
  rw [declare_eq]
  exact TypeGraph.entryAt?_bind_self h _

theorem declare_named {x : RefId} {e : NamedRef}
    (he : (reg.introduce pkg name kind).2.graph.entryAt? x = some (.named e)) :
    ∃ e', (reg.declare pkg name kind).2.graph.entryAt? x = some (.named e') ∧
      e'.name = e.name ∧ e'.package = e.package := by
  by_cases hx : (reg.introduce pkg name kind).2.graph.namedRoot
      (reg.introduce pkg name kind).1 = x
  · subst hx
    exact ⟨_, declare_entryAt?_root he, rfl, rfl⟩
  · exact ⟨e, (declare_entryAt?_of_ne hx).trans he, rfl, rfl⟩

theorem onlyOwn_declare (hr : reg.Sound) (hf : ¬Foreign reg pkg name) (kind : TypeKind) :
    OnlyOwn pkg reg (reg.declare pkg name kind).2 := by
  have hx := extends_introduce reg pkg name kind pkg fun _ => False
  obtain ⟨e, he, howner⟩ := introduce_root hr pkg name kind
  have hown := howner.mpr hf
  refine ⟨fun x e' hx' hp => ?_, fun x e' hn hx' => ?_⟩
  · have hmid := hx.entries x _ hx'
    have hne : (reg.introduce pkg name kind).2.graph.namedRoot
        (reg.introduce pkg name kind).1 ≠ x := by
      rintro rfl
      obtain rfl : e = e' := by simpa [he] using hmid
      exact hp hown
    exact ⟨e'.methods, (declare_entryAt?_of_ne hne).trans hmid⟩
  · by_cases hroot : (reg.introduce pkg name kind).2.graph.namedRoot
        (reg.introduce pkg name kind).1 = x
    · subst hroot
      rw [declare_entryAt?_root he] at hx'
      obtain rfl := Option.some.inj hx'
      exact .inr hown
    · rw [declare_entryAt?_of_ne hroot] at hx'
      exact (OnlyOwn.of_extends hx).made x e' hn hx'

theorem isolated_iff_of_defines {scope : FileScope} (h : Defines scope name kind reg mid reg')
    (hr : reg.Sound) :
    Isolated scope.package reg reg' ↔ ¬Foreign reg scope.package name := by
  have hmid := h.before.sound hr
  have hforeign := h.before.foreign_iff hr name
  constructor
  · intro hi hf
    obtain ⟨r, href, hp⟩ := hf
    obtain ⟨_, _, e, _, he, hpe⟩ := hr.named (hr.refs _ _ _ href)
    obtain ⟨methods, hafter⟩ := hi.kept he (hpe ▸ hp)
    have hroot := (h.before.named hr (hr.refs _ _ _ href)).1
    have href' := h.before.refs _ _ _ href
    have hx : Extends scope.package (fun _ => False) mid
        (mid.introduce scope.package name kind).2 :=
      extends_introduce mid scope.package name kind _ _
    have hr' := (hx.named hmid (hmid.refs _ _ _ href')).1
    have he' := hx.entries _ _ (h.before.entries _ _ he)
    have hfst : (mid.introduce scope.package name kind).1 = r := by rw [introduce_of_some href']
    rw [← hroot, ← hr', ← hfst] at he' hafter
    have hbound := h.after.entries _ _ (declare_entryAt?_root he')
    obtain heq : { e with methods } = { e with type := some mid.nextType } := by
      simpa [hbound] using hafter.symm
    have htype : e.type = some mid.nextType := congrArg NamedRef.type heq
    have hold := TypeGraph.reachable_boundExist hr.graph _ e _ he htype
    exact Nat.lt_irrefl _ (Nat.lt_of_lt_of_le hold h.before.typeCount)
  · intro hf
    refine ⟨mid, h.before, ?_⟩
    exact (onlyOwn_declare hmid (fun h' => hf (hforeign.mp h')) kind).then_extends h.after

/-- The registry after the name stands for `target`, unless its entry is behind the target. -/
def rename? (reg : Registry) (q : PackageId) (name : String) (target : RefId) :
    Option Registry :=
  match reg.ref? q name with
  | none => some (reg.register q name target)
  | some existing => (reg.graph.aliasTo? existing target).map fun graph =>
    { reg with graph }.register q name target

theorem aliasTo?_merges (hr : reg.Sound) {r target : RefId} (hhas : reg.graph.HasRef r)
    (ht : reg.graph.HasRef target) {g : TypeGraph}
    (h : reg.graph.aliasTo? r target = some g) :
    g = reg.graph.merge r target ∧ reg.graph.namedRoot target ≠ reg.graph.namedRoot r := by
  obtain ⟨k, ds, _, hp, _, _⟩ := hr.named hhas
  obtain ⟨j, es, _, hpt, _, _⟩ := hr.named ht
  by_cases hne : reg.graph.namedRoot target = reg.graph.namedRoot r
  · rw [TypeGraph.aliasTo?_eq, if_pos hne] at h
    cases h
  · rw [TypeGraph.aliasTo?_eq_merge (TypeGraph.reachable_methodsNamed hr.graph) hp hpt hne] at h
    exact ⟨(Option.some.inj h).symm, hne⟩

theorem isolated_iff_of_renames {scope : FileScope}
    (hx : Extends scope.package reg.Unmade reg mid) (h : Renames scope name mid reg')
    (hr : reg.Sound) :
    Isolated scope.package reg reg' ↔ ¬Foreign reg scope.package name := by
  have hmid := hx.sound hr
  obtain ⟨target, ht, h⟩ := h
  cases hm : mid.ref? scope.package name with
  | none =>
    rw [hm] at h
    subst h
    have hself : OnlyOwn scope.package mid (mid.register scope.package name target) :=
      ⟨fun x e he _ => ⟨e.methods, he⟩,
        fun x e hn he => absurd (TypeGraph.hasRef_of_entryAt? he) hn⟩
    refine ⟨fun _ ⟨r, href, _⟩ => ?_, fun _ => ⟨mid, hx, hself⟩⟩
    simp [hx.refs _ _ _ href] at hm
  | some existing =>
    rw [hm] at h
    obtain ⟨g, hg, rfl⟩ := h
    have hhas := hmid.refs _ _ _ hm
    obtain ⟨rfl, hne⟩ := aliasTo?_merges hmid hhas ht hg
    obtain ⟨k, ds, e, hp, he, hpe⟩ := hmid.named hhas
    obtain ⟨j, es, _, hpt, _, _⟩ := hmid.named ht
    have heffect := TypeGraph.merge_effect (TypeGraph.reachable_grounded hmid.graph) hp hpt hne
    constructor
    · rintro hi ⟨r, href, hown⟩
      obtain rfl := Option.some.inj (hm.symm.trans (hx.refs _ _ _ href))
      obtain ⟨_, _, e', _, he', hpe'⟩ := hr.named (hr.refs _ _ _ href)
      obtain ⟨methods, hafter⟩ := hi.kept he' (hpe' ▸ hown)
      rw [← (hx.named hr (hr.refs _ _ _ href)).1] at hafter
      cases heffect.redirected.symm.trans hafter
    · intro hf
      have hown : e.package = some scope.package := by
        by_contra hn
        exact hf ((hx.foreign_iff hr name).mp ⟨existing, hm, hpe ▸ hn⟩)
      refine ⟨mid, hx, fun x e' he' hn => ?_, fun x e' hn he' => ?_⟩
      · have hxne : x ≠ mid.graph.namedRoot existing := by
          rintro rfl
          obtain rfl : e = e' := by simpa [he] using he'
          exact hn hown
        have hmerge := TypeGraph.entryAt?_merge_of_named hp hpt he' hxne
        split at hmerge
        · exact ⟨_, hmerge⟩
        · exact ⟨e'.methods, hmerge⟩
      · have hlt := TypeGraph.hasRef_of_entryAt? he'
        have hc : (mid.graph.merge existing target).refCount = mid.graph.refCount := by
          simp [TypeGraph.merge]
        exact absurd (Nat.lt_of_lt_of_eq hlt hc) hn

end

section

variable {reg : Registry} {scope : FileScope} {doc : Option Doc} {spec : TypeSpec}

/-- The declaration of a type hits a name of another owner: it binds that name, or makes it an
alias unless this is refused. -/
def Clashes (reg : Registry) (scope : FileScope) (doc : Option Doc) (spec : TypeSpec) : Prop :=
  Foreign reg scope.package spec.name ∧
    (spec.isAlias = true → ∃ reg', declareTypeSpec scope doc spec reg = .ok () reg')

/-- The three ways in which the declaration of a type can go. -/
inductive TypeSpecEffect (reg : Registry) (scope : FileScope) (doc : Option Doc)
    (spec : TypeSpec) (reg' : Registry) : Prop where
  | defined {mid kind} : spec.isAlias = false → Defines scope spec.name kind reg mid reg' →
      TypeSpecEffect reg scope doc spec reg'
  | renamed {mid} : declareTypeSpec scope doc spec reg = .ok () reg' →
      Extends scope.package reg.Unmade reg mid → Renames scope spec.name mid reg' →
      TypeSpecEffect reg scope doc spec reg'
  | refused {e} : spec.isAlias = true → declareTypeSpec scope doc spec reg = .error e reg' →
      Extends scope.package reg.Unmade reg reg' → TypeSpecEffect reg scope doc spec reg'

theorem typeSpec_effect (hr : reg.Sound) (hs : scope.Sound reg) (doc : Option Doc)
    (spec : TypeSpec) :
    TypeSpecEffect reg scope doc spec (reg.next (.typeSpec scope doc spec)) := by
  simp only [next]
  cases ha : spec.isAlias with
  | false =>
    refine (declareTypeSpec_defines hr hs doc ha).stateAfter ?_ ?_
    · rintro _ reg' ⟨mid, hd, _⟩
      exact .defined ha hd
    · rintro reg' ⟨mid, hd⟩
      exact .defined ha hd
  | true =>
    have hspec := declareTypeSpec_renames hr hs doc ha
    unfold stateAfter
    cases hm : declareTypeSpec scope doc spec reg with
    | ok a reg' =>
      obtain ⟨mid, hx, hren⟩ := hspec.of_ok hm
      exact .renamed hm hx hren
    | error e reg' => exact .refused ha hm (hspec.of_error hm)

theorem typeSpec_isolated_iff (hr : reg.Sound) (hs : scope.Sound reg) :
    Isolated scope.package reg (reg.next (.typeSpec scope doc spec)) ↔
      ¬Clashes reg scope doc spec := by
  unfold Clashes
  cases typeSpec_effect hr hs doc spec with
  | defined ha hd =>
    rw [isolated_iff_of_defines hd hr]
    simp [ha]
  | renamed hm hx hren =>
    rw [isolated_iff_of_renames hx hren hr]
    exact not_congr ⟨fun hf => ⟨hf, fun _ => ⟨_, hm⟩⟩, And.left⟩
  | refused ha hm hx =>
    refine ⟨fun _ ⟨_, hok⟩ => ?_, fun _ => isolated_of_extends hx⟩
    obtain ⟨reg', h⟩ := hok ha
    cases hm.symm.trans h

theorem Sound.register (hr : reg.Sound) {r : RefId} (h : reg.graph.HasRef r) (pkg : PackageId)
    (name : String) : (reg.register pkg name r).Sound := by
  refine ⟨hr.graph, fun q n s hs => ?_⟩
  rcases ref?_register_cases hs with ⟨-, -, rfl⟩ | hs
  · exact h
  · exact hr.refs q n s hs

theorem sound_of_defines {name : String} {kind : TypeKind} {mid reg' : Registry}
    (h : Defines scope name kind reg mid reg') (hr : reg.Sound) : reg'.Sound :=
  h.after.sound (declare_sound (h.before.sound hr) scope.package name kind)

theorem ref?_of_defines {name : String} {kind : TypeKind} {mid reg' : Registry}
    (h : Defines scope name kind reg mid reg') {q : PackageId} {n : String} {r : RefId}
    (hq : reg.ref? q n = some r) : reg'.ref? q n = some r := by
  refine h.after.refs q n r ?_
  rw [declare_ref?]
  have hx := extends_introduce mid scope.package name kind scope.package fun _ => False
  exact hx.refs q n r (h.before.refs q n r hq)

theorem renames_step {name : String} {mid reg' : Registry} (h : Renames scope name mid reg') :
    ∃ target g, mid.graph.HasRef target ∧
      reg' = { mid with graph := g }.register scope.package name target ∧
      (g = mid.graph ∨ ∃ existing, mid.ref? scope.package name = some existing ∧
        g = mid.graph.next (.aliasTo existing target)) := by
  obtain ⟨target, ht, h⟩ := h
  split at h
  · exact ⟨target, mid.graph, ht, h, .inl rfl⟩
  next existing hm =>
    obtain ⟨g, hg, rfl⟩ := h
    refine ⟨target, g, ht, rfl, .inr ⟨existing, hm, ?_⟩⟩
    simp [TypeGraph.next, hg]

theorem sound_of_renames {name : String} {mid reg' : Registry} (h : Renames scope name mid reg')
    (hmid : mid.Sound) : reg'.Sound := by
  obtain ⟨target, g, ht, rfl, hg⟩ := renames_step h
  rcases hg with rfl | ⟨existing, hm, rfl⟩
  · exact hmid.register ht scope.package name
  · have hstep := hmid.step (.aliasTo existing target) ⟨hmid.refs _ _ _ hm, ht⟩
    refine hstep.register ?_ scope.package name
    exact Nat.lt_of_lt_of_le ht (TypeGraph.refCount_le_next _ _)

theorem ref?_of_renames {name : String} {mid reg' : Registry}
    (h : Renames scope name mid reg') {q : PackageId} (hq : scope.package ≠ q) (n : String) :
    reg'.ref? q n = mid.ref? q n := by
  obtain ⟨target, g, -, rfl, -⟩ := renames_step h
  exact ref?_modifyPackage_of_ne hq { mid with graph := g } _ n

theorem typeSpec_sound (hr : reg.Sound) (hs : scope.Sound reg) (doc : Option Doc)
    (spec : TypeSpec) : (reg.next (.typeSpec scope doc spec)).Sound := by
  cases typeSpec_effect hr hs doc spec with
  | defined _ hd => exact sound_of_defines hd hr
  | renamed _ hx hren => exact sound_of_renames hren (hx.sound hr)
  | refused _ _ hx => exact hx.sound hr

theorem typeSpec_ref?_of_ne (hr : reg.Sound) (hs : scope.Sound reg) (doc : Option Doc)
    (spec : TypeSpec) {q : PackageId} (hq : scope.package ≠ q) {n : String} {r : RefId}
    (href : reg.ref? q n = some r) :
    (reg.next (.typeSpec scope doc spec)).ref? q n = some r := by
  cases typeSpec_effect hr hs doc spec with
  | defined _ hd => exact ref?_of_defines hd href
  | renamed _ hx hren => exact (ref?_of_renames hren hq n).trans (hx.refs q n r href)
  | refused _ _ hx => exact hx.refs q n r href

structure Grows (reg reg' : Registry) : Prop where
  packageCount : reg.packages.size ≤ reg'.packages.size
  refCount : reg.graph.refCount ≤ reg'.graph.refCount

theorem Grows.refl (reg : Registry) : Grows reg reg := ⟨Nat.le_refl _, Nat.le_refl _⟩

theorem Grows.trans {mid reg' : Registry} (h : Grows reg mid) (h' : Grows mid reg') :
    Grows reg reg' :=
  ⟨Nat.le_trans h.packageCount h'.packageCount, Nat.le_trans h.refCount h'.refCount⟩

theorem Extends.grows {pkg : PackageId} {free : TypeId → Prop} {reg' : Registry}
    (h : Extends pkg free reg reg') : Grows reg reg' := ⟨h.packageCount.ge, h.refCount_le⟩

theorem grows_modifyPackage (reg : Registry) (pkg : PackageId) (f : Package → Package) :
    Grows reg (reg.modifyPackage pkg f) :=
  ⟨(packages_size_modifyPackage reg pkg f).ge, Nat.le_refl _⟩

theorem grows_graph (reg : Registry) {g : TypeGraph} (h : reg.graph.refCount ≤ g.refCount) :
    Grows reg { reg with graph := g } := ⟨Nat.le_refl _, h⟩

theorem grows_declare (reg : Registry) (pkg : PackageId) (name : String) (kind : TypeKind) :
    Grows reg (reg.declare pkg name kind).2 := by
  have hx := extends_introduce reg pkg name kind pkg fun _ => False
  have hbind := grows_graph (reg.introduce pkg name kind).2
    (TypeGraph.refCount_bind _ (reg.introduce pkg name kind).1 reg.nextType).ge
  rw [declare_eq]
  exact (hx.grows.trans hbind).trans (grows_modifyPackage _ pkg _)

theorem grows_of_renames {name : String} {mid reg' : Registry} (h : Renames scope name mid reg') :
    Grows mid reg' := by
  obtain ⟨target, g, -, rfl, hg⟩ := renames_step h
  have hle : mid.graph.refCount ≤ g.refCount := by
    rcases hg with rfl | ⟨existing, -, rfl⟩
    · exact Nat.le_refl _
    · exact TypeGraph.refCount_le_next mid.graph _
  exact (grows_graph mid hle).trans (grows_modifyPackage { mid with graph := g } _ _)

theorem typeSpec_grows (hr : reg.Sound) (hs : scope.Sound reg) (doc : Option Doc)
    (spec : TypeSpec) : Grows reg (reg.next (.typeSpec scope doc spec)) := by
  cases typeSpec_effect hr hs doc spec with
  | defined _ hd => exact (hd.before.grows.trans (grows_declare _ _ _ _)).trans hd.after.grows
  | renamed _ hx hren => exact hx.grows.trans (grows_of_renames hren)
  | refused _ _ hx => exact hx.grows

theorem next_sound (hr : reg.Sound) {action : Action} (he : reg.Enabled action) :
    (reg.next action).Sound ∧ Grows reg (reg.next action) := by
  by_cases ht : ∃ scope doc spec, action = .typeSpec scope doc spec
  · obtain ⟨scope, doc, spec, rfl⟩ := ht
    exact ⟨typeSpec_sound hr he doc spec, typeSpec_grows hr he doc spec⟩
  · have hs := next_spares hr he fun scope doc spec h => ht ⟨scope, doc, spec, h⟩
    exact ⟨hs.sound hr, hs.packageCount, hs.refCount⟩

theorem run_sound (hr : reg.Sound) {actions : List Action} (hv : reg.ValidRun actions) :
    (reg.run actions).Sound ∧ Grows reg (reg.run actions) := by
  induction actions generalizing reg with
  | nil => exact ⟨hr, .refl reg⟩
  | cons action rest ih =>
    obtain ⟨hnext, hgrows⟩ := next_sound hr hv.1
    obtain ⟨hrun, hrest⟩ := ih hnext hv.2
    exact ⟨hrun, hgrows.trans hrest⟩

end

end GoPackages.Registry
