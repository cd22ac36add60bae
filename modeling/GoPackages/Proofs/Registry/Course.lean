import GoPackages.Proofs.Analysis.Views
import GoPackages.Proofs.Registry.Isolation
import GoPackages.Proofs.Registry.Later

/-!
# The course of a registry

Whatever is read and declared, a registry changes by additions that declare no name, by
declarations of types and by declarations of aliases. Along such a course names may come to
stand for other references, but what was one name stays one, and a table that had a reference
for a name has one for the same name from then on.
-/
namespace GoPackages.Registry

open Source (TypeSpec ValueSpec FuncDecl GroupKind)

def listed? (reg : Registry) (q : PackageId) (name : String) : Option TypeId :=
  (reg.package? q).bind (·.types.get? name)

/-- A name of the package that has no type of its own yet. -/
def Placeholder (reg : Registry) (q : PackageId) (name : String) (r : RefId) : Prop :=
  ∃ e, reg.graph.entryAt? r = some (.named e) ∧ e.name = name ∧ e.package = some q ∧ e.type = none

/-- Changes that declare no name. New entries of tables are placeholders. -/
structure Adds (reg reg' : Registry) : Prop where
  spares : Spares reg reg'
  edges : ∀ r e, reg.graph.entryAt? r = some e → (∀ n, e ≠ .named n) →
    reg'.graph.entryAt? r = some e
  placed : ∀ q n r, reg'.ref? q n = some r →
    reg.ref? q n = some r ∨ ¬reg.graph.HasRef r ∧ reg'.Placeholder q n r
  listed : ∀ q n, reg'.listed? q n = reg.listed? q n
  identity : ∀ q p, reg.package? q = some p → ∃ p', reg'.package? q = some p' ∧
    p'.name = p.name ∧ p'.importPath = p.importPath

theorem listed?_modifyPackage (reg : Registry) (pkg : PackageId) {f : Package → Package}
    (hf : ∀ p, (f p).types = p.types) (q : PackageId) (n : String) :
    (reg.modifyPackage pkg f).listed? q n = reg.listed? q n := by
  unfold listed?
  by_cases hq : pkg = q
  · subst hq
    cases hp : reg.package? pkg with
    | none =>
      have hi : reg.packages[pkg.index]? = none := hp
      simp [package?, modifyPackage, Array.getElem?_modify, hi]
    | some p => rw [package?_modifyPackage_self hp, Option.bind_some, Option.bind_some, hf p]
  · rw [package?_modifyPackage_of_ne hq]

theorem identity_modifyPackage (reg : Registry) (pkg : PackageId) {f : Package → Package}
    (hf : ∀ p, (f p).name = p.name ∧ (f p).importPath = p.importPath) (q : PackageId)
    (p : Package) (hp : reg.package? q = some p) : ∃ p', (reg.modifyPackage pkg f).package? q =
      some p' ∧ p'.name = p.name ∧ p'.importPath = p.importPath := by
  refine ⟨_, package?_modifyPackage_of_some hp f, ?_⟩
  split
  · exact hf p
  · exact ⟨rfl, rfl⟩

section Adds

variable {reg mid reg' : Registry} {pkg : PackageId}

theorem Placeholder.spared {q : PackageId} {n : String} {r : RefId} (h : reg.Placeholder q n r)
    (hs : Spares reg reg') : reg'.Placeholder q n r := by
  obtain ⟨e, he, hname, hpkg, htype⟩ := h
  obtain ⟨methods, he'⟩ := hs.names r e he
  exact ⟨_, he', hname, hpkg, htype⟩

namespace Adds

theorem keepsEdges (h : Adds reg reg') : TypeGraph.KeepsEdges reg.graph reg'.graph where
  names r e he := by
    obtain ⟨methods, he'⟩ := h.spares.names r e he
    exact ⟨_, he'⟩
  decorators r d inner he := h.edges r _ he nofun
  aliases r target he := h.edges r _ he nofun

theorem registered (h : Adds reg reg') {q : PackageId} (hp : ∃ p, reg.package? q = some p) :
    ∃ p, reg'.package? q = some p := by
  obtain ⟨p, hp⟩ := hp
  obtain ⟨p', hp', -⟩ := h.identity q p hp
  exact ⟨p', hp'⟩

theorem trans (h : Adds reg mid) (h' : Adds mid reg') : Adds reg reg' where
  spares := h.spares.trans h'.spares
  edges r e he hn := h'.edges r e (h.edges r e he hn) hn
  placed q n r hr := by
    rcases h'.placed q n r hr with hmid | ⟨hnew, hp⟩
    · exact (h.placed q n r hmid).imp_right fun ⟨hnew, hp⟩ => ⟨hnew, hp.spared h'.spares⟩
    · exact .inr ⟨fun ho => hnew (Nat.lt_of_lt_of_le ho h.spares.refCount), hp⟩
  listed q n := (h'.listed q n).trans (h.listed q n)
  identity q p hp := by
    obtain ⟨p₁, hp₁, hname, hpath⟩ := h.identity q p hp
    obtain ⟨p₂, hp₂, hname', hpath'⟩ := h'.identity q p₁ hp₁
    exact ⟨p₂, hp₂, hname'.trans hname, hpath'.trans hpath⟩

theorem of_extends {free : TypeId → Prop} (h : Extends pkg free reg reg') : Adds reg reg' where
  spares := .of_extends h
  edges r e he _ := h.entries r e he
  placed q n r hr := (h.placed q n r hr).imp_right fun ⟨hnew, he⟩ => ⟨hnew, _, he, rfl, rfl, rfl⟩
  listed q n := by
    unfold listed?
    cases hp : reg.package? q with
    | none =>
      have hnone : reg'.package? q = none := by
        rw [package?, Array.getElem?_eq_none_iff] at hp ⊢
        rw [h.packageCount]
        exact hp
      rw [hnone]
    | some p =>
      obtain ⟨refs, hp'⟩ := h.packages q p hp
      rw [hp']
      rfl
  identity q p hp := by
    obtain ⟨refs, hp'⟩ := h.packages q p hp
    exact ⟨_, hp', rfl, rfl⟩

theorem refl (reg : Registry) : Adds reg reg := .of_extends (.refl ⟨0⟩ (fun _ => False) reg)

theorem of_listing (pkg : PackageId) {f : Package → Package}
    (hf : ∀ p, (f p).refs = p.refs ∧ (f p).types = p.types ∧ (f p).name = p.name ∧
      (f p).importPath = p.importPath) : Adds reg (reg.modifyPackage pkg f) where
  spares := .of_listing pkg fun p => (hf p).1
  edges _ _ he _ := he
  placed q n _ hr := .inl ((ref?_modifyPackage (fun p => (hf p).1) q n).symm.trans hr)
  listed := listed?_modifyPackage reg pkg fun p => (hf p).2.1
  identity := identity_modifyPackage reg pkg fun p => (hf p).2.2

theorem of_values {kind : GroupKind} {vs : List Variable}
    (h : ValuesRead pkg kind reg vs reg') : Adds reg reg' := by
  induction h with
  | nil reg => exact .refl reg
  | cons he _ ih =>
    refine ((of_extends he).trans (of_listing _ fun p => ?_)).trans ih
    split <;> exact ⟨rfl, rfl, rfl, rfl⟩

theorem of_method {r : RefId} {method : TypeId} (hr : reg.graph.HasRef r)
    (hm : reg.graph.HasType method) :
    Adds reg (reg.withGraph fun g => (g.addMethod r method).2) where
  spares := .of_method hr hm
  edges x e he hn := by
    have hk := TypeGraph.keepsEdges_addMethod reg.graph r method
    cases e with
    | named e => exact absurd rfl (hn e)
    | decorated d inner => exact hk.decorators x d inner he
    | aliasOf target => exact hk.aliases x target he
  placed _ _ _ hr := .inl hr
  listed _ _ := rfl
  identity _ p hp := ⟨p, hp, rfl, rfl⟩

theorem of_attach {scope : FileScope} {decl : FuncDecl} {params : List (String × RefId)}
    {ty : TypeId} {t : MethodType} (h : FuncRead scope decl reg mid params ty t) :
    Adds mid (attach scope.package decl.name ty t.receiver mid) := by
  obtain ⟨data, hd, -⟩ := h.named
  unfold attach
  split
  next owner ho => exact .of_method (h.owner owner ho) (TypeGraph.hasType_of_typeAt? hd)
  next => exact .of_listing _ fun _ => ⟨rfl, rfl, rfl, rfl⟩

theorem of_append {info : PackageInfo} {id : PackageId}
    (h : reg.append (.ofInfo info) = .ok (id, reg')) : Adds reg reg' where
  spares := spares_append h
  edges r e he _ := by
    rw [(append_ok h).2.2.1]
    exact he
  placed q n r hr := .inl ((ref?_append h q n).symm.trans hr)
  listed q n := by
    obtain ⟨-, rfl, -, -, hall⟩ := append_ok h
    have htypes : ∀ p : Package, (unlinked p).types = p.types := fun _ => rfl
    have hq := congrArg (Option.bind · fun p : Package => p.types.get? n) (hall q)
    simp only [Option.bind_map, Function.comp_def, htypes] at hq
    refine hq.trans ?_
    split
    next heq =>
      subst heq
      have hnone : reg.package? ⟨reg.packages.size⟩ = none :=
        Array.getElem?_eq_none (Nat.le_refl _)
      rw [listed?, hnone]
      rfl
    next => rw [Option.bind_map]; rfl
  identity q p hp := by
    obtain ⟨p', hp', hu⟩ := package?_append h hp
    exact ⟨p', hp', identity_of_unlinked hu⟩

theorem of_ensureRef (reg : Registry) (pkg : PackageId) (name : String) :
    Adds reg (reg.ensureRef pkg name).2 := by
  have hx : Extends pkg (fun _ => False) reg (reg.ensureRef pkg name).2 :=
    extends_ensureRef reg pkg name
  exact .of_extends hx

theorem of_recordImplementations (reg : Registry) (pkg : PackageId) :
    Adds reg (reg.recordImplementations pkg).2 where
  spares := spares_recordImplementations reg pkg
  edges r e he _ := by
    unfold recordImplementations
    split
    · exact he
    next p _ =>
      have hrefs := (recordStructs_next reg.graph p.interfaces.ids p.structs.ids).1
      unfold TypeGraph.entryAt? at he ⊢
      exact hrefs ▸ he
  placed q n r hr := by
    unfold recordImplementations at hr
    split at hr <;> exact .inl hr
  listed q n := by
    unfold recordImplementations
    split <;> rfl
  identity q p hp := by
    unfold recordImplementations
    split <;> exact ⟨p, hp, rfl, rfl⟩

end Adds

theorem next_adds (hr : reg.Sound) {action : Action} (he : reg.Enabled action)
    (ht : ∀ scope doc spec, action ≠ .typeSpec scope doc spec) : Adds reg (reg.next action) := by
  cases action with
  | append info =>
    simp only [next]
    split
    next h => exact .of_append h
    next => exact .refl reg
  | ensureRef pkg name =>
    exact .of_ensureRef reg pkg name
  | typeSpec scope doc spec => exact absurd rfl (ht scope doc spec)
  | valueSpec scope kind doc spec source =>
    refine (declareValueSpec_reads hr he kind doc spec source).stateAfter ?_ ?_
    · rintro _ _ ⟨mid, vs, hx, hvs, _⟩
      exact (Adds.of_extends hx).trans (.of_values hvs)
    · rintro _ ⟨mid, hx, vs, mid', hvs, hx'⟩
      exact ((Adds.of_extends hx).trans (.of_values hvs)).trans (.of_extends hx')
  | func scope decl =>
    refine (declareFunc_reads hr he decl).stateAfter ?_ fun _ h => .of_extends h
    rintro _ _ ⟨mid, params, ty, t, hf, rfl⟩
    exact (Adds.of_extends hf.read).trans (.of_attach hf)
  | appendDoc pkg lines => exact .of_listing pkg fun _ => ⟨rfl, rfl, rfl, rfl⟩
  | markExplored pkg => exact .of_listing pkg fun _ => ⟨rfl, rfl, rfl, rfl⟩
  | recordImplementations pkg => exact .of_recordImplementations reg pkg

end Adds

/-- What a declared name stands for. -/
inductive Meant where
  | type (ty : TypeId)
  | alias (target : RefId)

structure Naming where
  package : PackageId
  name : String
  meant : Meant

def Naming.key (d : Naming) : PackageId × String := (d.package, d.name)

/-- How a registry comes about from another one, with the names declared on the way in order. -/
inductive Course : Registry → List Naming → Registry → Prop where
  | refl (reg : Registry) : Course reg [] reg
  | adds {reg mid reg' named} : Course reg named mid → Adds mid reg' → Course reg named reg'
  | define {reg mid named pkg} (name : String) (kind : TypeKind) : Course reg named mid →
      (∃ p, mid.package? pkg = some p) →
      Course reg (named ++ [⟨pkg, name, .type mid.nextType⟩]) (mid.declare pkg name kind).2
  | rename {reg mid reg' named pkg name target} : Course reg named mid →
      (∃ p, mid.package? pkg = some p) → mid.graph.HasRef target →
      mid.rename? pkg name target = some reg' →
      Course reg (named ++ [⟨pkg, name, .alias target⟩]) reg'

theorem Course.trans {reg mid reg' : Registry} {named named' : List Naming}
    (h : Course reg named mid) (h' : Course mid named' reg') :
    Course reg (named ++ named') reg' := by
  induction h' with
  | refl => rwa [List.append_nil]
  | adds _ ha ih => exact .adds ih ha
  | define name kind _ hp ih =>
    rw [← List.append_assoc]
    exact .define name kind ih hp
  | rename _ hp ht hr ih =>
    rw [← List.append_assoc]
    exact .rename ih hp ht hr

theorem Course.adds_of_nil {reg reg' : Registry} (h : Course reg [] reg') : Adds reg reg' := by
  generalize hnil : ([] : List Naming) = named at h
  induction h with
  | refl => exact .refl _
  | adds _ ha ih => exact (ih hnil).trans ha
  | define | rename =>
    exact absurd hnil.symm (List.append_ne_nil_of_right_ne_nil _ (List.cons_ne_nil _ _))

/-- The reference leads to the entry that the package has for the name. -/
def LeadsTo (reg : Registry) (q : PackageId) (name : String) (r : RefId) : Prop :=
  ∃ s, reg.ref? q name = some s ∧ reg.graph.namedRoot r = reg.graph.namedRoot s

/-- Two views of one name show one name from then on, and a table that had a reference for a name
has one that is behind the old one. -/
structure Leads (reg reg' : Registry) : Prop where
  sound : reg'.Sound
  refs : ∀ r, reg.graph.HasRef r → reg'.graph.HasRef r
  views : ∀ (v : View) x y, reg.graph.HasRef x → reg.graph.HasRef y →
    v.of reg.graph x = v.of reg.graph y → v.of reg'.graph x = v.of reg'.graph y
  decorated : ∀ r d inner, reg.graph.entryAt? r = some (.decorated d inner) →
    reg'.graph.entryAt? r = some (.decorated d inner)
  tables : ∀ q n r, reg.ref? q n = some r → reg'.LeadsTo q n r
  identity : ∀ q p, reg.package? q = some p → ∃ p', reg'.package? q = some p' ∧
    p'.name = p.name ∧ p'.importPath = p.importPath

section Leads

variable {reg mid reg' : Registry} {pkg : PackageId} {name : String} {target : RefId}

theorem LeadsTo.later {q : PackageId} {n : String} {r : RefId} (h : reg.LeadsTo q n r)
    (hr : reg.Sound) (hhas : reg.graph.HasRef r) (hl : Leads reg reg') : reg'.LeadsTo q n r := by
  obtain ⟨s, hs, hroot⟩ := h
  obtain ⟨s', hs', hroot'⟩ := hl.tables q n s hs
  exact ⟨s', hs', (hl.views .core r s hhas (hr.refs q n s hs) hroot).trans hroot'⟩

theorem Leads.trans (h : Leads reg mid) (h' : Leads mid reg') (hr : reg.Sound) :
    Leads reg reg' where
  sound := h'.sound
  refs r hr := h'.refs r (h.refs r hr)
  views v x y hx hy he := h'.views v x y (h.refs x hx) (h.refs y hy) (h.views v x y hx hy he)
  decorated r d inner he := h'.decorated r d inner (h.decorated r d inner he)
  tables q n r href := (h.tables q n r href).later h.sound (h.refs r (hr.refs q n r href)) h'
  identity q p hp := by
    obtain ⟨p₁, hp₁, hname, hpath⟩ := h.identity q p hp
    obtain ⟨p₂, hp₂, hname', hpath'⟩ := h'.identity q p₁ hp₁
    exact ⟨p₂, hp₂, hname'.trans hname, hpath'.trans hpath⟩

theorem Leads.of_edges (hr : reg.Sound) (hr' : reg'.Sound)
    (hk : TypeGraph.KeepsEdges reg.graph reg'.graph)
    (refs : ∀ q n r, reg.ref? q n = some r → reg'.ref? q n = some r)
    (identity : ∀ q p, reg.package? q = some p → ∃ p', reg'.package? q = some p' ∧
      p'.name = p.name ∧ p'.importPath = p.importPath) : Leads reg reg' where
  sound := hr'
  refs r hr := by
    obtain ⟨e, he⟩ := hr.entry
    cases e with
    | named e =>
      obtain ⟨e', he'⟩ := hk.names r e he
      exact TypeGraph.hasRef_of_entryAt? he'
    | decorated d inner => exact TypeGraph.hasRef_of_entryAt? (hk.decorators r d inner he)
    | aliasOf target => exact TypeGraph.hasRef_of_entryAt? (hk.aliases r target he)
  views v x y hx hy he := by
    have hg := TypeGraph.reachable_grounded hr.graph
    have hg' := TypeGraph.reachable_grounded hr'.graph
    rw [v.of_kept hg hg' hk hx, v.of_kept hg hg' hk hy, he]
  decorated := hk.decorators
  tables q n r h := ⟨r, refs q n r h, rfl⟩
  identity := identity

theorem Leads.refl (hr : reg.Sound) : Leads reg reg :=
  .of_edges hr hr (.refl _) (fun _ _ _ h => h) fun _ p h => ⟨p, h, rfl, rfl⟩

theorem Adds.leads (h : Adds reg reg') (hr : reg.Sound) : Leads reg reg' :=
  .of_edges hr (h.spares.sound hr) h.keepsEdges h.spares.refs h.identity

theorem leads_declare (hr : reg.Sound) (pkg : PackageId) (name : String) (kind : TypeKind) :
    Leads reg (reg.declare pkg name kind).2 := by
  have hx := extends_introduce reg pkg name kind pkg fun _ => False
  refine .of_edges hr (declare_sound hr pkg name kind) ?_ (fun q n r h => ?_) fun q p hp => ?_
  · rw [declare_eq]
    exact (Adds.of_extends hx).keepsEdges.trans (TypeGraph.keepsEdges_bind _ _ _)
  · rw [declare_ref?]
    exact hx.refs q n r h
  · obtain ⟨refs, hp'⟩ := declare_package? hp pkg name kind
    refine ⟨_, hp', ?_⟩
    split
    · cases kind <;> exact ⟨rfl, rfl⟩
    · exact ⟨rfl, rfl⟩

/-- The effect of a declared alias: an entry that the package had for the name is read through the
target from then on. -/
structure Renamed (reg : Registry) (pkg : PackageId) (name : String) (target : RefId)
    (reg' : Registry) : Prop where
  sound : reg'.Sound
  refs : ∀ r, reg.graph.HasRef r → reg'.graph.HasRef r
  own : reg'.ref? pkg name = some target
  others : ∀ q n, (q, n) ≠ (pkg, name) → reg'.ref? q n = reg.ref? q n
  moved : ∀ (v : View) x existing, reg.ref? pkg name = some existing → reg.graph.HasRef x →
    v.of reg.graph x = reg.graph.namedRoot existing → v.of reg'.graph x = v.of reg.graph target
  stayed : ∀ (v : View) x, reg.graph.HasRef x → (∀ existing, reg.ref? pkg name = some existing →
    v.of reg.graph x ≠ reg.graph.namedRoot existing) → v.of reg'.graph x = v.of reg.graph x
  apart : ∀ (v : View) existing, reg.ref? pkg name = some existing →
    v.of reg.graph target ≠ reg.graph.namedRoot existing
  names : ∀ x e, reg.graph.entryAt? x = some (.named e) →
    (∀ existing, reg.ref? pkg name = some existing → x ≠ reg.graph.namedRoot existing) →
    ∃ methods, reg'.graph.entryAt? x = some (.named { e with methods })
  decorated : ∀ r d inner, reg.graph.entryAt? r = some (.decorated d inner) →
    reg'.graph.entryAt? r = some (.decorated d inner)
  types : reg'.graph.types = reg.graph.types
  listed : ∀ q n, reg'.listed? q n = reg.listed? q n
  identity : ∀ q p, reg.package? q = some p → ∃ p', reg'.package? q = some p' ∧
    p'.name = p.name ∧ p'.importPath = p.importPath

theorem ref?_register_of_key_ne {pkg : PackageId} {name : String} {q : PackageId} {n : String}
    (h : (q, n) ≠ (pkg, name)) (reg : Registry) (r : RefId) :
    (reg.register pkg name r).ref? q n = reg.ref? q n := by
  by_cases hq : pkg = q
  · subst hq
    exact ref?_register_of_ne (fun hn => h (by rw [hn])) reg pkg r
  · exact ref?_modifyPackage_of_ne hq reg _ n

theorem renamed_unused (hr : reg.Sound) {pkg : PackageId} {p : Package}
    (hp : reg.package? pkg = some p) {name : String} {target : RefId}
    (ht : reg.graph.HasRef target) (hnone : reg.ref? pkg name = none) :
    Renamed reg pkg name target (reg.register pkg name target) where
  sound := hr.register ht pkg name
  refs _ h := h
  own := ref?_register_self hp name target
  others _ _ h := ref?_register_of_key_ne h reg target
  moved _ _ _ h := by rw [hnone] at h; cases h
  stayed _ _ _ _ := rfl
  apart _ _ h := by rw [hnone] at h; cases h
  names _ e he _ := ⟨e.methods, he⟩
  decorated _ _ _ he := he
  types := rfl
  listed := listed?_modifyPackage reg pkg fun _ => rfl
  identity := identity_modifyPackage reg pkg fun _ => ⟨rfl, rfl⟩

theorem renamed_used (hr : reg.Sound) {pkg : PackageId} {p : Package}
    (hp : reg.package? pkg = some p) {name : String} {target existing : RefId}
    (ht : reg.graph.HasRef target) (hex : reg.ref? pkg name = some existing) {g : TypeGraph}
    (hg : reg.graph.aliasTo? existing target = some g) :
    Renamed reg pkg name target (Registry.register { reg with graph := g } pkg name target) := by
  have hhas := hr.refs _ _ _ hex
  have hgr := TypeGraph.reachable_grounded hr.graph
  have hne := (aliasTo?_merges hr hhas ht hg).2
  obtain ⟨g', hg', heffect, hentries⟩ := TypeGraph.aliasTo?_of_ne hr.graph hhas ht hne
  obtain rfl := Option.some.inj (hg.symm.trans hg')
  have hnext : reg.graph.next (.aliasTo existing target) = g := by rw [TypeGraph.next, hg]; rfl
  have hstep := hr.step (.aliasTo existing target) ⟨hhas, ht⟩
  have hcount := TypeGraph.refCount_le_next reg.graph (.aliasTo existing target)
  rw [hnext] at hstep hcount
  have hp' : Registry.package? { reg with graph := g } pkg = some p := hp
  have hunique : ∀ s, reg.ref? pkg name = some s → s = existing := fun s hs =>
    Option.some.inj (hs.symm.trans hex)
  constructor
  case sound => exact hstep.register (Nat.lt_of_lt_of_le ht hcount) pkg name
  case refs => exact fun r hr => Nat.lt_of_lt_of_le hr hcount
  case own => exact ref?_register_self hp' name target
  case others => exact fun q n h => ref?_register_of_key_ne h _ target
  case moved =>
    intro v x s hs hx heq
    obtain rfl := hunique s hs
    exact (v.of_aliased heffect rfl hx).trans (if_pos heq)
  case stayed => exact fun v x hx h => (v.of_aliased heffect rfl hx).trans (if_neg (h existing hex))
  case apart =>
    intro v s hs heq
    obtain rfl := hunique s hs
    cases v with
    | core => exact hne heq
    | whole =>
      obtain ⟨_, _, e, _, he, _⟩ := hr.named hhas
      have hroot := TypeGraph.hasRef_of_entryAt? he
      have hc := heq.trans (TypeGraph.canonical_of_named he).symm
      exact hne ((View.of_eq .core hgr ht hroot hc).trans (TypeGraph.namedRoot_of_named he))
  case names =>
    intro x e he hx
    have hentry := hentries.names x e he (hx existing hex)
    split at hentry
    · exact ⟨_, hentry⟩
    · exact ⟨e.methods, hentry⟩
  case decorated => exact hentries.decorated
  case types => exact heffect.types_kept
  case listed => exact listed?_modifyPackage { reg with graph := g } pkg fun _ => rfl
  case identity => exact identity_modifyPackage { reg with graph := g } pkg fun _ => ⟨rfl, rfl⟩

theorem rename?_effect (hr : reg.Sound) {pkg : PackageId} (hp : ∃ p, reg.package? pkg = some p)
    {name : String} {target : RefId} (ht : reg.graph.HasRef target)
    (h : reg.rename? pkg name target = some reg') : Renamed reg pkg name target reg' := by
  obtain ⟨p, hp⟩ := hp
  unfold rename? at h
  cases hex : reg.ref? pkg name with
  | none =>
    rw [hex] at h
    obtain rfl := Option.some.inj h
    exact renamed_unused hr hp ht hex
  | some existing =>
    rw [hex] at h
    obtain ⟨g, hg, rfl⟩ := Option.map_eq_some_iff.mp h
    exact renamed_used hr hp ht hex hg

theorem Renamed.leads (h : Renamed reg pkg name target reg') (hr : reg.Sound)
    (ht : reg.graph.HasRef target) : Leads reg reg' where
  sound := h.sound
  refs := h.refs
  views v x y hx hy heq := by
    by_cases hex : ∃ existing, reg.ref? pkg name = some existing ∧
        v.of reg.graph x = reg.graph.namedRoot existing
    · obtain ⟨existing, href, hroot⟩ := hex
      rw [h.moved v x existing href hx hroot, h.moved v y existing href hy (heq.symm.trans hroot)]
    · have hstay : ∀ existing, reg.ref? pkg name = some existing →
          v.of reg.graph x ≠ reg.graph.namedRoot existing :=
        fun existing href hroot => hex ⟨existing, href, hroot⟩
      rw [h.stayed v x hx hstay, h.stayed v y hy fun existing href => heq ▸ hstay existing href]
      exact heq
  decorated := h.decorated
  tables q n r href := by
    by_cases hkey : (q, n) = (pkg, name)
    · obtain ⟨rfl, rfl⟩ := Prod.mk.inj hkey
      refine ⟨target, h.own, ?_⟩
      have hmoved := h.moved .core r r href (hr.refs _ _ _ href) rfl
      exact hmoved.trans (h.stayed .core target ht (h.apart .core)).symm
    · exact ⟨r, (h.others q n hkey).trans href, rfl⟩
  identity := h.identity

/-- Over any course, whatever is declared and how often. -/
theorem Course.leads {named : List Naming} (h : Course reg named reg') (hr : reg.Sound) :
    Leads reg reg' := by
  induction h with
  | refl => exact .refl hr
  | adds _ ha ih => exact ih.trans (ha.leads ih.sound) hr
  | define name kind _ _ ih => exact ih.trans (leads_declare ih.sound _ name kind) hr
  | rename _ hp ht hren ih =>
    exact ih.trans ((rename?_effect ih.sound hp ht hren).leads ih.sound ht) hr

theorem Course.ref?_of_declared {named : List Naming} (h : Course reg named reg') (hr : reg.Sound)
    {d : Naming} (hd : d ∈ named) : ∃ s, reg'.ref? d.package d.name = some s := by
  induction h with
  | refl => cases hd
  | adds hc ha ih =>
    obtain ⟨s, hs⟩ := ih hd
    exact ⟨s, ha.spares.refs _ _ s hs⟩
  | define name kind hc hp ih =>
    rcases List.mem_append.mp hd with hold | hself
    · obtain ⟨s, hs⟩ := ih hold
      obtain ⟨s', hs', -⟩ := (leads_declare (hc.leads hr).sound _ name kind).tables _ _ s hs
      exact ⟨s', hs'⟩
    · obtain rfl := List.mem_singleton.mp hself
      obtain ⟨p, hp⟩ := hp
      exact ⟨_, (declare_ref? _ _ name kind _ _).trans (introduce_ref? hp)⟩
  | rename hc hp ht hren ih =>
    have hmid := (hc.leads hr).sound
    have heffect := rename?_effect hmid hp ht hren
    rcases List.mem_append.mp hd with hold | hself
    · obtain ⟨s, hs⟩ := ih hold
      obtain ⟨s', hs', -⟩ := (heffect.leads hmid ht).tables _ _ s hs
      exact ⟨s', hs'⟩
    · obtain rfl := List.mem_singleton.mp hself
      exact ⟨_, heffect.own⟩

end Leads

end GoPackages.Registry
