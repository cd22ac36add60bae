import GoPackages.Proofs.Registry.WellFormed
import GoPackages.Proofs.TypeGraph.Alias

/-!
# The edits of a registry

The single changes that the analysis of declarations makes, each of them on what exists. An
edit lets everything exist on and keeps the registry well-formed.
-/
namespace GoPackages

open Source (GroupKind)

theorem DeclList.mem_replace {a b c : TypeId} {l : List TypeId} (h : c ∈ l.replace a b) :
    c ∈ l ∨ c = b := by
  induction l with
  | nil => cases h
  | cons d rest ih =>
    rw [List.replace_cons] at h
    split at h
    · exact (List.mem_cons.mp h).symm.imp_left (List.mem_cons_of_mem d)
    · rcases List.mem_cons.mp h with rfl | h
      · exact .inl List.mem_cons_self
      · exact (ih h).imp_left (List.mem_cons_of_mem d)

theorem DeclList.All.declare {P : TypeId → Prop} {d : DeclList} (h : d.All P) {ty : TypeId}
    (ht : P ty) (name : String) : (d.declare name ty).All P := by
  constructor
  · intro t hmem
    cases hget : d.get? name with
    | none =>
      rw [ids_declare_of_none hget, List.mem_append, List.mem_singleton] at hmem
      exact hmem.elim (h.1 t) fun heq => heq ▸ ht
    | some previous =>
      rw [ids_declare_of_some hget] at hmem
      exact (mem_replace hmem).elim (h.1 t) fun heq => heq ▸ ht
  · intro n t hmem
    rw [byName_declare] at hmem
    rcases OrderedMap.mem_entries_insert hmem with hmem | ⟨-, rfl⟩
    · exact h.2 n t hmem
    · exact ht

def TypeKind.interfaces : TypeKind → List TypeId
  | .struct type => type.interfaces
  | .base | .interface _ | .method _ | .map _ => []

namespace Registry

section Stores

variable {reg : Registry}

theorem retains_of_graph {g : TypeGraph} (hrefs : ∀ r, reg.graph.HasRef r → g.HasRef r)
    (htypes : ∀ ty data, reg.graph.typeAt? ty = some data → ∃ data',
      g.typeAt? ty = some data' ∧ data'.name = data.name ∧ data'.kind.form = data.kind.form) :
    Retains reg { reg with graph := g } :=
  ⟨hrefs, htypes, fun _ h => h⟩

theorem retains_addRef (reg : Registry) (e : RefEntry) :
    Retains reg { reg with graph := (reg.graph.addRef e).2 } := by
  refine retains_of_graph (fun r hr => ?_) fun _ data hd => ⟨data, hd, rfl, rfl⟩
  exact Nat.lt_of_lt_of_eq (Nat.lt_succ_of_lt hr) (TypeGraph.refCount_addRef _ e).symm

theorem WellFormed.addRef (hr : reg.WellFormed) {e : RefEntry} (he : reg.EntryFits e) :
    WellFormed { reg with graph := (reg.graph.addRef e).2 } := by
  have h := retains_addRef reg e
  refine hr.of_changes h (fun r e' he' => ?_) (fun _ _ hd => .inl hd) fun _ _ hp => .inl hp
  rcases TypeGraph.entryAt?_addRef_cases he' with hold | rfl
  · exact .inl hold
  · exact .inr (h.entryFits he)

theorem retains_addType (reg : Registry) (data : TypeData) :
    Retains reg { reg with graph := (reg.graph.addType data).2 } := by
  refine retains_of_graph (fun _ hr => hr) fun ty old hd => ⟨old, ?_, rfl, rfl⟩
  exact (TypeGraph.typeAt?_addType_of_lt (TypeGraph.hasType_of_typeAt? hd) data).trans hd

theorem WellFormed.addType (hr : reg.WellFormed) {data : TypeData} (hd : reg.TypeFits data) :
    WellFormed { reg with graph := (reg.graph.addType data).2 } := by
  have h := retains_addType reg data
  refine hr.of_changes h (fun _ _ he => .inl he) (fun ty data' hd' => ?_) fun _ _ hp => .inl hp
  rcases TypeGraph.typeAt?_addType_cases hd' with hold | rfl
  · exact .inl hold
  · exact .inr (h.typeFits hd)

theorem retains_modifyType (reg : Registry) (ty : TypeId) {f : TypeData → TypeData}
    (hf : ∀ data, (f data).name = data.name ∧ (f data).kind.form = data.kind.form) :
    Retains reg { reg with graph := reg.graph.modifyType ty f } := by
  refine retains_of_graph (fun _ hr => hr) fun t data hd => ?_
  rw [TypeGraph.typeAt?_modifyType, hd]
  refine ⟨_, rfl, ?_⟩
  split
  · exact hf data
  · exact ⟨rfl, rfl⟩

theorem WellFormed.modifyType (hr : reg.WellFormed) (ty : TypeId) {f : TypeData → TypeData}
    (hkeep : ∀ data, (f data).name = data.name ∧ (f data).kind.form = data.kind.form)
    (hf : ∀ data, reg.TypeFits data → reg.TypeFits (f data)) :
    WellFormed { reg with graph := reg.graph.modifyType ty f } := by
  have h := retains_modifyType reg ty hkeep
  refine hr.of_changes h (fun _ _ he => .inl he) (fun t data hd => ?_) fun _ _ hp => .inl hp
  rw [TypeGraph.typeAt?_modifyType] at hd
  obtain ⟨old, hold, rfl⟩ := Option.map_eq_some_iff.mp hd
  split
  · exact .inr (h.typeFits (hf old (hr.types t old hold)))
  · exact .inl hold

theorem retains_modifyNamed (reg : Registry) (r : RefId) (f : NamedRef → NamedRef) :
    Retains reg { reg with graph := reg.graph.modifyNamed r f } :=
  retains_of_graph (fun _ hr => Nat.lt_of_lt_of_eq hr (TypeGraph.refCount_modifyNamed _ r f).symm)
    fun _ data hd => ⟨data, hd, rfl, rfl⟩

theorem WellFormed.modifyNamed (hr : reg.WellFormed) (r : RefId) {f : NamedRef → NamedRef}
    (hf : ∀ e, reg.EntryFits (.named e) → reg.EntryFits (.named (f e))) :
    WellFormed { reg with graph := reg.graph.modifyNamed r f } := by
  have h := retains_modifyNamed reg r f
  refine hr.of_changes h (fun x e he => ?_) (fun _ _ hd => .inl hd) fun _ _ hp => .inl hp
  change (reg.graph.modifyNamed r f).entryAt? x = some e at he
  rw [TypeGraph.entryAt?_modifyNamed] at he
  split at he
  next e₀ he₀ =>
    obtain rfl := Option.some.inj he
    split
    · exact .inr (h.entryFits (hf e₀ (hr.entries x _ he₀)))
    · exact .inl he₀
  next => exact .inl he

theorem retains_modifyPackage (reg : Registry) (q : PackageId) (f : Package → Package) :
    Retains reg (reg.modifyPackage q f) where
  refs _ h := h
  types _ data h := ⟨data, h, rfl, rfl⟩
  packages _ hp := by
    obtain ⟨p, hp⟩ := hp
    exact ⟨_, package?_modifyPackage_of_some hp f⟩

theorem package?_modifyPackage_cases {q other : PackageId} {f : Package → Package} {p : Package}
    (h : (reg.modifyPackage q f).package? other = some p) :
    reg.package? other = some p ∨ ∃ old, reg.package? other = some old ∧ p = f old := by
  by_cases hq : q = other
  · subst hq
    cases hp : reg.package? q with
    | none =>
      have hi : reg.packages[q.index]? = none := hp
      simp [package?, modifyPackage, Array.getElem?_modify, hi] at h
    | some old =>
      rw [package?_modifyPackage_self hp] at h
      exact .inr ⟨old, rfl, (Option.some.inj h).symm⟩
  · exact .inl ((package?_modifyPackage_of_ne hq reg f).symm.trans h)

theorem WellFormed.modifyPackage (hr : reg.WellFormed) (q : PackageId) {f : Package → Package}
    (hf : ∀ p, reg.PackageFits p → reg.PackageFits (f p)) : (reg.modifyPackage q f).WellFormed := by
  have h := retains_modifyPackage reg q f
  refine hr.of_changes h (fun _ _ he => .inl he) (fun _ _ hd => .inl hd) fun other p hp => ?_
  rcases package?_modifyPackage_cases hp with hold | ⟨old, hold, rfl⟩
  · exact .inl hold
  · exact .inr (h.packageFits (hf old (hr.packages other old hold)))

theorem WellFormed.register (hr : reg.WellFormed) {r : RefId} (href : reg.graph.HasRef r)
    (q : PackageId) (name : String) : (reg.register q name r).WellFormed := by
  refine hr.modifyPackage q fun p hp => { hp with refs := fun n s hmem => ?_ }
  rcases OrderedMap.mem_entries_insert hmem with hmem | ⟨-, rfl⟩
  · exact hp.refs n s hmem
  · exact href

end Stores

section Names

variable {reg : Registry}

theorem WellFormed.hasRef_follow (hr : reg.WellFormed) (steps : Nat) {r : RefId}
    (href : reg.graph.HasRef r) : reg.graph.HasRef (reg.graph.follow RefEntry.inner? steps r) := by
  induction steps generalizing r with
  | zero => exact href
  | succ n ih =>
    rw [TypeGraph.follow]
    split
    next s hs =>
      obtain ⟨e, he, hinner⟩ := Option.bind_eq_some_iff.mp hs
      have hfits := hr.entries r e he
      refine ih ?_
      cases e with
      | named e => cases hinner
      | decorated d inner => exact Option.some.inj hinner ▸ hfits
      | aliasOf target => exact Option.some.inj hinner ▸ hfits
    next => exact href

theorem WellFormed.hasRef_namedRoot (hr : reg.WellFormed) {r : RefId}
    (href : reg.graph.HasRef r) : reg.graph.HasRef (reg.graph.namedRoot r) :=
  hr.hasRef_follow _ href

theorem WellFormed.refMethods (hr : reg.WellFormed) (r : RefId) :
    reg.graph.MethodsFit (reg.graph.refMethods r) := by
  cases hn : reg.graph.named? r with
  | none =>
    intro n m hm
    rw [TypeGraph.refMethods, hn] at hm
    cases hm
  | some e =>
    have hfits := hr.entries _ _ (TypeGraph.entryAt?_namedRoot hn)
    rw [TypeGraph.refMethods, hn]
    exact hfits.2.2

theorem retains_addMethod (reg : Registry) (r : RefId) (m : TypeId) :
    Retains reg { reg with graph := (reg.graph.addMethod r m).2 } := by
  unfold TypeGraph.addMethod
  split
  · exact .refl reg
  · exact retains_modifyNamed reg _ _

theorem methodsFit_insert {g : TypeGraph} {methods : MethodSet} (h : g.MethodsFit methods)
    {m : TypeId} (hm : g.form? m = some .method) {n : String}
    (hn : (g.typeAt? m).map TypeData.name = some n) : g.MethodsFit (methods.insert n m) := by
  intro n' m' hmem
  rcases OrderedMap.mem_entries_insert hmem with hmem | ⟨rfl, rfl⟩
  · exact h n' m' hmem
  · exact ⟨hm, hn⟩

theorem WellFormed.addMethod (hr : reg.WellFormed) (r : RefId) {m : TypeId}
    (hm : reg.graph.form? m = some .method) :
    WellFormed { reg with graph := (reg.graph.addMethod r m).2 } := by
  cases hd : reg.graph.typeAt? m with
  | none => simpa only [TypeGraph.addMethod, hd] using hr
  | some data =>
    simp only [TypeGraph.addMethod, hd]
    refine hr.modifyNamed _ fun e he => ⟨he.1, he.2.1, methodsFit_insert he.2.2 hm ?_⟩
    rw [hd]
    rfl

theorem addMethods_wellFormed (r : RefId) (methods : List TypeId) {g : TypeGraph}
    (hr : WellFormed { reg with graph := g }) (hm : ∀ m ∈ methods, g.form? m = some .method) :
    Retains { reg with graph := g } { reg with graph := g.addMethods r methods } ∧
      WellFormed { reg with graph := g.addMethods r methods } := by
  induction methods generalizing g with
  | nil => exact ⟨.refl _, hr⟩
  | cons m rest ih =>
    have hkeep := retains_addMethod { reg with graph := g } r m
    have hfirst := hr.addMethod r (hm m List.mem_cons_self)
    obtain ⟨hrest, hwell⟩ := ih (g := (g.addMethod r m).2) hfirst
      fun m' hm' => hkeep.form? (hm m' (List.mem_cons_of_mem m hm'))
    exact ⟨hkeep.trans hrest, hwell⟩

theorem retains_redirect (reg : Registry) (root target : RefId) :
    Retains reg { reg with graph := reg.graph.redirect root target } :=
  retains_of_graph (fun _ hr => Nat.lt_of_lt_of_eq hr (TypeGraph.refCount_redirect _ _ _).symm)
    fun _ data hd => ⟨data, hd, rfl, rfl⟩

theorem WellFormed.redirect (hr : reg.WellFormed) (root : RefId) {target : RefId}
    (ht : reg.graph.HasRef target) :
    WellFormed { reg with graph := reg.graph.redirect root target } := by
  have h := retains_redirect reg root target
  refine hr.of_changes h (fun x e he => ?_) (fun _ _ hd => .inl hd) fun _ _ hp => .inl hp
  by_cases hx : root = x
  · subst hx
    have hself : reg.graph.HasRef root :=
      Nat.lt_of_lt_of_eq (TypeGraph.hasRef_of_entryAt? he) (TypeGraph.refCount_redirect _ _ _)
    rw [TypeGraph.entryAt?_redirect_self hself] at he
    obtain rfl := Option.some.inj he
    exact .inr (h.refs target ht)
  · exact .inl ((TypeGraph.entryAt?_redirect_of_ne hx _ _).symm.trans he)

theorem aliasTo?_wellFormed (hr : reg.WellFormed) {r target : RefId}
    (ht : reg.graph.HasRef target) {graph : TypeGraph}
    (h : reg.graph.aliasTo? r target = some graph) :
    Retains reg { reg with graph } ∧ WellFormed { reg with graph } := by
  rw [TypeGraph.aliasTo?_eq] at h
  split at h
  · cases h
  · obtain rfl := Option.some.inj h
    have hkeep := retains_redirect reg (reg.graph.namedRoot r) target
    have hmid := hr.redirect (reg.graph.namedRoot r) ht
    obtain ⟨hmoved, hwell⟩ := addMethods_wellFormed target
      (reg.graph.refMethods (reg.graph.namedRoot r)).values hmid fun m hm => by
        obtain ⟨⟨n, _⟩, hmem, rfl⟩ := List.mem_map.mp hm
        exact hkeep.form? (hr.refMethods _ n _ hmem).1
    exact ⟨hkeep.trans hmoved, hwell⟩

theorem bind_wellFormed (hr : reg.WellFormed) {r : RefId} {ty : TypeId}
    (href : reg.graph.HasRef r) (hty : reg.graph.HasType ty) :
    Retains reg (reg.withGraph fun g => (g.bind r ty).2) ∧
      (reg.withGraph fun g => (g.bind r ty).2).WellFormed := by
  let bound : Registry :=
    reg.withGraph fun g => g.modifyNamed (g.namedRoot r) fun e => { e with type := some ty }
  let own : TypeData → TypeData := fun data =>
    if data.kind.isDefined then { data with declaredBy := some (reg.graph.namedRoot r) } else data
  have hbound : bound.WellFormed := by
    refine hr.modifyNamed _ fun e he => ⟨he.1, fun t ht => ?_, he.2.2⟩
    exact Option.some.inj ht ▸ hty
  have hkeep : Retains reg bound := retains_modifyNamed reg _ _
  have howner : ∀ data, (own data).name = data.name ∧ (own data).kind.form = data.kind.form := by
    intro data
    unfold own
    split <;> exact ⟨rfl, rfl⟩
  refine ⟨hkeep.trans (retains_modifyType bound ty howner), hbound.modifyType ty howner ?_⟩
  intro data hd
  split
  · refine ⟨hd.package, hd.kind, fun s hs => ?_⟩
    exact Option.some.inj hs ▸ hkeep.refs _ (hr.hasRef_namedRoot href)
  · exact hd

end Names

inductive Edit : Registry → Registry → Prop where
  | ensureRef {reg : Registry} {q : PackageId} (hq : reg.Registered q) (name : String) :
      Edit reg (reg.ensureRef q name).2
  /-- What a struct implements is recorded later than it is made. -/
  | addType {reg : Registry} {data : TypeData} (hd : reg.TypeFits data)
      (hl : data.kind.interfaces = []) : Edit reg (reg.onGraph (·.addType data)).2
  | fresh {reg : Registry} {q : PackageId} {ty : TypeId} (hq : reg.Registered q)
      (ht : reg.graph.HasType ty) (name : String) :
      Edit reg (reg.onGraph (·.fresh (some q) name ty)).2
  | decorate {reg : Registry} {inner : RefId} (hr : reg.graph.HasRef inner) (d : Decorator) :
      Edit reg (reg.onGraph (·.decorate d inner)).2
  | addFields {reg : Registry} {fields : List StructField}
      (hf : ∀ f ∈ fields, reg.graph.HasRef f.type) (ty : TypeId) :
      Edit reg (reg.withGraph (·.addFields ty fields))
  | addInterfaceMethod {reg : Registry} {name : String} {m : TypeId}
      (hm : reg.graph.form? m = some .method)
      (hn : (reg.graph.typeAt? m).map TypeData.name = some name) (ty : TypeId) :
      Edit reg (reg.withGraph fun g => (g.addInterfaceMethod ty name m).2)
  | bind {reg : Registry} {r : RefId} {ty : TypeId} (hr : reg.graph.HasRef r)
      (ht : reg.graph.HasType ty) : Edit reg (reg.withGraph fun g => (g.bind r ty).2)
  | addMethod {reg : Registry} {m : TypeId} (hm : reg.graph.form? m = some .method) (r : RefId) :
      Edit reg (reg.withGraph fun g => (g.addMethod r m).2)
  | aliasTo {reg : Registry} {r target : RefId} {graph : TypeGraph}
      (ht : reg.graph.HasRef target) (h : reg.graph.aliasTo? r target = some graph) :
      Edit reg { reg with graph }
  | register {reg : Registry} {r : RefId} (hr : reg.graph.HasRef r) (q : PackageId)
      (name : String) : Edit reg (reg.register q name r)
  | listType {reg : Registry} {ty : TypeId} {kind : TypeKind}
      (ht : reg.graph.form? ty = some kind.form) (q : PackageId) (name : String) :
      Edit reg (reg.modifyPackage q (·.declareKind name ty kind))
  | listFunction {reg : Registry} {ty : TypeId} (ht : reg.graph.form? ty = some .method)
      (q : PackageId) (name : String) :
      Edit reg (reg.modifyPackage q (·.declareFunction name ty))
  | listValue {reg : Registry} {v : Variable} (hv : ∀ r, v.type = some r → reg.graph.HasRef r)
      (q : PackageId) (kind : GroupKind) : Edit reg (listValue reg q kind v)

variable {reg reg' : Registry}

theorem hasType_of_form? {g : TypeGraph} {ty : TypeId} {form : TypeForm}
    (h : g.form? ty = some form) : g.HasType ty := by
  obtain ⟨data, hd, -⟩ := Option.map_eq_some_iff.mp h
  exact TypeGraph.hasType_of_typeAt? hd

theorem ensureRef_wellFormed (hr : reg.WellFormed) {q : PackageId} (hq : reg.Registered q)
    (name : String) :
    Retains reg (reg.ensureRef q name).2 ∧ (reg.ensureRef q name).2.WellFormed := by
  cases href : reg.ref? q name with
  | some r =>
    rw [ensureRef_of_some href]
    exact ⟨.refl reg, hr⟩
  | none =>
    simp only [ensureRef, href]
    have hnew : reg.EntryFits (.named { name, package := some q }) :=
      ⟨fun p hp => Option.some.inj hp ▸ hq, fun _ h => (by cases h), fun _ _ h => (by cases h)⟩
    have hself := TypeGraph.entryAt?_addRef_self reg.graph (.named { name, package := some q })
    refine ⟨(retains_addRef reg _).trans (retains_modifyPackage _ q _), ?_⟩
    exact (hr.addRef hnew).register (TypeGraph.hasRef_of_entryAt? hself) q name

theorem modifyStruct_wellFormed (hr : reg.WellFormed) (ty : TypeId) {f : StructType → StructType}
    (hf : ∀ type, reg.graph.KindFits (.struct type) → reg.graph.KindFits (.struct (f type))) :
    Retains reg { reg with graph := reg.graph.modifyStruct ty f } ∧
      WellFormed { reg with graph := reg.graph.modifyStruct ty f } := by
  refine ⟨retains_modifyType reg ty fun data => ?_, hr.modifyType ty (fun data => ?_) ?_⟩
  · split <;> simp_all [TypeKind.form]
  · split <;> simp_all [TypeKind.form]
  · intro data hd
    split
    next type hk =>
      have hfits : reg.graph.KindFits (.struct type) := hk ▸ hd.kind
      exact ⟨hd.package, hf type hfits, hd.declaredBy⟩
    next => exact hd

theorem structFits_addFields {g : TypeGraph} {type : StructType} {fields : List StructField}
    (h : g.KindFits (.struct type)) (hf : ∀ f ∈ fields, g.HasRef f.type) :
    g.KindFits (.struct { type with fields := type.fields ++ fields }) :=
  ⟨fun f hmem => (List.mem_append.mp hmem).elim (h.1 f) (hf f), h.2⟩

theorem packageFits_declareKind {p : Package} (hp : reg.PackageFits p) {ty : TypeId}
    {kind : TypeKind} (ht : reg.graph.form? ty = some kind.form) (name : String) :
    reg.PackageFits (p.declareKind name ty kind) := by
  have hall := hp.types.declare (hasType_of_form? ht) name
  cases kind with
  | struct => exact { hp with types := hall, structs := hp.structs.declare ht name }
  | interface => exact { hp with types := hall, interfaces := hp.interfaces.declare ht name }
  | base | method | map => exact { hp with types := hall }

theorem valuesFit_insert {values : OrderedMap Variable} (h : reg.ValuesFit values) {v : Variable}
    (hv : ∀ r, v.type = some r → reg.graph.HasRef r) : reg.ValuesFit (values.insert v.name v) := by
  intro n w hmem
  rcases OrderedMap.mem_entries_insert hmem with hmem | ⟨-, rfl⟩
  · exact h n w hmem
  · exact hv

/-- An edit takes nothing away and leaves the registry well-formed. -/
theorem Edit.wellFormed (h : Edit reg reg') (hr : reg.WellFormed) :
    Retains reg reg' ∧ reg'.WellFormed := by
  cases h with
  | ensureRef hq name => exact ensureRef_wellFormed hr hq name
  | addType hd hl => exact ⟨retains_addType reg _, hr.addType hd⟩
  | fresh hq ht name =>
    refine ⟨retains_addRef reg _, hr.addRef ⟨?_, ?_, fun _ _ hm => by cases hm⟩⟩
    · exact fun q h => Option.some.inj h ▸ hq
    · exact fun ty h => Option.some.inj h ▸ ht
  | decorate href d => exact ⟨retains_addRef reg _, hr.addRef href⟩
  | addFields hf ty =>
    exact modifyStruct_wellFormed hr ty fun type hfits => structFits_addFields hfits hf
  | addInterfaceMethod hm hn ty =>
    refine ⟨retains_modifyType reg ty fun data => ?_, hr.modifyType ty (fun data => ?_) ?_⟩
    · split <;> simp_all [TypeKind.form]
    · split <;> simp_all [TypeKind.form]
    · intro data hd
      split
      next type hk =>
        have hfits : reg.graph.MethodsFit type.methods := by
          have := hd.kind
          rwa [hk] at this
        exact ⟨hd.package, methodsFit_insert hfits hm hn, hd.declaredBy⟩
      next => exact hd
  | bind href ht => exact bind_wellFormed hr href ht
  | addMethod hm r => exact ⟨retains_addMethod reg r _, hr.addMethod r hm⟩
  | aliasTo ht h => exact aliasTo?_wellFormed hr ht h
  | register href q name => exact ⟨retains_modifyPackage reg q _, hr.register href q name⟩
  | listType ht q name =>
    refine ⟨retains_modifyPackage reg q _, hr.modifyPackage q fun p hp => ?_⟩
    exact packageFits_declareKind hp ht name
  | listFunction ht q name =>
    refine ⟨retains_modifyPackage reg q _, hr.modifyPackage q fun p hp => ?_⟩
    exact { hp with functions := hp.functions.declare ht name }
  | listValue hv q kind =>
    refine ⟨retains_modifyPackage reg q _, hr.modifyPackage q fun p hp => ?_⟩
    split
    · exact { hp with consts := valuesFit_insert hp.consts hv }
    · exact { hp with vars := valuesFit_insert hp.vars hv }

def Edits : Registry → Registry → Prop := Relation.ReflTransGen Edit

theorem Edits.wellFormed (h : Edits reg reg') (hr : reg.WellFormed) :
    Retains reg reg' ∧ reg'.WellFormed := by
  induction h with
  | refl => exact ⟨.refl reg, hr⟩
  | tail _ h ih =>
    obtain ⟨hkeep, hwell⟩ := h.wellFormed ih.2
    exact ⟨ih.1.trans hkeep, hwell⟩

end Registry

end GoPackages
