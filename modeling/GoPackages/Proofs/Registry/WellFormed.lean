import GoPackages.Proofs.Registry.Actions

/-!
# Well-formed registries

Whatever a registry stores by its identity is there: references, types and packages. Lists
hold types of their kind, and method sets hold methods under their own names. All of this
is kept by every single edit of a registry, so also half way through a declaration.
-/
namespace GoPackages

open Source (GroupKind)

/-- The kind of a type without what it refers to. -/
inductive TypeForm where
  | base
  | struct
  | interface
  | method
  | map
  deriving DecidableEq, Repr

def TypeKind.form : TypeKind → TypeForm
  | .base => .base
  | .struct _ => .struct
  | .interface _ => .interface
  | .method _ => .method
  | .map _ => .map

def TypeGraph.form? (g : TypeGraph) (ty : TypeId) : Option TypeForm :=
  (g.typeAt? ty).map (·.kind.form)

def TypeGraph.MethodsFit (g : TypeGraph) (methods : MethodSet) : Prop :=
  ∀ n m, (n, m) ∈ methods.entries →
    g.form? m = some .method ∧ (g.typeAt? m).map TypeData.name = some n

def TypeGraph.KindFits (g : TypeGraph) : TypeKind → Prop
  | .base => True
  | .struct type => (∀ f ∈ type.fields, g.HasRef f.type) ∧ ∀ ty ∈ type.interfaces, g.HasType ty
  | .interface type => g.MethodsFit type.methods
  | .method type => (∀ a, type.receiver = some a → g.HasRef a.type) ∧
      (∀ a ∈ type.arguments, g.HasRef a.type) ∧ ∀ a ∈ type.results, g.HasRef a.type
  | .map type => g.HasRef type.key ∧ g.HasRef type.value

def DeclList.All (P : TypeId → Prop) (d : DeclList) : Prop :=
  (∀ ty ∈ d.ids, P ty) ∧ ∀ n ty, (n, ty) ∈ d.byName.entries → P ty

namespace Registry

def Registered (reg : Registry) (q : PackageId) : Prop := ∃ p, reg.package? q = some p

def EntryFits (reg : Registry) : RefEntry → Prop
  | .named e => (∀ q, e.package = some q → reg.Registered q) ∧
      (∀ ty, e.type = some ty → reg.graph.HasType ty) ∧ reg.graph.MethodsFit e.methods
  | .decorated _ inner => reg.graph.HasRef inner
  | .aliasOf target => reg.graph.HasRef target

structure TypeFits (reg : Registry) (data : TypeData) : Prop where
  package : ∀ q, data.package = some q → reg.Registered q
  kind : reg.graph.KindFits data.kind
  declaredBy : ∀ r, data.declaredBy = some r → reg.graph.HasRef r

def ValuesFit (reg : Registry) (values : OrderedMap Variable) : Prop :=
  ∀ n v, (n, v) ∈ values.entries → ∀ r, v.type = some r → reg.graph.HasRef r

structure PackageFits (reg : Registry) (p : Package) : Prop where
  functions : p.functions.All fun ty => reg.graph.form? ty = some .method
  structs : p.structs.All fun ty => reg.graph.form? ty = some .struct
  interfaces : p.interfaces.All fun ty => reg.graph.form? ty = some .interface
  types : p.types.All reg.graph.HasType
  vars : reg.ValuesFit p.vars
  consts : reg.ValuesFit p.consts
  refs : ∀ n r, (n, r) ∈ p.refs.entries → reg.graph.HasRef r
  parent : ∀ q, p.parent = some q → reg.Registered q
  subpackages : ∀ q ∈ p.subpackages, reg.Registered q

structure WellFormed (reg : Registry) : Prop where
  emptyInterface : reg.graph.HasRef TypeGraph.emptyInterface
  entries : ∀ r e, reg.graph.entryAt? r = some e → reg.EntryFits e
  types : ∀ ty data, reg.graph.typeAt? ty = some data → reg.TypeFits data
  packages : ∀ q p, reg.package? q = some p → reg.PackageFits p

/-- What exists goes on to exist, types with their names and forms. -/
structure Retains (reg reg' : Registry) : Prop where
  refs : ∀ r, reg.graph.HasRef r → reg'.graph.HasRef r
  types : ∀ ty data, reg.graph.typeAt? ty = some data → ∃ data',
    reg'.graph.typeAt? ty = some data' ∧ data'.name = data.name ∧ data'.kind.form = data.kind.form
  packages : ∀ q, reg.Registered q → reg'.Registered q

namespace Retains

variable {reg mid reg' : Registry}

theorem refl (reg : Registry) : Retains reg reg :=
  ⟨fun _ h => h, fun _ data h => ⟨data, h, rfl, rfl⟩, fun _ h => h⟩

theorem trans (h : Retains reg mid) (h' : Retains mid reg') : Retains reg reg' where
  refs r hr := h'.refs r (h.refs r hr)
  types ty data hd := by
    obtain ⟨data₁, hd₁, hn₁, hf₁⟩ := h.types ty data hd
    obtain ⟨data₂, hd₂, hn₂, hf₂⟩ := h'.types ty data₁ hd₁
    exact ⟨data₂, hd₂, hn₂.trans hn₁, hf₂.trans hf₁⟩
  packages q hq := h'.packages q (h.packages q hq)

theorem hasType (h : Retains reg reg') {ty : TypeId} (ht : reg.graph.HasType ty) :
    reg'.graph.HasType ty := by
  obtain ⟨data, hd⟩ := ht.data
  obtain ⟨data', hd', -⟩ := h.types ty data hd
  exact TypeGraph.hasType_of_typeAt? hd'

theorem form? (h : Retains reg reg') {ty : TypeId} {form : TypeForm}
    (ht : reg.graph.form? ty = some form) : reg'.graph.form? ty = some form := by
  obtain ⟨data, hd, rfl⟩ := Option.map_eq_some_iff.mp ht
  obtain ⟨data', hd', -, hf⟩ := h.types ty data hd
  exact Option.map_eq_some_iff.mpr ⟨data', hd', hf⟩

theorem methodsFit (h : Retains reg reg') {methods : MethodSet}
    (hm : reg.graph.MethodsFit methods) : reg'.graph.MethodsFit methods := by
  intro n m hmem
  obtain ⟨hform, hname⟩ := hm n m hmem
  obtain ⟨data, hd, rfl⟩ := Option.map_eq_some_iff.mp hname
  obtain ⟨data', hd', hn, -⟩ := h.types m data hd
  exact ⟨h.form? hform, Option.map_eq_some_iff.mpr ⟨data', hd', hn⟩⟩

theorem kindFits (h : Retains reg reg') {kind : TypeKind} (hk : reg.graph.KindFits kind) :
    reg'.graph.KindFits kind := by
  cases kind with
  | base => trivial
  | struct type =>
    exact ⟨fun f hf => h.refs _ (hk.1 f hf), fun ty hty => h.hasType (hk.2 ty hty)⟩
  | interface type => exact h.methodsFit hk
  | method type =>
    obtain ⟨hr, ha, hs⟩ := hk
    exact ⟨fun a he => h.refs _ (hr a he), fun a he => h.refs _ (ha a he),
      fun a he => h.refs _ (hs a he)⟩
  | map type => exact ⟨h.refs _ hk.1, h.refs _ hk.2⟩

theorem entryFits (h : Retains reg reg') {e : RefEntry} (he : reg.EntryFits e) :
    reg'.EntryFits e := by
  cases e with
  | named e =>
    obtain ⟨hp, ht, hm⟩ := he
    exact ⟨fun q hq => h.packages q (hp q hq), fun ty hty => h.hasType (ht ty hty), h.methodsFit hm⟩
  | decorated d inner => exact h.refs _ he
  | aliasOf target => exact h.refs _ he

theorem typeFits (h : Retains reg reg') {data : TypeData} (hd : reg.TypeFits data) :
    reg'.TypeFits data :=
  ⟨fun q hq => h.packages q (hd.package q hq), h.kindFits hd.kind,
    fun r hr => h.refs r (hd.declaredBy r hr)⟩

theorem valuesFit (h : Retains reg reg') {values : OrderedMap Variable}
    (hv : reg.ValuesFit values) : reg'.ValuesFit values :=
  fun n v hm r hr => h.refs r (hv n v hm r hr)

theorem packageFits (h : Retains reg reg') {p : Package} (hp : reg.PackageFits p) :
    reg'.PackageFits p where
  functions := ⟨fun ty ht => h.form? (hp.functions.1 ty ht),
    fun n ty ht => h.form? (hp.functions.2 n ty ht)⟩
  structs := ⟨fun ty ht => h.form? (hp.structs.1 ty ht),
    fun n ty ht => h.form? (hp.structs.2 n ty ht)⟩
  interfaces :=
    ⟨fun ty ht => h.form? (hp.interfaces.1 ty ht), fun n ty ht => h.form? (hp.interfaces.2 n ty ht)⟩
  types := ⟨fun ty ht => h.hasType (hp.types.1 ty ht),
    fun n ty ht => h.hasType (hp.types.2 n ty ht)⟩
  vars := h.valuesFit hp.vars
  consts := h.valuesFit hp.consts
  refs n r hr := h.refs r (hp.refs n r hr)
  parent q hq := h.packages q (hp.parent q hq)
  subpackages q hq := h.packages q (hp.subpackages q hq)

end Retains

/-- A registry stays well-formed where everything that is not as it was fits. -/
theorem WellFormed.of_changes {reg reg' : Registry} (hr : reg.WellFormed) (h : Retains reg reg')
    (entries : ∀ r e, reg'.graph.entryAt? r = some e →
      reg.graph.entryAt? r = some e ∨ reg'.EntryFits e)
    (types : ∀ ty data, reg'.graph.typeAt? ty = some data →
      reg.graph.typeAt? ty = some data ∨ reg'.TypeFits data)
    (packages : ∀ q p, reg'.package? q = some p →
      reg.package? q = some p ∨ reg'.PackageFits p) : reg'.WellFormed where
  emptyInterface := h.refs _ hr.emptyInterface
  entries r e he := (entries r e he).elim (fun hold => h.entryFits (hr.entries r e hold)) id
  types ty data hd := (types ty data hd).elim (fun hold => h.typeFits (hr.types ty data hold)) id
  packages q p hp := (packages q p hp).elim (fun hold => h.packageFits (hr.packages q p hold)) id

theorem WellFormed.hasRef_of_ref? {reg : Registry} (hr : reg.WellFormed) {q : PackageId}
    {n : String} {r : RefId} (h : reg.ref? q n = some r) : reg.graph.HasRef r := by
  obtain ⟨p, hp, hr'⟩ := Option.bind_eq_some_iff.mp h
  exact (hr.packages q p hp).refs n r (OrderedMap.mem_of_find hr')

end Registry

end GoPackages
