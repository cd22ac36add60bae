import GoPackages.Proofs.Analysis.Values
import GoPackages.Registry.Implementations

/-!
# Runs of registry actions

Everything that a session does to its registry, one declaration at a time, from the registry
of a new session on. A declaration that fails counts with what it leaves behind.
-/
namespace GoPackages

open Source (TypeSpec ValueSpec FuncDecl GroupKind)

namespace Registry

inductive Action where
  | append (info : PackageInfo)
  | ensureRef (pkg : PackageId) (name : String)
  | typeSpec (scope : FileScope) (doc : Option Doc) (spec : TypeSpec)
  | valueSpec (scope : FileScope) (kind : GroupKind) (doc : Option Doc) (spec source : ValueSpec)
  | func (scope : FileScope) (decl : FuncDecl)
  | appendDoc (pkg : PackageId) (lines : Doc)
  | markExplored (pkg : PackageId)
  | recordImplementations (pkg : PackageId)

def Enabled (reg : Registry) : Action → Prop
  | .typeSpec scope _ _ | .valueSpec scope _ _ _ _ | .func scope _ => scope.Sound reg
  | .append _ | .ensureRef _ _ | .appendDoc _ _ | .markExplored _ | .recordImplementations _ => True

/-- A package whose import path is taken is not registered again. -/
def next (reg : Registry) : Action → Registry
  | .append info =>
    match reg.append (.ofInfo info) with
    | .ok (_, reg') => reg'
    | .error _ => reg
  | .ensureRef pkg name => (reg.ensureRef pkg name).2
  | .typeSpec scope doc spec => stateAfter (declareTypeSpec scope doc spec) reg
  | .valueSpec scope kind doc spec source =>
    stateAfter (declareValueSpec scope kind doc spec source) reg
  | .func scope decl => stateAfter (declareFunc scope decl) reg
  | .appendDoc pkg lines => reg.modifyPackage pkg (·.appendDoc lines)
  | .markExplored pkg => reg.modifyPackage pkg (·.markExplored)
  | .recordImplementations pkg => (reg.recordImplementations pkg).2

def run (reg : Registry) (actions : List Action) : Registry := actions.foldl next reg

def ValidRun (reg : Registry) : List Action → Prop
  | [] => True
  | action :: rest => reg.Enabled action ∧ ValidRun (reg.next action) rest

inductive Reachable : Registry → Prop where
  | new : Reachable .new
  | next {reg : Registry} (action : Action) : Reachable reg → reg.Enabled action →
      Reachable (reg.next action)

theorem Reachable.run {reg : Registry} (h : Reachable reg) {actions : List Action}
    (hv : reg.ValidRun actions) : Reachable (reg.run actions) := by
  induction actions generalizing reg with
  | nil => exact h
  | cons action rest ih => exact ih (h.next action hv.1) hv.2

/-- Every name keeps all but its methods, and every table keeps its references. -/
structure Spares (reg reg' : Registry) : Prop where
  packageCount : reg.packages.size ≤ reg'.packages.size
  refCount : reg.graph.refCount ≤ reg'.graph.refCount
  names : ∀ x e, reg.graph.entryAt? x = some (.named e) →
    ∃ methods, reg'.graph.entryAt? x = some (.named { e with methods })
  refs : ∀ q n r, reg.ref? q n = some r → reg'.ref? q n = some r
  sound : reg.Sound → reg'.Sound

namespace Spares

variable {reg mid reg' : Registry}

theorem trans (h : Spares reg mid) (h' : Spares mid reg') : Spares reg reg' where
  packageCount := Nat.le_trans h.packageCount h'.packageCount
  refCount := Nat.le_trans h.refCount h'.refCount
  names x e he := by
    obtain ⟨methods, hm⟩ := h.names x e he
    obtain ⟨methods', hm'⟩ := h'.names x _ hm
    exact ⟨methods', hm'⟩
  refs q n r hr := h'.refs q n r (h.refs q n r hr)
  sound hs := h'.sound (h.sound hs)

theorem of_extends {pkg : PackageId} {free : TypeId → Prop} (h : Extends pkg free reg reg') :
    Spares reg reg' where
  packageCount := h.packageCount.ge
  refCount := h.refCount_le
  names _ e he := ⟨e.methods, h.entries _ _ he⟩
  refs := h.refs
  sound := h.sound

theorem refl (reg : Registry) : Spares reg reg := .of_extends (.refl ⟨0⟩ (fun _ => False) reg)

theorem of_listing (pkg : PackageId) {f : Package → Package} (hf : ∀ p, (f p).refs = p.refs) :
    Spares reg (reg.modifyPackage pkg f) where
  packageCount := by simp [modifyPackage]
  refCount := Nat.le_refl _
  names _ e he := ⟨e.methods, he⟩
  refs q n _ hr := (ref?_modifyPackage hf q n).trans hr
  sound hs := hs.modifyPackage hf

theorem of_values {pkg : PackageId} {kind : GroupKind} {vs : List Variable}
    (h : ValuesRead pkg kind reg vs reg') : Spares reg reg' := by
  induction h with
  | nil reg => exact .refl reg
  | cons he _ ih => exact ((of_extends he).trans (of_listing _ (listValue_refs kind _))).trans ih

theorem of_method {r : RefId} {method : TypeId} (hr : reg.graph.HasRef r)
    (hm : reg.graph.HasType method) :
    Spares reg (reg.withGraph fun g => (g.addMethod r method).2) where
  packageCount := Nat.le_refl _
  refCount := (TypeGraph.refCount_addMethod _ _ _).ge
  names x e he := by
    obtain ⟨data, hd⟩ := hm.data
    simp only [withGraph, TypeGraph.addMethod, hd]
    by_cases hx : reg.graph.namedRoot r = x
    · subst hx
      exact ⟨_, TypeGraph.entryAt?_modifyNamed_of_named he _⟩
    · exact ⟨e.methods, (TypeGraph.entryAt?_modifyNamed_of_ne hx _ _).trans he⟩
  refs _ _ _ h := h
  sound hs := hs.step (.addMethod r method) ⟨hr, hm⟩

end Spares

def unlinked (p : Package) : Package := { p with parent := none, subpackages := [] }

theorem map_modifyPackage {α : Type} {g : Package → α} {f : Package → Package}
    (hf : ∀ p, g (f p) = g p) (reg : Registry) (id q : PackageId) :
    ((reg.modifyPackage id f).package? q).map g = (reg.package? q).map g := by
  by_cases h : id = q
  · subst h
    cases hp : reg.package? id with
    | none =>
      have hi : reg.packages[id.index]? = none := hp
      simp [package?, modifyPackage, Array.getElem?_modify, hi]
    | some p => simp [package?_modifyPackage_self hp, hf]
  · rw [package?_modifyPackage_of_ne h]

theorem unlinked_adopt (reg : Registry) (parent child q : PackageId) :
    ((reg.adopt parent child).package? q).map unlinked = (reg.package? q).map unlinked :=
  (map_modifyPackage (f := fun p => { p with subpackages := p.subpackages ++ [child] })
    (fun _ => rfl) _ parent q).trans
    (map_modifyPackage (f := fun p => { p with parent := some parent }) (fun _ => rfl) reg child q)

theorem packages_size_modifyPackage (reg : Registry) (id : PackageId) (f : Package → Package) :
    (reg.modifyPackage id f).packages.size = reg.packages.size := by
  simp [modifyPackage]

theorem unlinked_adopts (reg : Registry) (parent : PackageId) (children : List PackageId)
    (q : PackageId) :
    ((children.foldl (fun reg child => reg.adopt parent child) reg).package? q).map unlinked =
      (reg.package? q).map unlinked ∧
    (children.foldl (fun reg child => reg.adopt parent child) reg).graph = reg.graph ∧
    (children.foldl (fun reg child => reg.adopt parent child) reg).packages.size =
      reg.packages.size := by
  induction children generalizing reg with
  | nil => exact ⟨rfl, rfl, rfl⟩
  | cons child rest ih =>
    obtain ⟨hp, hg, hs⟩ := ih (reg.adopt parent child)
    refine ⟨hp.trans (unlinked_adopt reg parent child q), hg, hs.trans ?_⟩
    rw [adopt, packages_size_modifyPackage, packages_size_modifyPackage]

theorem package?_push (reg : Registry) (p : Package) (q : PackageId) :
    ({ reg with packages := reg.packages.push p } : Registry).package? q =
      if q = ⟨reg.packages.size⟩ then some p else reg.package? q := by
  obtain ⟨i⟩ := q
  simp [package?, Array.getElem?_push]

theorem append_ok {reg reg' : Registry} {p : Package} {id : PackageId}
    (h : reg.append p = .ok (id, reg')) :
    reg.byPath? p.importPath = none ∧ id = ⟨reg.packages.size⟩ ∧ reg'.graph = reg.graph ∧
      reg'.packages.size = reg.packages.size + 1 ∧ ∀ q, (reg'.package? q).map unlinked =
        if q = id then some (unlinked p) else (reg.package? q).map unlinked := by
  unfold append at h
  split at h
  · cases h
  next hn =>
    dsimp only at h
    obtain ⟨rfl, rfl⟩ := Prod.mk.inj (Except.ok.inj h)
    refine ⟨hn, rfl, ?_, ?_, fun q => ?_⟩
    · rw [(unlinked_adopts _ _ _ ⟨0⟩).2.1]
      split <;> rfl
    · rw [(unlinked_adopts _ _ _ ⟨0⟩).2.2]
      split
      · rw [adopt, packages_size_modifyPackage, packages_size_modifyPackage, Array.size_push]
      · exact Array.size_push _
    · have hpush : (({ reg with packages := reg.packages.push p } : Registry).package? q).map
          unlinked = if q = ⟨reg.packages.size⟩ then some (unlinked p)
            else (reg.package? q).map unlinked := by
        rw [package?_push]
        split <;> rfl
      rw [(unlinked_adopts _ _ _ q).1, ← hpush]
      split
      · exact unlinked_adopt _ _ _ q
      · rfl

theorem ref?_eq_unlinked (reg : Registry) (q : PackageId) (n : String) :
    reg.ref? q n = ((reg.package? q).map unlinked).bind (·.ref? n) := by
  rw [ref?]
  cases reg.package? q <;> rfl

theorem ref?_append {reg reg' : Registry} {info : PackageInfo} {id : PackageId}
    (h : reg.append (.ofInfo info) = .ok (id, reg')) (q : PackageId) (n : String) :
    reg'.ref? q n = reg.ref? q n := by
  obtain ⟨-, rfl, -, -, hp⟩ := append_ok h
  rw [ref?_eq_unlinked, hp, ref?_eq_unlinked]
  split
  next hq =>
    subst hq
    simp [package?, Package.ref?, unlinked, Package.ofInfo, OrderedMap.get?, OrderedMap.find]
  next => rfl

theorem spares_append {reg reg' : Registry} {info : PackageInfo} {id : PackageId}
    (h : reg.append (.ofInfo info) = .ok (id, reg')) : Spares reg reg' := by
  obtain ⟨-, -, hg, hsize, -⟩ := append_ok h
  refine ⟨by omega, by rw [hg], fun x e he => ⟨e.methods, hg ▸ he⟩,
    fun q n r hr => (ref?_append h q n).trans hr, ?_⟩
  intro hs
  refine ⟨hg ▸ hs.graph, fun q n r hr => ?_⟩
  rw [hg]
  exact hs.refs q n r ((ref?_append h q n).symm.trans hr)

theorem recordStructs_next (g : TypeGraph) (interfaces tys : List TypeId) :
    (g.recordStructs interfaces tys).2.refs = g.refs ∧
      (TypeGraph.Reachable g → TypeGraph.Reachable (g.recordStructs interfaces tys).2) := by
  induction tys generalizing g with
  | nil => exact ⟨rfl, fun h => h⟩
  | cons ty rest ih =>
    rw [TypeGraph.recordStructs]
    obtain ⟨hrefs, hreach⟩ := ih (g.recordStruct interfaces ty).2
    have hone : (g.recordStruct interfaces ty).2.refs = g.refs ∧
        (TypeGraph.Reachable g → TypeGraph.Reachable (g.recordStruct interfaces ty).2) := by
      unfold TypeGraph.recordStruct
      split
      · exact ⟨rfl, fun h => h⟩
      · exact ⟨rfl, fun h => h.next (.editStruct ty _) trivial⟩
    exact ⟨hrefs.trans hone.1, fun h => hreach (hone.2 h)⟩

theorem spares_recordImplementations (reg : Registry) (pkg : PackageId) :
    Spares reg (reg.recordImplementations pkg).2 := by
  unfold recordImplementations
  split
  · exact .refl reg
  next p hp =>
    obtain ⟨hrefs, hreach⟩ := recordStructs_next reg.graph p.interfaces.ids p.structs.ids
    have hc : (reg.graph.recordStructs p.interfaces.ids p.structs.ids).2.refCount =
        reg.graph.refCount := congrArg Array.size hrefs
    refine ⟨Nat.le_refl _, hc.ge, fun x e he => ⟨e.methods, ?_⟩, fun _ _ _ h => h, fun hs => ?_⟩
    · unfold TypeGraph.entryAt? at he ⊢
      exact hrefs ▸ he
    · refine ⟨hreach hs.graph, fun q n r hr => ?_⟩
      exact Nat.lt_of_lt_of_eq (hs.refs q n r hr) hc.symm

theorem spares_func {reg : Registry} (hr : reg.Sound) {scope : FileScope}
    (hs : scope.Sound reg) (decl : FuncDecl) :
    Spares reg (stateAfter (declareFunc scope decl) reg) := by
  refine (declareFunc_reads hr hs decl).stateAfter ?_ fun _ h => .of_extends h
  rintro _ _ ⟨mid, params, ty, t, hf, rfl⟩
  obtain ⟨data, hd, -⟩ := hf.named
  refine (Spares.of_extends hf.read).trans ?_
  unfold attach
  split
  next owner ho => exact .of_method (hf.owner owner ho) (TypeGraph.hasType_of_typeAt? hd)
  next => exact .of_listing _ fun _ => rfl

theorem spares_valueSpec {reg : Registry} (hr : reg.Sound) {scope : FileScope}
    (hs : scope.Sound reg) (kind : GroupKind) (doc : Option Doc) (spec source : ValueSpec) :
    Spares reg (stateAfter (declareValueSpec scope kind doc spec source) reg) := by
  refine (declareValueSpec_reads hr hs kind doc spec source).stateAfter ?_ ?_
  · rintro _ _ ⟨mid, vs, he, hvs, _⟩
    exact (Spares.of_extends he).trans (.of_values hvs)
  · rintro _ ⟨mid, he, vs, mid', hvs, hx⟩
    exact ((Spares.of_extends he).trans (.of_values hvs)).trans (.of_extends hx)

theorem next_spares {reg : Registry} (hr : reg.Sound) {action : Action}
    (he : reg.Enabled action) (ht : ∀ scope doc spec, action ≠ .typeSpec scope doc spec) :
    Spares reg (reg.next action) := by
  cases action with
  | append info =>
    simp only [next]
    split
    next h => exact spares_append h
    next => exact .refl reg
  | ensureRef pkg name =>
    have hx : Extends pkg (fun _ => False) reg (reg.ensureRef pkg name).2 :=
      extends_ensureRef reg pkg name
    exact .of_extends hx
  | typeSpec scope doc spec => exact absurd rfl (ht scope doc spec)
  | valueSpec scope kind doc spec source => exact spares_valueSpec hr he kind doc spec source
  | func scope decl => exact spares_func hr he decl
  | appendDoc pkg lines => exact .of_listing pkg fun _ => rfl
  | markExplored pkg => exact .of_listing pkg fun _ => rfl
  | recordImplementations pkg => exact spares_recordImplementations reg pkg

end Registry

end GoPackages
