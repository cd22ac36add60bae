import GoPackages.Proofs.Analysis.Conservative
import GoPackages.Proofs.Registry.Isolation

/-!
# Values stay as they were listed

A variable or a constant is written when a line of its package declares its name. Nothing else
touches it: neither what is read for it later nor any other action on the registry.
-/
namespace GoPackages

open Source (TypeSpec ValueSpec FuncDecl GroupKind)

def Package.values (p : Package) (kind : GroupKind) : OrderedMap Variable :=
  if kind = .consts then p.consts else p.vars

namespace Registry

def value? (reg : Registry) (pkg : PackageId) (kind : GroupKind) (name : String) :
    Option Variable :=
  ((reg.package? pkg).map (·.values kind)).bind (·.get? name)

def Action.Redeclares (pkg : PackageId) (kind : GroupKind) (name : String) : Action → Prop
  | .valueSpec scope kind' _ spec _ =>
    scope.package = pkg ∧ (kind' = .consts ↔ kind = .consts) ∧ name ∈ spec.names
  | .append _ | .ensureRef _ _ | .typeSpec _ _ _ | .func _ _ | .appendDoc _ _ | .markExplored _
  | .recordImplementations _ => False

def KeepsValue (pkg : PackageId) (kind : GroupKind) (name : String) (reg reg' : Registry) : Prop :=
  ∀ v, reg.value? pkg kind name = some v → reg'.value? pkg kind name = some v

section

variable {pkg q : PackageId} {kind kind' : GroupKind} {name : String} {reg mid reg' : Registry}

theorem KeepsValue.refl (pkg : PackageId) (kind : GroupKind) (name : String) (reg : Registry) :
    KeepsValue pkg kind name reg reg := fun _ h => h

theorem KeepsValue.trans (h : KeepsValue pkg kind name reg mid)
    (h' : KeepsValue pkg kind name mid reg') : KeepsValue pkg kind name reg reg' :=
  fun v hv => h' v (h v hv)

theorem KeepsValue.of_values (h : ∀ p, reg.package? pkg = some p →
    (reg'.package? pkg).map (·.values kind) = some (p.values kind)) :
    KeepsValue pkg kind name reg reg' := by
  intro v hv
  unfold value? at hv ⊢
  cases hp : reg.package? pkg with
  | none => rw [hp] at hv; cases hv
  | some p =>
    rw [hp] at hv
    rw [h p hp]
    exact hv

theorem KeepsValue.of_extends {owner : PackageId} {free : TypeId → Prop}
    (h : Extends owner free reg reg') : KeepsValue pkg kind name reg reg' := by
  refine .of_values fun p hp => ?_
  obtain ⟨refs, hp'⟩ := h.packages pkg p hp
  rw [hp']
  rfl

theorem KeepsValue.of_conserves {scope : FileScope} (h : Conserves scope reg reg') :
    KeepsValue pkg kind name reg reg' := by
  refine .of_values fun p hp => ?_
  have hsame := congrArg (Option.map fun p : Package => p.values kind) (h.packages pkg)
  rw [hp, Option.map_map, Option.map_some] at hsame
  exact hsame

theorem KeepsValue.modifyPackage (q : PackageId) {f : Package → Package}
    (hf : ∀ p, (f p).values kind = p.values kind) :
    KeepsValue pkg kind name reg (reg.modifyPackage q f) := by
  refine .of_values fun p hp => ?_
  rw [map_modifyPackage hf reg q pkg, hp]
  rfl

theorem values_declareKind (p : Package) (name : String) (ty : TypeId) (declared : TypeKind) :
    (p.declareKind name ty declared).values kind = p.values kind := by
  cases declared <;> rfl

theorem KeepsValue.declare (reg : Registry) (q : PackageId) (declared : String)
    (typeKind : TypeKind) : KeepsValue pkg kind name reg (reg.declare q declared typeKind).2 := by
  refine .of_values fun p hp => ?_
  obtain ⟨refs, hp'⟩ := declare_package? hp q declared typeKind
  rw [hp', Option.map_some]
  split
  · exact congrArg some (values_declareKind _ declared _ typeKind)
  · rfl

theorem KeepsValue.append {info : PackageInfo} {id : PackageId}
    (h : reg.append (.ofInfo info) = .ok (id, reg')) : KeepsValue pkg kind name reg reg' := by
  obtain ⟨-, rfl, -, -, hall⟩ := append_ok h
  refine .of_values fun p hp => ?_
  have hne : pkg ≠ ⟨reg.packages.size⟩ := by
    rintro rfl
    have hnone : reg.package? ⟨reg.packages.size⟩ = none :=
      Array.getElem?_eq_none (Nat.le_refl _)
    rw [hp] at hnone
    cases hnone
  have hsame := congrArg (Option.map fun p : Package => p.values kind) (hall pkg)
  rw [if_neg hne, hp, Option.map_map, Option.map_some] at hsame
  exact hsame

theorem values_listed (p : Package) (kind kind' : GroupKind) (v : Variable) :
    (if kind' = .consts then p.declareConstant v else p.declareVariable v).values kind =
      if kind' = .consts ↔ kind = .consts then (p.values kind).insert v.name v
      else p.values kind := by
  by_cases h' : kind' = .consts <;> by_cases h : kind = .consts <;>
    simp [Package.values, Package.declareConstant, Package.declareVariable, h, h']

theorem KeepsValue.listValue {v : Variable}
    (h : ¬(q = pkg ∧ (kind' = .consts ↔ kind = .consts) ∧ v.name = name)) :
    KeepsValue pkg kind name reg (listValue reg q kind' v) := by
  by_cases hq : q = pkg
  · subst hq
    intro w hw
    unfold value? GoPackages.listValue at *
    cases hp : reg.package? q with
    | none => rw [hp] at hw; cases hw
    | some p =>
      rw [hp] at hw
      rw [package?_modifyPackage_self hp, Option.map_some, Option.bind_some, values_listed]
      split
      next hkind =>
        have hname : v.name ≠ name := fun hn => h ⟨rfl, hkind, hn⟩
        exact (OrderedMap.get?_insert_of_ne hname _ v).trans hw
      next => exact hw
  · refine .of_values fun p hp => ?_
    rw [GoPackages.listValue, package?_modifyPackage_of_ne hq, hp]
    rfl

theorem value?_listValue {p : Package} (hp : reg.package? pkg = some p) (v : Variable) :
    (GoPackages.listValue reg pkg kind v).value? pkg kind v.name = some v := by
  unfold value? GoPackages.listValue
  rw [package?_modifyPackage_self hp, Option.map_some, Option.bind_some, values_listed,
    if_pos Iff.rfl]
  exact OrderedMap.get?_insert_self _ v.name v

end

end Registry

open Registry (KeepsValue Action)

section Lines

variable {scope : FileScope} {pkg : PackageId} {kind kind' : GroupKind} {name : String}

theorem valueType_conserving (declared : Option RefId) (source : ValueSpec) (index : Nat)
    (base : Registry) : Conserving scope base (valueType scope declared source index) := by
  unfold valueType
  cases declared with
  | some r => exact conserving_pure _
  | none =>
    cases source.values[index]?.or source.values.head? with
    | none => exact conserving_pure _
    | some value => exact inferType_conserving value

theorem declaredType_conserving (source : ValueSpec) (base : Registry) :
    Conserving scope base (source.type.mapM (resolveType scope)) := by
  cases source.type with
  | none => exact conserving_pure _
  | some type => exact (resolveType_conserving type).bind fun r => conserving_pure _

theorem declareNames_keepsValue (doc : Doc) (declared : Option RefId) (source : ValueSpec)
    {names : List String} (h : ¬(scope.package = pkg ∧ (kind' = .consts ↔ kind = .consts) ∧
      name ∈ names)) (index : Nat) (reg : Registry) :
    After (declareNames scope kind' doc declared source index names) reg
      (fun _ reg' => KeepsValue pkg kind name reg reg') (KeepsValue pkg kind name reg) := by
  induction names generalizing index reg with
  | nil => exact .refl pkg kind name reg
  | cons first rest ih =>
    have hrest : ¬(scope.package = pkg ∧ (kind' = .consts ↔ kind = .consts) ∧ name ∈ rest) :=
      fun ⟨hp, hk, hm⟩ => h ⟨hp, hk, List.mem_cons_of_mem first hm⟩
    rw [declareNames]
    by_cases hb : first = "_"
    · simp only [hb, ne_eq, not_true, if_false]
      exact ih hrest (index + 1) reg
    · simp only [hb, ne_eq, not_false_iff, if_true]
      refine After.bind (valueType_conserving declared source index reg reg (.refl scope reg)) ?_
        fun _ hc => .of_conserves hc
      intro type mid hc
      let v : Variable := { name := first, type, doc }
      have hone : KeepsValue pkg kind name reg (listValue mid scope.package kind' v) := by
        refine (KeepsValue.of_conserves hc).trans (.listValue ?_)
        rintro ⟨hp, hk, hv⟩
        have hfirst : first = name := hv
        exact h ⟨hp, hk, hfirst ▸ List.mem_cons_self⟩
      exact After.mono (ih hrest (index + 1) (listValue mid scope.package kind' v))
        (fun _ _ hkeep => hone.trans hkeep) fun _ hkeep => hone.trans hkeep

theorem declareValueSpec_keepsValue (groupDoc : Option Doc) {spec : ValueSpec}
    (source : ValueSpec) (h : ¬(scope.package = pkg ∧ (kind' = .consts ↔ kind = .consts) ∧
      name ∈ spec.names)) (reg : Registry) :
    KeepsValue pkg kind name reg
      (stateAfter (declareValueSpec scope kind' groupDoc spec source) reg) := by
  have hkeeps : After (declareValueSpec scope kind' groupDoc spec source) reg
      (fun _ => KeepsValue pkg kind name reg) (KeepsValue pkg kind name reg) := by
    refine After.bind (declaredType_conserving source reg reg (.refl scope reg)) ?_
      fun _ hc => .of_conserves hc
    intro declared mid hc
    have hread : KeepsValue pkg kind name reg mid := .of_conserves hc
    exact After.mono (declareNames_keepsValue _ declared source h 0 mid)
      (fun _ _ hk => hread.trans hk) fun _ hk => hread.trans hk
  exact hkeeps.anyhow

end Lines

namespace Registry

variable {pkg : PackageId} {kind : GroupKind} {name : String} {reg : Registry}

theorem typeSpec_keepsValue (hr : reg.Sound) {scope : FileScope} (hs : scope.Sound reg)
    (doc : Option Doc) (spec : TypeSpec) :
    KeepsValue pkg kind name reg (reg.next (.typeSpec scope doc spec)) := by
  cases typeSpec_effect hr hs doc spec with
  | @defined mid typeKind _ hd =>
    have hbefore : KeepsValue pkg kind name reg mid := .of_extends hd.before
    have hdeclared := hbefore.trans (.declare mid scope.package spec.name typeKind)
    exact hdeclared.trans (.of_extends hd.after)
  | @renamed mid _ hx hren =>
    obtain ⟨target, -, hren⟩ := hren
    have hread : KeepsValue pkg kind name reg mid := .of_extends hx
    apply hread.trans
    split at hren
    · rw [hren]
      exact .modifyPackage scope.package fun _ => rfl
    · obtain ⟨graph, -, hlast⟩ := hren
      rw [hlast]
      change KeepsValue pkg kind name { mid with graph } _
      exact .modifyPackage scope.package fun _ => rfl
  | refused _ _ hx => exact .of_extends hx

theorem next_keepsValue (hr : reg.Sound) {action : Action} (he : reg.Enabled action)
    (h : ¬action.Redeclares pkg kind name) : KeepsValue pkg kind name reg (reg.next action) := by
  cases action with
  | append info =>
    simp only [next]
    split
    next happend => exact .append happend
    next => exact .refl pkg kind name reg
  | ensureRef q n =>
    have hx : Extends q (fun _ => False) reg (reg.ensureRef q n).2 := extends_ensureRef reg q n
    exact .of_extends hx
  | typeSpec scope doc spec => exact typeSpec_keepsValue hr he doc spec
  | valueSpec scope kind' doc spec source => exact declareValueSpec_keepsValue doc source h reg
  | func scope decl =>
    refine (declareFunc_reads hr he decl).stateAfter ?_ fun _ hx => .of_extends hx
    rintro _ _ ⟨mid, params, ty, t, hf, rfl⟩
    refine (KeepsValue.of_extends hf.read).trans ?_
    unfold attach
    split
    · exact .of_values fun p hp => congrArg (Option.map (·.values kind)) hp
    · exact .modifyPackage _ fun _ => rfl
  | appendDoc q lines => exact .modifyPackage q fun _ => rfl
  | markExplored q => exact .modifyPackage q fun _ => rfl
  | recordImplementations q =>
    simp only [next, recordImplementations]
    split
    · exact .refl pkg kind name reg
    · exact .of_values fun p hp => congrArg (Option.map (·.values kind)) hp

/-- A value lasts until its name is declared again. -/
theorem run_keepsValue (hr : reg.Sound) {actions : List Action} (hv : reg.ValidRun actions)
    (h : ∀ action ∈ actions, ¬action.Redeclares pkg kind name) :
    KeepsValue pkg kind name reg (reg.run actions) := by
  induction actions generalizing reg with
  | nil => exact .refl pkg kind name reg
  | cons action rest ih =>
    have hnext := next_keepsValue hr hv.1 (h action List.mem_cons_self)
    exact hnext.trans (ih (next_sound hr hv.1).1 hv.2
      fun a ha => h a (List.mem_cons_of_mem action ha))

end Registry

end GoPackages
