import GoPackages.Proofs.Package.DeclLists
import GoPackages.Proofs.Registry.Builtins

/-!
# The lists of a session's packages

Every list of every package has one slot for each name, whatever a session did. So the type that a
name was last declared as is always in its list.
-/
namespace GoPackages

open Source (GroupKind)

structure Package.Slotted (p : Package) : Prop where
  functions : p.functions.Slots
  structs : p.structs.Slots
  interfaces : p.interfaces.Slots
  types : p.types.Slots

theorem Package.Slotted.declareKind {p : Package} (h : p.Slotted) (name : String) (ty : TypeId)
    (kind : TypeKind) : (p.declareKind name ty kind).Slotted := by
  have htypes := h.types.declare name ty
  cases kind with
  | struct => exact { h with types := htypes, structs := h.structs.declare name ty }
  | interface => exact { h with types := htypes, interfaces := h.interfaces.declare name ty }
  | base | method | map => exact { h with types := htypes }

namespace Registry

variable {reg mid reg' : Registry}

def Slotted (reg : Registry) : Prop := ∀ q p, reg.package? q = some p → p.Slotted

namespace Slotted

theorem of_extends {pkg : PackageId} {free : TypeId → Prop} (h : reg.Slotted)
    (he : Extends pkg free reg reg') : reg'.Slotted := by
  intro q p hp
  have hlt : q.index < reg.packages.size := by
    rw [← he.packageCount]
    exact (Array.getElem?_eq_some_iff.mp hp).1
  have hold : reg.package? q = some reg.packages[q.index] := Array.getElem?_eq_getElem hlt
  obtain ⟨refs, hp'⟩ := he.packages q _ hold
  obtain rfl := Option.some.inj (hp.symm.trans hp')
  exact { h q _ hold with }

theorem modifyPackage (h : reg.Slotted) (pkg : PackageId) {f : Package → Package}
    (hf : ∀ p, p.Slotted → (f p).Slotted) : (reg.modifyPackage pkg f).Slotted := by
  intro q p hp
  by_cases hq : pkg = q
  · subst hq
    cases hold : reg.package? pkg with
    | none =>
      have hi : reg.packages[pkg.index]? = none := hold
      simp [package?, Registry.modifyPackage, Array.getElem?_modify, hi] at hp
    | some old =>
      rw [package?_modifyPackage_self hold] at hp
      obtain rfl := Option.some.inj hp
      exact hf old (h pkg old hold)
  · rw [package?_modifyPackage_of_ne hq] at hp
    exact h q p hp

theorem register (h : reg.Slotted) (pkg : PackageId) (name : String) (r : RefId) :
    (reg.register pkg name r).Slotted := h.modifyPackage pkg fun _ hp => { hp with }

theorem declare (h : reg.Slotted) (pkg : PackageId) (name : String) (kind : TypeKind) :
    (reg.declare pkg name kind).2.Slotted := by
  have hi : (reg.introduce pkg name kind).2.Slotted :=
    h.of_extends (extends_introduce reg pkg name kind pkg fun _ => False)
  have hgraph (f : TypeGraph → TypeGraph) :
      ((reg.introduce pkg name kind).2.withGraph f).Slotted := hi
  rw [declare_eq]
  refine (hgraph _).modifyPackage pkg ?_
  exact fun p hp => hp.declareKind name _ kind

theorem of_values {pkg : PackageId} {kind : GroupKind} {vs : List Variable} (h : reg.Slotted)
    (hv : ValuesRead pkg kind reg vs reg') : reg'.Slotted := by
  induction hv with
  | nil => exact h
  | cons he _ ih =>
    refine ih ((h.of_extends he).modifyPackage pkg fun p hp => ?_)
    split <;> exact { hp with }

theorem append {info : PackageInfo} {id : PackageId} (h : reg.Slotted)
    (ha : reg.append (.ofInfo info) = .ok (id, reg')) : reg'.Slotted := by
  obtain ⟨-, -, -, -, hp⟩ := append_ok ha
  intro q p hq
  have hunlinked := hp q
  rw [hq] at hunlinked
  have hlists : (unlinked p).Slotted → p.Slotted := fun hs => { hs with }
  apply hlists
  by_cases hid : q = id
  · rw [if_pos hid] at hunlinked
    rw [Option.some.inj hunlinked]
    exact ⟨DeclList.slots_empty, DeclList.slots_empty, DeclList.slots_empty, DeclList.slots_empty⟩
  · rw [if_neg hid] at hunlinked
    obtain ⟨old, hold, heq⟩ := Option.map_eq_some_iff.mp hunlinked.symm
    rw [← heq]
    exact { h q old hold with }

theorem typeSpec (h : reg.Slotted) (hr : reg.Sound) {scope : FileScope} (hs : scope.Sound reg)
    (doc : Option Doc) (spec : Source.TypeSpec) :
    (stateAfter (declareTypeSpec scope doc spec) reg).Slotted := by
  by_cases ha : spec.isAlias = true
  · refine (declareTypeSpec_renames hr hs doc ha).stateAfter ?_ fun _ he => h.of_extends he
    rintro _ reg' ⟨mid, he, target, -, hrename⟩
    have hmid := h.of_extends he
    cases hn : mid.ref? scope.package spec.name with
    | none =>
      rw [hn] at hrename
      subst hrename
      exact hmid.register _ _ _
    | some existing =>
      rw [hn] at hrename
      obtain ⟨graph, -, rfl⟩ := hrename
      have hredirected : Registry.Slotted { mid with graph } := hmid
      exact hredirected.register _ _ _
  · have hdefines : ∀ {mid reg' kind}, Defines scope spec.name kind reg mid reg' → reg'.Slotted :=
      fun hd => ((h.of_extends hd.before).declare _ _ _).of_extends hd.after
    refine (declareTypeSpec_defines hr hs doc (Bool.eq_false_iff.mpr ha)).stateAfter ?_ ?_
    · rintro _ _ ⟨_, hd, _⟩
      exact hdefines hd
    · rintro _ ⟨_, hd⟩
      exact hdefines hd

theorem next (h : reg.Slotted) (hr : reg.Sound) {action : Action} (he : reg.Enabled action) :
    (reg.next action).Slotted := by
  cases action with
  | append info =>
    simp only [Registry.next]
    split
    next ha => exact h.append ha
    next => exact h
  | ensureRef pkg name =>
    have hx : Extends pkg (fun _ => False) reg (reg.ensureRef pkg name).2 :=
      extends_ensureRef reg pkg name
    exact h.of_extends hx
  | typeSpec scope doc spec => exact h.typeSpec hr he doc spec
  | valueSpec scope kind doc spec source =>
    refine (declareValueSpec_reads hr he kind doc spec source).stateAfter ?_ ?_
    · rintro _ _ ⟨_, _, hx, hv, _⟩
      exact (h.of_extends hx).of_values hv
    · rintro _ ⟨_, hx, _, _, hv, hx'⟩
      exact ((h.of_extends hx).of_values hv).of_extends hx'
  | func scope decl =>
    refine (declareFunc_reads hr he decl).stateAfter ?_ fun _ hx => h.of_extends hx
    rintro _ _ ⟨mid, params, ty, t, hf, rfl⟩
    have hmid := h.of_extends hf.read
    unfold attach
    split
    · exact hmid
    · exact hmid.modifyPackage _ fun _ hp => { hp with functions := hp.functions.declare _ _ }
  | appendDoc pkg lines => exact h.modifyPackage pkg fun _ hp => { hp with }
  | markExplored pkg => exact h.modifyPackage pkg fun _ hp => { hp with }
  | recordImplementations pkg =>
    simp only [Registry.next, recordImplementations]
    split <;> exact h

end Slotted

theorem Slotted.declares (pkg : PackageId) (names : List String) {reg : Registry}
    (h : reg.Slotted) :
    (names.foldl (fun reg name => (reg.declare pkg name .base).2) reg).Slotted := by
  induction names generalizing reg with
  | nil => exact h
  | cons name rest ih => exact ih (h.declare pkg name .base)

theorem Slotted.declareError (h : reg.Slotted) (pkg : PackageId) :
    (reg.declareError pkg).Slotted := by
  have herror := h.declare pkg "error" (.interface {})
  unfold Registry.declareError
  dsimp only
  split
  · exact herror
  · exact herror

theorem new_slotted : Registry.new.Slotted := by
  let empty : Registry := { packages := #[{ name := builtinPath, importPath := builtinPath }] }
  have hempty : empty.Slotted := by
    intro q p hp
    obtain ⟨i⟩ := q
    cases i with
    | zero =>
      obtain rfl := Option.some.inj hp
      exact ⟨DeclList.slots_empty, DeclList.slots_empty, DeclList.slots_empty,
        DeclList.slots_empty⟩
    | succ i => cases hp
  have hany := (hempty.declares ⟨0⟩ baseTypeNames).register ⟨0⟩ "any" TypeGraph.emptyInterface
  exact (hany.declareError ⟨0⟩).modifyPackage ⟨0⟩ fun _ hp => { hp with }

theorem reachable_slotted {reg : Registry} (h : Reachable reg) : reg.Slotted := by
  induction h with
  | new => exact new_slotted
  | next action hr he ih => exact ih.next (reachable_sound hr) he

end Registry

end GoPackages
