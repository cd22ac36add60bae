import GoPackages.Proofs.Registry.Isolation

/-!
# The predeclared names over runs

The names of the builtin package keep the types that they start with as long as no type is
declared into that package and no declaration clashes with a name of another owner.
-/
namespace GoPackages.Registry

theorem sound_of_declares (pkg : PackageId) (names : List String) {reg : Registry}
    (h : reg.Sound) : (names.foldl (fun reg name => (reg.declare pkg name .base).2) reg).Sound := by
  induction names generalizing reg with
  | nil => exact h
  | cons name rest ih => exact ih (declare_sound h pkg name .base)

theorem declareError_sound {reg : Registry} (h : reg.Sound) (pkg : PackageId) :
    (reg.declareError pkg).Sound := by
  have hi := declare_sound h pkg "error" (.interface {})
  unfold declareError
  dsimp only
  split
  · exact hi
  · exact (hi.step (.addType _) trivial).step (.editInterface _ _) trivial

theorem new_sound : Registry.new.Sound := by
  let empty : Registry := { packages := #[{ name := builtinPath, importPath := builtinPath }] }
  have hempty : empty.Sound := by
    refine ⟨.new, fun q n r hr => ?_⟩
    obtain ⟨i⟩ := q
    cases i with
    | zero => cases hr
    | succ i => cases hr
  have hbase := sound_of_declares ⟨0⟩ baseTypeNames hempty
  have hany := hbase.register hbase.emptyInterface ⟨0⟩ "any"
  exact (declareError_sound hany ⟨0⟩).modifyPackage fun _ => rfl

theorem reachable_sound {reg : Registry} (h : Reachable reg) : reg.Sound := by
  induction h with
  | new => exact new_sound
  | next action _ he ih => exact (next_sound ih he).1

def builtinId : PackageId := ⟨0⟩

theorem new_builtin? : Registry.new.builtin? = some builtinId := by decide +kernel

theorem eq_builtinId_of_new {q : PackageId} {p : Package}
    (hp : Registry.new.package? q = some p) : q = builtinId := by
  have hone : Registry.new.packages.size = 1 := by decide +kernel
  obtain ⟨hlt, -⟩ := Array.getElem?_eq_some_iff.mp hp
  obtain ⟨i⟩ := q
  obtain rfl : i = 0 := Nat.lt_one_iff.mp (hone ▸ hlt)
  rfl

/-- A name with a type that belongs to the builtin package or to none. -/
def Predeclared (g : TypeGraph) (r : RefId) : Prop :=
  ∃ e, g.entryAt? r = some (.named e) ∧ (e.package = none ∨ e.package = some builtinId) ∧
    e.type.isSome

instance (g : TypeGraph) (r : RefId) : Decidable (Predeclared g r) :=
  match h : g.entryAt? r with
  | some (.named e) =>
    decidable_of_iff ((e.package = none ∨ e.package = some builtinId) ∧ e.type.isSome)
      ⟨fun hp => ⟨e, h, hp⟩, fun ⟨e', he, hp⟩ => by cases h.symm.trans he; exact hp⟩
  | some (.decorated _ _) | some (.aliasOf _) | none =>
    isFalse fun ⟨e, he, _⟩ => by cases h.symm.trans he

structure Predeclares (start : Registry) : Prop where
  names : ∀ n r, start.ref? builtinId n = some r → Predeclared start.graph r

theorem predeclares_of_table {start : Registry} (h : ∀ p, start.package? builtinId = some p →
    ∀ e ∈ p.refs.entries, Predeclared start.graph e.2) : start.Predeclares := by
  refine ⟨fun n r hr => ?_⟩
  obtain ⟨p, hp, hr⟩ := Option.bind_eq_some_iff.mp hr
  exact h p hp (n, r) (OrderedMap.mem_of_find hr)

theorem new_table : ∀ p, Registry.new.package? builtinId = some p →
    ∀ e ∈ p.refs.entries, Predeclared Registry.new.graph e.2 := by decide +kernel

theorem new_predeclares : Registry.new.Predeclares := predeclares_of_table new_table

/-- Every predeclared name stands where it stood at the start, on an entry that has kept its
type. -/
structure KeepsBuiltins (start reg : Registry) : Prop where
  names : ∀ n r, start.ref? builtinId n = some r → reg.ref? builtinId n = some r ∧
    ∃ e ty, start.graph.entryAt? r = some (.named e) ∧ e.type = some ty ∧
      ∃ methods, reg.graph.entryAt? r = some (.named { e with methods })

/-- No type goes into the builtin package, and none clashes with a name of another owner. -/
def Clean (reg : Registry) : Action → Prop
  | .typeSpec scope doc spec => scope.package ≠ builtinId ∧ ¬Clashes reg scope doc spec
  | _ => True

def CleanRun (reg : Registry) : List Action → Prop
  | [] => True
  | action :: rest => reg.Clean action ∧ CleanRun (reg.next action) rest

theorem keepsBuiltins_refl {start : Registry} (hp : start.Predeclares) :
    KeepsBuiltins start start := by
  refine ⟨fun n r h => ?_⟩
  obtain ⟨e, hx, -, htype⟩ := hp.names n r h
  obtain ⟨ty, hty⟩ := Option.isSome_iff_exists.mp htype
  exact ⟨h, e, ty, hx, hty, e.methods, hx⟩

theorem clean_step_keeps_builtins {start reg : Registry} (hp : start.Predeclares)
    (hr : reg.Sound) (hk : KeepsBuiltins start reg) {action : Action} (he : reg.Enabled action)
    (hc : reg.Clean action) : KeepsBuiltins start (reg.next action) := by
  refine ⟨fun n r hn => ?_⟩
  obtain ⟨href, e, ty, hstart, hty, methods, hx⟩ := hk.names n r hn
  by_cases ht : ∃ scope doc spec, action = .typeSpec scope doc spec
  · obtain ⟨scope, doc, spec, rfl⟩ := ht
    obtain ⟨e', he', howner, -⟩ := hp.names n r hn
    obtain rfl : e = e' := by simpa [hstart] using he'
    have hother : e.package ≠ some scope.package := by
      rcases howner with h | h
      · simp [h]
      · rw [h]
        exact fun heq => hc.1 (Option.some.inj heq).symm
    obtain ⟨methods', hx'⟩ := ((typeSpec_isolated_iff hr he).mpr hc.2).kept hx hother
    exact ⟨typeSpec_ref?_of_ne hr he doc spec hc.1 href, e, ty, hstart, hty, methods', hx'⟩
  · have hs := next_spares hr he fun scope doc spec h => ht ⟨scope, doc, spec, h⟩
    obtain ⟨methods', hx'⟩ := hs.names r _ hx
    exact ⟨hs.refs _ n r href, e, ty, hstart, hty, methods', hx'⟩

theorem clean_run_keeps_builtins {start reg : Registry} (hp : start.Predeclares)
    (hr : reg.Sound) (hk : KeepsBuiltins start reg) {actions : List Action}
    (hv : reg.ValidRun actions) (hc : reg.CleanRun actions) :
    KeepsBuiltins start (reg.run actions) := by
  induction actions generalizing reg with
  | nil => exact hk
  | cons action rest ih =>
    exact ih (next_sound hr hv.1).1 (clean_step_keeps_builtins hp hr hk hv.1 hc.1) hv.2 hc.2

end GoPackages.Registry
