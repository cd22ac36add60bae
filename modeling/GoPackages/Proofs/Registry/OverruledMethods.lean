import GoPackages.Proofs.Registry.StoredTypes
import GoPackages.Proofs.Registry.WellFormed

/-!
# Methods that are overruled

A type goes on to have a method under every name that it ever had one under. Methods of one
signature stay so, and the methods of an interface are those of its own declaration. So of all that
later declarations do, only a new method of another signature, in the place of an old one, ends that
a type implements an interface.
-/
namespace GoPackages.Registry

open TypeGraph (Upholds)

variable {reg reg' : Registry} {ty iface : TypeId}

/-- One of the methods that the interface asks for gave way to a method of another signature. -/
def Overruled (reg reg' : Registry) (ty iface : TypeId) : Prop :=
  ∃ type name wanted before after,
    reg.graph.interfaceType? iface = some type ∧ (name, wanted) ∈ type.methods.entries ∧
    reg.methodByName? ty name = some before ∧ reg'.methodByName? ty name = some after ∧
    after ≠ before ∧ reg'.graph.compatible after wanted = false

theorem implements_iff_methods : reg.graph.implements ty iface = true ↔
    (reg.graph.methodsOf? ty).isSome = true ∧ ∃ type, reg.graph.interfaceType? iface = some type ∧
      ∀ name wanted, (name, wanted) ∈ type.methods.entries →
        ∃ own, reg.methodByName? ty name = some own ∧ reg.graph.compatible own wanted = true := by
  unfold TypeGraph.implements methodByName?
  cases reg.graph.interfaceType? iface with
  | none => simp
  | some type =>
    cases reg.graph.methodsOf? ty with
    | none => simp
    | some own => simp [TypeGraph.provides, Option.any_eq_true]

theorem methodsOf?_upheld (hr : reg.WellFormed) (h : Upholds reg.graph reg'.graph)
    {own : MethodSet} (hown : reg.graph.methodsOf? ty = some own) :
    ∃ own', reg'.graph.methodsOf? ty = some own' ∧
      ∀ name, own.contains name = true → own'.contains name = true := by
  obtain ⟨data, hd, hmethods⟩ := Option.bind_eq_some_iff.mp hown
  obtain ⟨added, hd'⟩ := h.types ty data hd
  have hdefined : data.declaredBy.map reg.graph.refMethods = some own →
      ∃ own', data.declaredBy.map reg'.graph.refMethods = some own' ∧
        ∀ name, own.contains name = true → own'.contains name = true := by
    intro hset
    obtain ⟨r, hdeclared, rfl⟩ := Option.map_eq_some_iff.mp hset
    refine ⟨reg'.graph.refMethods r, by rw [hdeclared, Option.map_some], fun name hname => ?_⟩
    exact h.methods r name ((hr.types ty data hd).declaredBy r hdeclared) hname
  cases hk : data.kind with
  | interface type =>
    rw [TypeData.listing_of_ne_struct (fun _ hs => by rw [hk] at hs; cases hs)] at hd'
    simp only [hk] at hmethods
    refine ⟨own, ?_, fun _ hname => hname⟩
    simp only [TypeGraph.methodsOf?, hd', Option.bind_some, hk, hmethods]
  | base =>
    rw [TypeData.listing_of_ne_struct (fun _ hs => by rw [hk] at hs; cases hs)] at hd'
    simp only [hk] at hmethods
    simpa only [TypeGraph.methodsOf?, hd', Option.bind_some, hk] using hdefined hmethods
  | struct type =>
    rw [TypeData.listing_struct hk] at hd'
    simp only [hk] at hmethods
    simpa only [TypeGraph.methodsOf?, hd', Option.bind_some] using hdefined hmethods
  | method | map => simp only [hk] at hmethods; cases hmethods

theorem methodByName?_upheld (hr : reg.WellFormed) (h : Upholds reg.graph reg'.graph)
    {name : String} {before : TypeId} (hbefore : reg.methodByName? ty name = some before) :
    ∃ after, reg'.methodByName? ty name = some after := by
  obtain ⟨own, hown, hget⟩ := Option.bind_eq_some_iff.mp hbefore
  obtain ⟨own', hown', hkept⟩ := methodsOf?_upheld hr h hown
  have hcontains : own.contains name = true := by rw [OrderedMap.contains, hget, Option.isSome_some]
  obtain ⟨after, hafter⟩ := Option.isSome_iff_exists.mp (hkept name hcontains)
  exact ⟨after, Option.bind_eq_some_iff.mpr ⟨own', hown', hafter⟩⟩

/-- What a type implemented it implements, unless one of its methods was overruled. -/
theorem implements_iff_not_overruled (hr : reg.WellFormed) (h : Upholds reg.graph reg'.graph)
    (himplements : reg.graph.implements ty iface = true) :
    reg'.graph.implements ty iface = true ↔ ¬reg.Overruled reg' ty iface := by
  obtain ⟨hhas, type, htype, hprovided⟩ := implements_iff_methods.mp himplements
  obtain ⟨own, hown⟩ := Option.isSome_iff_exists.mp hhas
  rw [implements_iff_methods]
  constructor
  · rintro ⟨-, type', htype', hall⟩ ⟨overruled, name, wanted, before, after, hi, hwanted, -, hafter,
      -, hfalse⟩
    obtain rfl := Option.some.inj ((h.interfaceType? hi).symm.trans htype')
    obtain ⟨found, hfound, hcompatible⟩ := hall name wanted hwanted
    obtain rfl := Option.some.inj (hafter.symm.trans hfound)
    rw [hfalse] at hcompatible
    cases hcompatible
  · intro hnot
    obtain ⟨own', hown', -⟩ := methodsOf?_upheld hr h hown
    refine ⟨by rw [hown', Option.isSome_some], type, h.interfaceType? htype, ?_⟩
    intro name wanted hwanted
    obtain ⟨before, hbefore, hcompatible⟩ := hprovided name wanted hwanted
    obtain ⟨after, hafter⟩ := methodByName?_upheld hr h hbefore
    refine ⟨after, hafter, ?_⟩
    by_cases hsame : after = before
    · rw [hsame]
      exact h.compatible hcompatible
    · by_contra hfalse
      rw [Bool.not_eq_true] at hfalse
      exact hnot ⟨type, name, wanted, before, after, htype, hwanted, hbefore, hafter, hsame, hfalse⟩

end GoPackages.Registry
