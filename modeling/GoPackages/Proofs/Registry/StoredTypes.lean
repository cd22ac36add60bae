import GoPackages.Proofs.Registry.Lookup
import GoPackages.Proofs.TypeGraph.Upholds

/-!
# Stored types are there to stay

Fields and methods come into a type only while its own declaration is read, and nothing is ever
bound to another name. So whatever is done to a registry afterwards, also the declaration of the
same name again, upholds what it says of its types: what is added later are interfaces to the lists
of structs and methods to names.
-/
namespace GoPackages

namespace TypeGraph

def fields? (g : TypeGraph) (ty : TypeId) : Option (List StructField) :=
  (g.structType? ty).map (·.fields)

variable {g g' : TypeGraph} {ty : TypeId} {fields : List StructField}

theorem fields?_of_typeAt? {data : TypeData} {type : StructType} (hd : g.typeAt? ty = some data)
    (hk : data.kind = .struct type) : g.fields? ty = some type.fields := by
  rw [fields?, structType?_eq_some_iff.mpr ⟨data, hd, hk⟩, Option.map_some]

def KeepsFields (g g' : TypeGraph) : Prop :=
  ∀ ty fields, g.fields? ty = some fields → g'.fields? ty = some fields

theorem Upholds.keepsFields (h : Upholds g g') : KeepsFields g g' := by
  intro ty fields hf
  obtain ⟨type, htype, rfl⟩ := Option.map_eq_some_iff.mp hf
  obtain ⟨data, hd, hk⟩ := structType?_eq_some_iff.mp htype
  obtain ⟨added, hd'⟩ := h.types ty data hd
  rw [TypeData.listing_struct hk] at hd'
  have hnow := fields?_of_typeAt? hd' rfl
  exact hnow

end TypeGraph

open TypeGraph (Upholds)

namespace Registry

variable {reg mid reg' : Registry} {pkg : PackageId} {scope : FileScope}

theorem Extends.upholds_of_free {free : TypeId → Prop} (h : Extends pkg free reg reg')
    (hr : reg.Sound) (hfree : ∀ ty data, reg.graph.typeAt? ty = some data → ¬free ty) :
    Upholds reg.graph reg'.graph := by
  have hg := TypeGraph.reachable_grounded hr.graph
  have hg' := TypeGraph.reachable_grounded (h.sound hr).graph
  refine .of_edges hg hg' (Adds.of_extends h).keepsEdges (fun ty data hd => ⟨[], ?_⟩) ?_
  · rw [data.listing_nil]
    exact h.types ty data (hfree ty data hd) hd
  · intro r e e' he he' n hn
    obtain rfl : e = e' := by simpa using (h.entries r _ he).symm.trans he'
    exact hn

theorem Extends.upholds (h : Extends pkg reg.Unmade reg reg') (hr : reg.Sound) :
    Upholds reg.graph reg'.graph :=
  h.upholds_of_free hr fun _ _ hd hnew => hnew (TypeGraph.hasType_of_typeAt? hd)

theorem declare_typeAt?_of_hasType {ty : TypeId} {data : TypeData}
    (hd : reg.graph.typeAt? ty = some data) (pkg : PackageId) (name : String) (kind : TypeKind) :
    (reg.declare pkg name kind).2.graph.typeAt? ty = some data := by
  have hx := extends_introduce reg pkg name kind pkg fun _ => False
  have hne : reg.nextType ≠ ty := by
    rintro rfl
    exact Nat.lt_irrefl _ (TypeGraph.hasType_of_typeAt? hd)
  rw [declare_eq]
  exact (TypeGraph.typeAt?_bind_of_ne hne _).trans (hx.types ty data not_false hd)

theorem declare_methods {x : RefId} {e e' : NamedRef} {name : String} {kind : TypeKind}
    (he : reg.graph.entryAt? x = some (.named e))
    (he' : (reg.declare pkg name kind).2.graph.entryAt? x = some (.named e')) :
    e'.methods = e.methods := by
  have hx := (extends_introduce reg pkg name kind pkg fun _ => False).entries x _ he
  rw [declare_eq] at he'
  change ((reg.introduce pkg name kind).2.graph.modifyNamed _ _).entryAt? x = _ at he'
  obtain ⟨old, hold, heq⟩ := TypeGraph.entryAt?_modifyNamed_cases he'
  obtain rfl : e = old := by simpa using hx.symm.trans hold
  rcases heq with rfl | ⟨-, rfl⟩ <;> rfl

theorem upholds_of_defines {name : String} {kind : TypeKind} (hr : reg.Sound)
    (h : Defines scope name kind reg mid reg') : Upholds reg.graph reg'.graph := by
  have hmid := h.before.sound hr
  have hdeclared := declare_sound hmid scope.package name kind
  have hkept := TypeGraph.keepsEdges_bind (mid.introduce scope.package name kind).2.graph
    (mid.introduce scope.package name kind).1 mid.nextType
  have hintroduced := (Adds.of_extends (extends_introduce mid scope.package name kind
    scope.package fun _ => False)).keepsEdges
  refine (h.before.upholds hr).trans (.of_edges (TypeGraph.reachable_grounded hmid.graph)
    (TypeGraph.reachable_grounded (h.after.sound hdeclared).graph) ?_ ?_ ?_)
  · exact (hintroduced.trans hkept).trans (Adds.of_extends h.after).keepsEdges
  · intro ty data hd
    have hold := declare_typeAt?_of_hasType hd scope.package name kind
    refine ⟨[], ?_⟩
    rw [data.listing_nil]
    refine h.after.types ty data ?_ hold
    rintro (rfl | hnew)
    · exact Nat.lt_irrefl _ (TypeGraph.hasType_of_typeAt? hd)
    · exact hnew (TypeGraph.hasType_of_typeAt? hold)
  · intro x e e' he he' n hn
    obtain ⟨named, hnamed⟩ := (hintroduced.trans hkept).names x e he
    obtain rfl : named = e' := by simpa using (h.after.entries x _ hnamed).symm.trans he'
    have hmethods := declare_methods he hnamed
    rwa [hmethods]

theorem upholds_of_renames {name : String} (hr : mid.Sound)
    (h : Renames scope name mid reg') : Upholds mid.graph reg'.graph := by
  obtain ⟨target, htarget, h⟩ := h
  split at h
  next => exact h ▸ .refl _
  next existing hexisting =>
    obtain ⟨graph, halias, rfl⟩ := h
    exact .of_aliasTo hr.graph (hr.refs _ _ _ hexisting) htarget halias

theorem upholds_of_values {kind : Source.GroupKind} {vs : List Variable}
    (h : ValuesRead pkg kind reg vs reg') (hr : reg.Sound) : Upholds reg.graph reg'.graph := by
  induction h with
  | nil reg => exact .refl _
  | @cons reg mid reg' v vs hx _ ih =>
    have hlisted := (Spares.of_listing pkg (listValue_refs kind v)).sound (hx.sound hr)
    exact (hx.upholds hr).trans (ih hlisted)

/-- No action takes back what a registry says of its types. -/
theorem next_upholds (hr : reg.Sound) {action : Action} (he : reg.Enabled action) :
    Upholds reg.graph (reg.next action).graph := by
  cases action with
  | append info =>
    simp only [next]
    split
    next happend => rw [(append_ok happend).2.2.1]; exact .refl _
    next => exact .refl _
  | ensureRef q n =>
    have hx : Extends q reg.Unmade reg (reg.ensureRef q n).2 := extends_ensureRef reg q n
    exact hx.upholds hr
  | typeSpec scope doc spec =>
    cases typeSpec_effect hr he doc spec with
    | defined _ hd => exact upholds_of_defines hr hd
    | renamed _ hx hren => exact (hx.upholds hr).trans (upholds_of_renames (hx.sound hr) hren)
    | refused _ _ hx => exact hx.upholds hr
  | valueSpec scope kind doc spec source =>
    refine (declareValueSpec_reads hr he kind doc spec source).stateAfter
      (P := fun last => Upholds reg.graph last.graph) ?_ ?_
    · rintro _ _ ⟨mid, vs, hx, hvs, -⟩
      exact (hx.upholds hr).trans (upholds_of_values hvs (hx.sound hr))
    · rintro _ ⟨mid, hx, vs, last, hvs, hx'⟩
      have hmid := hx.sound hr
      have hlast := (Spares.of_values hvs).sound hmid
      exact ((hx.upholds hr).trans (upholds_of_values hvs hmid)).trans (hx'.upholds hlast)
  | func scope decl =>
    refine (declareFunc_reads hr he decl).stateAfter
      (P := fun last => Upholds reg.graph last.graph) ?_ fun _ hx => hx.upholds hr
    rintro _ _ ⟨mid, params, ty, t, hf, rfl⟩
    refine (hf.read.upholds hr).trans ?_
    unfold attach
    split
    next owner howner =>
      obtain ⟨data, hd, -⟩ := hf.named
      exact .of_addMethod (hf.read.sound hr).graph (hf.owner owner howner)
        (TypeGraph.hasType_of_typeAt? hd)
    next => exact .refl _
  | appendDoc q lines => exact .refl _
  | markExplored q => exact .refl _
  | recordImplementations q =>
    simp only [next]
    cases hp : reg.package? q with
    | none => rw [recordImplementations, hp]; exact .refl _
    | some p =>
      rw [recordImplementations_eq hp]
      exact .of_lists (TypeGraph.recordStructs_lists _ p.interfaces.ids p.structs.ids).1

theorem run_upholds (hr : reg.Sound) {actions : List Action} (hv : reg.ValidRun actions) :
    Upholds reg.graph (reg.run actions).graph := by
  induction actions generalizing reg with
  | nil => exact .refl _
  | cons action rest ih =>
    exact (next_upholds hr hv.1).trans (ih (next_sound hr hv.1).1 hv.2)

theorem run_keepsFields (hr : reg.Sound) {actions : List Action} (hv : reg.ValidRun actions) :
    TypeGraph.KeepsFields reg.graph (reg.run actions).graph :=
  (run_upholds hr hv).keepsFields

end Registry

end GoPackages
