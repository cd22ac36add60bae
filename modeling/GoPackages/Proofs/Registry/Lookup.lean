import GoPackages.Proofs.Registry.Tables

/-!
# Names looked up and declared in a course

Every action is a course with at most the name that it declares. A bare name is looked up in the
package of the file before the packages imported without a qualifier, and only a name that none of
them has gets an entry, in the package of the file.
-/
namespace GoPackages

open Source (TypeSpec)
open Registry (Course Adds Naming)

namespace Registry

variable {reg mid reg' : Registry} {scope : FileScope} {doc : Option Doc} {spec : TypeSpec}
  {name : String} {r : RefId}

def Action.declares : Action → List (PackageId × String)
  | .typeSpec scope _ spec => [(scope.package, spec.name)]
  | .append _ | .ensureRef _ _ | .valueSpec _ _ _ _ _ | .func _ _ | .appendDoc _ _
  | .markExplored _ | .recordImplementations _ => []

theorem Extends.package? {pkg q : PackageId} {free : TypeId → Prop}
    (h : Extends pkg free reg reg') (hp : ∃ p, reg.package? q = some p) :
    ∃ p, reg'.package? q = some p := by
  obtain ⟨p, hp⟩ := hp
  obtain ⟨refs, hp'⟩ := h.packages q p hp
  exact ⟨_, hp'⟩

theorem defines_course {kind : TypeKind} (h : Defines scope name kind reg mid reg')
    (hs : scope.Sound reg) :
    Course reg [⟨scope.package, name, .type mid.nextType⟩] reg' := by
  have hread := (Course.refl reg).adds (.of_extends h.before)
  exact (hread.define name kind (h.before.package? hs.package)).adds (.of_extends h.after)

theorem rename?_of_renames (h : Renames scope name mid reg') : ∃ target,
    mid.graph.HasRef target ∧ mid.rename? scope.package name target = some reg' := by
  obtain ⟨target, ht, h⟩ := h
  refine ⟨target, ht, ?_⟩
  unfold Registry.rename?
  cases hex : mid.ref? scope.package name with
  | none =>
    rw [hex] at h
    exact congrArg some h.symm
  | some existing =>
    rw [hex] at h
    obtain ⟨g, hg, rfl⟩ := h
    exact Option.map_eq_some_iff.mpr ⟨g, hg, rfl⟩

theorem next_course (hr : reg.Sound) {action : Action} (he : reg.Enabled action) :
    ∃ named, Course reg named (reg.next action) ∧
      (named.map Naming.key).Sublist action.declares := by
  by_cases ht : ∃ scope doc spec, action = .typeSpec scope doc spec
  · obtain ⟨scope, doc, spec, rfl⟩ := ht
    cases typeSpec_effect hr he doc spec with
    | defined _ hd => exact ⟨_, defines_course hd he, .refl _⟩
    | renamed _ hx hren =>
      obtain ⟨target, htarget, hren⟩ := rename?_of_renames hren
      have hread := (Course.refl reg).adds (.of_extends hx)
      exact ⟨_, hread.rename (hx.package? he.package) htarget hren, .refl _⟩
    | refused _ _ hx => exact ⟨[], (Course.refl reg).adds (.of_extends hx), List.nil_sublist _⟩
  · have ha := next_adds hr he fun scope doc spec h => ht ⟨scope, doc, spec, h⟩
    exact ⟨[], (Course.refl reg).adds ha, List.nil_sublist _⟩

theorem declareAlias_of_read {type : Source.TypeExpr} {target : RefId} {read : Registry}
    (h : resolveType scope type reg = .ok target read) : declareAlias scope name type reg =
      match read.rename? scope.package name target with
      | some reg' => .ok () reg'
      | none => .error (.unsupported .recursiveAlias) read := by
  have hget : (get : Analysis Registry) read = .ok read read := rfl
  unfold declareAlias Registry.rename?
  refine (bind_eq_of_ok h).trans ((bind_eq_of_ok hget).trans ?_)
  cases read.ref? scope.package name with
  | none => rfl
  | some existing =>
    dsimp only
    cases read.graph.aliasTo? existing target <;> rfl

theorem rename?_of_declareAlias {type : Source.TypeExpr}
    (h : declareAlias scope name type reg = .ok () reg') : ∃ target read,
      resolveType scope type reg = .ok target read ∧
      read.rename? scope.package name target = some reg' := by
  obtain ⟨target, read, hread, -⟩ := bind_ok h
  refine ⟨target, read, hread, ?_⟩
  rw [declareAlias_of_read hread] at h
  split at h
  · cases h
    assumption
  · cases h

theorem alias_course (hr : reg.Sound) (hs : scope.Sound reg) (ha : spec.isAlias = true)
    (h : declareTypeSpec scope doc spec reg = .ok () reg') : ∃ inner opened target read,
      scope.withTypeParams (Source.declaredNames spec.typeParams) reg = .ok inner opened ∧
      resolveType inner spec.type opened = .ok target read ∧
      Course reg [⟨scope.package, spec.name, .alias target⟩] reg' := by
  unfold declareTypeSpec at h
  simp only [ha, if_true] at h
  obtain ⟨inner, opened, hopen, h⟩ := bind_ok h
  obtain ⟨hx, hsi, params, rfl, -⟩ := (withTypeParams_total hr hs _).of_ok hopen
  obtain ⟨target, read, hread, hren⟩ := rename?_of_declareAlias h
  obtain ⟨hx', htarget, -⟩ := (resolveType_reads (hx.sound hr) hsi spec.type).of_ok hread
  refine ⟨_, opened, target, read, hopen, hread, ?_⟩
  have hcourse := ((Course.refl reg).adds (.of_extends hx)).adds (.of_extends hx')
  exact hcourse.rename (hx'.package? (hx.package? hs.package)) htarget hren

end Registry

section Lookups

variable {reg reg' : Registry} {scope : FileScope} {name : String} {r : RefId}

theorem resolveName_ok (hl : scope.typeParams.lookup name = none)
    (h : scope.resolveName name reg = .ok r reg') :
    (scope.package :: scope.dotImports).findSome? (reg.ref? · name) = some r ∧ reg' = reg ∨
      (∀ q ∈ scope.package :: scope.dotImports, reg.ref? q name = none) ∧
        r = (reg.ensureRef scope.package name).1.1 ∧
        reg' = (reg.ensureRef scope.package name).2 := by
  unfold FileScope.resolveName at h
  split at h
  · cases h
  · obtain ⟨_, _, hget, h⟩ := bind_ok h
    cases hget
    have hknown : scope.known? reg name =
        (scope.package :: scope.dotImports).findSome? (reg.ref? · name) := by
      unfold FileScope.known?
      rw [hl]
    rw [hknown] at h
    cases hfound : (scope.package :: scope.dotImports).findSome? (reg.ref? · name) with
    | some s =>
      rw [hfound] at h
      cases h
      exact .inl ⟨rfl, rfl⟩
    | none =>
      rw [hfound] at h
      cases h
      exact .inr ⟨List.findSome?_eq_none_iff.mp hfound, rfl, rfl⟩

/-- What a table has for a name after a look-up in it. -/
structure Registry.Obtained (reg : Registry) (q : PackageId) (name : String) (r : RefId)
    (reg' : Registry) : Prop where
  adds : Adds reg reg'
  slot : reg'.ref? q name = some r

theorem Registry.obtained_ensureRef {q : PackageId} (hq : ∃ p, reg.package? q = some p)
    (name : String) :
    reg.Obtained q name (reg.ensureRef q name).1.1 (reg.ensureRef q name).2 := by
  obtain ⟨p, hp⟩ := hq
  exact ⟨.of_ensureRef reg q name,
    Registry.ref?_ensureRef hp name⟩

/-- The package of the file has the name, or no package imported without a qualifier has it. -/
def FileScope.Owns (scope : FileScope) (reg : Registry) (name : String) : Prop :=
  reg.ref? scope.package name ≠ none ∨ ∀ q ∈ scope.dotImports, reg.ref? q name = none

theorem resolveName_own (hs : scope.Sound reg) (hl : scope.typeParams.lookup name = none)
    (hown : scope.Owns reg name) (h : scope.resolveName name reg = .ok r reg') :
    reg.Obtained scope.package name r reg' := by
  rcases resolveName_ok hl h with ⟨hfound, rfl⟩ | ⟨-, rfl, rfl⟩
  · refine ⟨.refl _, ?_⟩
    rw [List.findSome?_cons] at hfound
    split at hfound
    next s hslot => exact hfound ▸ hslot
    next hnone =>
      obtain ⟨q, hq, hr⟩ := List.exists_of_findSome?_eq_some hfound
      rcases hown with hsome | hnone'
      · exact absurd hnone hsome
      · cases (hnone' q hq).symm.trans hr
  · exact Registry.obtained_ensureRef hs.package name

theorem resolveName_imported (hl : scope.typeParams.lookup name = none)
    (hown : ¬scope.Owns reg name) (h : scope.resolveName name reg = .ok r reg') :
    ∃ front q back, scope.dotImports = front ++ q :: back ∧
      (∀ p ∈ front, reg.ref? p name = none) ∧ reg.ref? q name = some r ∧
      reg.Obtained q name r reg' := by
  obtain ⟨hnone, hsome⟩ := not_or.mp hown
  rw [not_not] at hnone
  rcases resolveName_ok hl h with ⟨hfound, rfl⟩ | ⟨hall, -⟩
  · rw [List.findSome?_cons, hnone] at hfound
    obtain ⟨front, q, back, hq, hslot, hfront⟩ := List.findSome?_eq_some_iff.mp hfound
    exact ⟨front, q, back, hq, hfront, hslot, .refl _, hslot⟩
  · exact absurd (fun q hq => hall q (List.mem_cons_of_mem _ hq)) hsome

theorem resolveQualified_ok (hs : scope.Sound reg) {qualifier : String} {q : PackageId}
    (hq : scope.aliases.get? qualifier = some q)
    (h : scope.resolveQualified (.ident qualifier) name reg = .ok r reg') :
    reg.Obtained q name r reg' := by
  unfold FileScope.resolveQualified at h
  dsimp only at h
  rw [hq] at h
  cases h
  exact Registry.obtained_ensureRef (hs.aliases qualifier q hq) name

end Lookups

namespace Registry

variable {reg mid mid' : Registry} {q : PackageId} {name : String} {r : RefId}
  {before after : List Naming}

namespace Obtained

theorem sound (h : mid.Obtained q name r mid') (hmid : mid.Sound) : mid'.Sound :=
  (h.adds.leads hmid).sound

theorem hasRef (h : mid.Obtained q name r mid') (hmid : mid.Sound)
    (hafter : Course mid' after reg) :
    reg.graph.HasRef r :=
  (hafter.leads (h.sound hmid)).refs r ((h.sound hmid).refs q name r h.slot)

theorem leadsTo (h : mid.Obtained q name r mid') (hmid : mid.Sound)
    (hafter : Course mid' after reg) : reg.LeadsTo q name r :=
  (hafter.leads (h.sound hmid)).tables q name r h.slot

theorem course (h : mid.Obtained q name r mid') (hbefore : Course .new before mid)
    (hafter : Course mid' after reg) : Course .new (before ++ after) reg :=
  (hbefore.adds h.adds).trans hafter

/-- While no name is declared twice, it cannot be told from what the table has for the name. -/
theorem alike (h : mid.Obtained q name r mid') (hbefore : Course .new before mid)
    (hafter : Course mid' after reg) (honce : Once (before ++ after)) :
    ∃ s, reg.ref? q name = some s ∧ reg.graph.Alike r s := by
  have hmid : Tabled before mid := hbefore.tabled new_tabled honce.of_append_left
  obtain ⟨s, hs, heq⟩ := hafter.nameOf_slot (hmid.adds h.adds) honce h.slot
  have hreg := (hafter.leads (h.sound hmid.sound)).sound
  exact ⟨s, hs, TypeGraph.alike_of_canonical (TypeGraph.reachable_grounded hreg.graph)
    (h.hasRef hmid.sound hafter) (hreg.refs q name s hs) heq⟩

end Obtained

def newPackage : Registry := Registry.new.next (.append ⟨"p", "p", "", []⟩)

def newScope : FileScope :=
  { package := ⟨1⟩, decodeTag := fun _ => .ok [], dotImports := [builtinId] }

theorem newScope_sound {reg : Registry} (h : ∃ p, reg.package? ⟨1⟩ = some p) :
    newScope.Sound reg := ⟨h, nofun, nofun⟩

theorem newPackage_course : Course .new [] newPackage ∧ ∃ p, newPackage.package? ⟨1⟩ = some p := by
  have happend : Registry.new.append (.ofInfo ⟨"p", "p", "", []⟩) = .ok (⟨1⟩, newPackage) := by
    decide +kernel
  exact ⟨(Course.refl .new).adds (.of_append happend),
    Option.isSome_iff_exists.mp (by decide +kernel)⟩

end Registry

end GoPackages
