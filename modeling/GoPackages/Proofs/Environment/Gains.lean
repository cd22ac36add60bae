import GoPackages.Proofs.Environment.Tracks
import GoPackages.Proofs.Registry.Lookup
import GoPackages.Proofs.Registry.WellFormed

/-!
# What the analysis of a package adds

A step in the analysis of a package is a course that declares names of this package only. The
package lists what was recorded, all other packages keep their lists, and all types keep their
kinds. Packages that come in list nothing.
-/
namespace GoPackages

open Source (TypeSpec ValueSpec FuncDecl GroupKind)
open Registry (Adds Course Extends Naming nextType)

def Package.blank (p : Package) : Package := .ofInfo ⟨p.name, p.importPath, p.dir, p.files⟩

@[simp] theorem blank_contents (p : Package) : p.contents.blank = p.blank := rfl

/-- What was recorded of the package `q` while `pkg` was analyzed. -/
def logFor (pkg q : PackageId) (log : List Listed) : List Listed := if q = pkg then log else []

@[simp] theorem logFor_self (pkg : PackageId) (log : List Listed) : logFor pkg pkg log = log :=
  if_pos rfl

theorem logFor_of_ne {pkg q : PackageId} (h : q ≠ pkg) (log : List Listed) :
    logFor pkg q log = [] := if_neg h

@[simp] theorem logFor_nil (pkg q : PackageId) : logFor pkg q [] = [] := ite_self _

theorem logFor_append (pkg q : PackageId) (log log' : List Listed) :
    logFor pkg q (log ++ log') = logFor pkg q log ++ logFor pkg q log' := by
  unfold logFor
  split <;> rfl

/-- What a step in the analysis of `pkg` adds: the declarations `named` and the records `log`. -/
structure Gains (pkg : PackageId) (named : List Naming) (log : List Listed)
    (reg reg' : Registry) : Prop where
  course : Course reg named reg'
  own : ∀ d ∈ named, d.package = pkg
  kinds : ∀ ty kind, reg.graph.kind? ty = some kind → reg'.graph.kind? ty = some kind
  packages : ∀ q p, reg.package? q = some p → ∃ p', reg'.package? q = some p' ∧
    p'.contents = (logFor pkg q log).foldl Listed.record p.contents ∧ p'.explored = p.explored
  fresh : ∀ q p', reg.package? q = none → reg'.package? q = some p' →
    p'.contents = p'.blank ∧ p'.explored = false

section

variable {pkg q : PackageId} {named named' : List Naming} {log log' : List Listed}
  {reg mid reg' : Registry} {free : TypeId → Prop}

theorem package?_none_of_size (h : reg'.packages.size = reg.packages.size)
    (hq : reg.package? q = none) : reg'.package? q = none := by
  rw [Registry.package?, Array.getElem?_eq_none_iff] at hq ⊢
  rwa [h]

namespace Gains

theorem refl (pkg : PackageId) (reg : Registry) : Gains pkg [] [] reg reg where
  course := .refl reg
  own _ hd := by cases hd
  kinds _ _ h := h
  packages q p hp := ⟨p, hp, by rw [logFor_nil]; rfl, rfl⟩
  fresh q p' hnone hp := by cases hnone.symm.trans hp

theorem trans (h : Gains pkg named log reg mid) (h' : Gains pkg named' log' mid reg')
    (hpkg : reg.Registered pkg) : Gains pkg (named ++ named') (log ++ log') reg reg' where
  course := h.course.trans h'.course
  own d hd := (List.mem_append.mp hd).elim (h.own d) (h'.own d)
  kinds ty kind hk := h'.kinds ty kind (h.kinds ty kind hk)
  packages q p hp := by
    obtain ⟨p₁, hp₁, hcontents₁, hex₁⟩ := h.packages q p hp
    obtain ⟨p₂, hp₂, hcontents₂, hex₂⟩ := h'.packages q p₁ hp₁
    refine ⟨p₂, hp₂, ?_, hex₂.trans hex₁⟩
    rw [hcontents₂, hcontents₁, logFor_append, List.foldl_append]
  fresh q p' hnone hp := by
    cases hmid : mid.package? q with
    | none => exact h'.fresh q p' hmid hp
    | some p₁ =>
      obtain ⟨hblank, hex⟩ := h.fresh q p₁ hnone hmid
      obtain ⟨p₂, hp₂, hcontents, hex'⟩ := h'.packages q p₁ hmid
      obtain rfl := Option.some.inj (hp.symm.trans hp₂)
      have hne : q ≠ pkg := by
        rintro rfl
        obtain ⟨p, hp⟩ := hpkg
        cases hnone.symm.trans hp
      rw [logFor_of_ne hne] at hcontents
      have hsame : p'.contents = p₁.contents := hcontents
      refine ⟨?_, hex'.trans hex⟩
      rw [hsame, hblank, ← blank_contents p', hsame, blank_contents]

theorem registered (h : Gains pkg named log reg reg') (hq : reg.Registered q) :
    reg'.Registered q := by
  obtain ⟨p, hp⟩ := hq
  obtain ⟨p', hp', -⟩ := h.packages q p hp
  exact ⟨p', hp'⟩

theorem hasType (h : Gains pkg named log reg reg') {ty : TypeId} (ht : reg.graph.HasType ty) :
    reg'.graph.HasType ty := by
  obtain ⟨data, hd⟩ := ht.data
  obtain ⟨data', hd', -⟩ :=
    Registry.typeAt?_of_kind? (h.kinds ty _ (Registry.kind?_of_typeAt? hd))
  exact TypeGraph.hasType_of_typeAt? hd'

/-- Changes that make no package and record nothing. -/
theorem of_course (hc : Course reg named reg') (hown : ∀ d ∈ named, d.package = pkg)
    (hkinds : ∀ ty kind, reg.graph.kind? ty = some kind → reg'.graph.kind? ty = some kind)
    (hsize : reg'.packages.size = reg.packages.size)
    (hpackages : ∀ q p, reg.package? q = some p → ∃ p', reg'.package? q = some p' ∧
      p'.contents = p.contents ∧ p'.explored = p.explored) : Gains pkg named [] reg reg' where
  course := hc
  own := hown
  kinds := hkinds
  packages q p hp := by
    rw [logFor_nil]
    exact hpackages q p hp
  fresh q p' hnone hp := by cases (package?_none_of_size hsize hnone).symm.trans hp

theorem then_extends (h : Gains pkg named log reg mid) (hx : Extends q free mid reg')
    (hf : ∀ ty, reg.graph.HasType ty → ¬free ty) : Gains pkg named log reg reg' where
  course := h.course.adds (.of_extends hx)
  own := h.own
  kinds ty kind hkind := by
    obtain ⟨data, hd, -⟩ := Registry.typeAt?_of_kind? hkind
    have hold := hf ty (TypeGraph.hasType_of_typeAt? hd)
    obtain ⟨data', hd', rfl⟩ := Registry.typeAt?_of_kind? (h.kinds ty kind hkind)
    exact Registry.kind?_of_typeAt? (hx.types ty data' hold hd')
  packages q p hp := by
    obtain ⟨p₁, hp₁, hcontents, hex⟩ := h.packages q p hp
    obtain ⟨refs, hp₂⟩ := hx.packages q p₁ hp₁
    exact ⟨_, hp₂, hcontents, hex⟩
  fresh q p' hnone hp := by
    cases hmid : mid.package? q with
    | none => cases (package?_none_of_size hx.packageCount hmid).symm.trans hp
    | some p₁ =>
      obtain ⟨refs, hp₂⟩ := hx.packages q p₁ hmid
      obtain rfl := Option.some.inj (hp.symm.trans hp₂)
      exact h.fresh q p₁ hnone hmid

theorem of_extends (hx : Extends pkg reg.Unmade reg reg') : Gains pkg [] [] reg reg' :=
  (refl pkg reg).then_extends hx fun _ ht hn => hn ht

theorem of_append (pkg : PackageId) {info : PackageInfo} {id : PackageId}
    (h : reg.append (.ofInfo info) = .ok (id, reg')) : Gains pkg [] [] reg reg' where
  course := (Course.refl reg).adds (.of_append h)
  own _ hd := by cases hd
  kinds ty kind hk := by
    rw [(Registry.append_ok h).2.2.1]
    exact hk
  packages q p hp := by
    obtain ⟨p', hp', hu⟩ := Registry.package?_append h hp
    have hex := congrArg Package.explored hu
    rw [logFor_nil]
    exact ⟨p', hp', contents_of_unlinked hu, hex⟩
  fresh q p' hnone hp := by
    have hnew := (Registry.append_ok h).2.2.2.2 q
    rw [hp, hnone] at hnew
    split at hnew
    next =>
      have hu : Registry.unlinked p' = Registry.unlinked (.ofInfo info) := Option.some.inj hnew
      have hcontents : p'.contents = .ofInfo info := contents_of_unlinked hu
      have hex := congrArg Package.explored hu
      refine ⟨?_, hex⟩
      rw [← blank_contents, hcontents]
      rfl
    next => cases hnew

theorem of_listing (pkg : PackageId) {f : Package → Package} (hf : ∀ p, (f p).refs = p.refs ∧
      (f p).types = p.types ∧ (f p).name = p.name ∧ (f p).importPath = p.importPath)
    (hcontents : ∀ p, (f p).contents = log.foldl Listed.record p.contents)
    (hex : ∀ p, (f p).explored = p.explored) : Gains pkg [] log reg (reg.modifyPackage pkg f) where
  course := (Course.refl reg).adds (.of_listing pkg hf)
  own _ hd := by cases hd
  kinds _ _ h := h
  packages q p hp := by
    refine ⟨_, Registry.package?_modifyPackage_of_some hp f, ?_⟩
    split
    next heq =>
      subst heq
      rw [logFor_self]
      exact ⟨hcontents p, hex p⟩
    next hne =>
      rw [logFor_of_ne (Ne.symm hne)]
      exact ⟨rfl, rfl⟩
  fresh q p' hnone hp := by
    have hsize := Registry.packages_size_modifyPackage reg pkg f
    cases (package?_none_of_size hsize hnone).symm.trans hp

theorem of_value (pkg : PackageId) (kind : GroupKind) (v : Variable) :
    Gains pkg [] [.value kind v] reg (listValue reg pkg kind v) := by
  refine of_listing pkg (fun p => ?_) (fun p => contents_record p (.value kind v)) fun p => ?_
  · split <;> exact ⟨rfl, rfl, rfl, rfl⟩
  · split <;> rfl

theorem of_values {kind : GroupKind} {vs : List Variable} (h : ValuesRead pkg kind reg vs reg')
    (hpkg : reg.Registered pkg) : Gains pkg [] (vs.map (.value kind)) reg reg' := by
  induction h with
  | nil reg => exact .refl pkg reg
  | @cons reg mid reg' v vs hx _ ih =>
    have hlisted := (of_extends hx).trans (of_value pkg kind v) hpkg
    exact hlisted.trans (ih (hlisted.registered hpkg)) hpkg

theorem of_attach {name : String} {ty : TypeId} {receiver : Option Argument} {l : Listed}
    (hr : ∀ a, receiver = some a → reg.graph.HasRef a.type) (ht : reg.graph.HasType ty)
    (hl : ∀ p, l.record p = if receiver.isSome then p else p.declareFunction name ty) :
    Gains pkg [] [l] reg (attach pkg name ty receiver reg) := by
  cases receiver with
  | none =>
    refine of_listing pkg (fun _ => ⟨rfl, rfl, rfl, rfl⟩) (fun p => ?_) fun _ => rfl
    exact (congrArg Package.contents (hl p)).symm.trans (contents_record p l)
  | some owner =>
    have hm := Adds.of_method (hr owner rfl) ht
    refine ⟨(Course.refl reg).adds hm, fun _ hd => (by cases hd), ?_, fun q p hp => ?_, ?_⟩
    · exact fun ty kind => (TypeGraph.keeps_addMethod reg.graph owner.type _).kinds ty kind
        (Nat.zero_le _)
    · refine ⟨p, hp, ?_, rfl⟩
      unfold logFor
      split
      · exact (hl p.contents).symm
      · rfl
    · intro q p' hnone hp
      cases hnone.symm.trans hp

theorem declare_kind? (reg : Registry) (pkg : PackageId) (name : String) (kind : TypeKind)
    {ty : TypeId} {k : TypeKind} (h : reg.graph.kind? ty = some k) :
    (reg.declare pkg name kind).2.graph.kind? ty = some k := by
  obtain ⟨data, hd, rfl⟩ := Registry.typeAt?_of_kind? h
  have hx := Registry.extends_introduce reg pkg name kind pkg fun _ => False
  have hne : reg.nextType ≠ ty := by
    rintro rfl
    exact Nat.lt_irrefl _ (TypeGraph.hasType_of_typeAt? hd)
  rw [Registry.declare_eq]
  refine Registry.kind?_of_typeAt? ((TypeGraph.typeAt?_bind_of_ne hne _).trans ?_)
  exact hx.types ty data not_false hd

theorem of_declare (hpkg : reg.Registered pkg) (spec : TypeSpec) (doc : Doc) :
    Gains pkg [⟨pkg, spec.name, .type reg.nextType⟩] [.type spec reg.nextType] reg
      (reg.declare pkg spec.name (kindOf doc spec.type)).2 where
  course := (Course.refl reg).define _ _ hpkg
  own _ hd := congrArg Naming.package (List.mem_singleton.mp hd)
  kinds _ _ := declare_kind? reg pkg _ _
  packages q p hp := by
    obtain ⟨refs, hp'⟩ := Registry.declare_package? hp pkg spec.name (kindOf doc spec.type)
    refine ⟨_, hp', ?_⟩
    split
    next heq =>
      subst heq
      rw [logFor_self, declareKind_kindOf]
      exact ⟨contents_record _ (.type spec reg.nextType), by cases spec.type <;> rfl⟩
    next hne =>
      rw [logFor_of_ne (Ne.symm hne)]
      exact ⟨rfl, rfl⟩
  fresh q p' hnone hp := by
    have hsize : (reg.declare pkg spec.name (kindOf doc spec.type)).2.packages.size =
        reg.packages.size := by
      rw [Registry.declare_eq, Registry.packages_size_modifyPackage]
      exact (Registry.extends_introduce reg pkg _ _ pkg fun _ => False).packageCount
    cases (package?_none_of_size hsize hnone).symm.trans hp

theorem of_rename {name : String} {target : RefId} (hr : reg.Sound) (hpkg : reg.Registered pkg)
    (ht : reg.graph.HasRef target) (h : reg.rename? pkg name target = some reg') :
    Gains pkg [⟨pkg, name, .alias target⟩] [] reg reg' := by
  have heffect := Registry.rename?_effect hr hpkg ht h
  have hshape : ∃ g, reg' = Registry.register { reg with graph := g } pkg name target := by
    unfold Registry.rename? at h
    split at h
    · exact ⟨reg.graph, (Option.some.inj h).symm⟩
    · obtain ⟨g, -, rfl⟩ := Option.map_eq_some_iff.mp h
      exact ⟨g, rfl⟩
  obtain ⟨g, rfl⟩ := hshape
  refine of_course ((Course.refl reg).rename hpkg ht h)
    (fun _ hd => congrArg Naming.package (List.mem_singleton.mp hd)) (fun ty kind hk => ?_)
    (Registry.packages_size_modifyPackage _ _ _) fun q p hp => ?_
  · rw [TypeGraph.kind?, TypeGraph.typeAt?, heffect.types]
    exact hk
  · have hp' : Registry.package? { reg with graph := g } q = some p := hp
    refine ⟨_, Registry.package?_modifyPackage_of_some hp' _, ?_⟩
    split <;> exact ⟨rfl, rfl⟩

end Gains

end

end GoPackages
