import GoPackages.Proofs.Analysis.Shields
import GoPackages.Proofs.Registry.Recursion
import GoPackages.Proofs.Registry.TypeParameters

/-!
# References out of reach

A reference that no table has stays out of the tables, since only the declaration of an alias enters
a reference that was there before, and an alias finds it in a table. So no name is read as it again.
-/
namespace GoPackages

open Source (TypeExpr TypeSpec FuncDecl Expr)

namespace Registry

structure Unheld (reg : Registry) (r : RefId) : Prop where
  made : reg.graph.HasRef r
  tables : ∀ q n, reg.ref? q n ≠ some r

/-- No name is read as the reference, also while a declaration is under way, unless it is a type
parameter or an alias was declared to stand for it. -/
def OutOfReach (reg : Registry) (r : RefId) : Prop :=
  ∀ named now, Course reg named now → (∀ d ∈ named, d.meant ≠ .alias r) →
    ∀ (scope : FileScope) written s now', scope.Sound now → (∀ p ∈ scope.typeParams, p.2 ≠ r) →
      scope.resolveWritten written now = .ok s now' → s ≠ r

section Changes

variable {reg mid reg' : Registry} {r target : RefId} {pkg : PackageId} {name : String}

namespace Unheld

variable (h : reg.Unheld r)
include h

theorem adds (ha : Adds reg reg') : reg'.Unheld r where
  made := Nat.lt_of_lt_of_le h.made ha.spares.refCount
  tables q n hr := by
    rcases ha.placed q n r hr with hold | ⟨hnew, -⟩
    · exact h.tables q n hold
    · exact hnew h.made

theorem declare (pkg : PackageId) (name : String) (kind : TypeKind) :
    (reg.declare pkg name kind).2.Unheld r where
  made := declare_hasRef h.made pkg name kind
  tables q n hr := by
    have hx := Adds.of_extends (extends_introduce reg pkg name kind pkg fun _ => False)
    exact (h.adds hx).tables q n ((declare_ref? reg pkg name kind q n).symm.trans hr)

theorem slot_of_renamed (hren : Renamed reg pkg name target reg') {q : PackageId} {n : String}
    (hslot : reg'.ref? q n = some r) : (q, n) = (pkg, name) ∧ target = r := by
  by_cases hkey : (q, n) = (pkg, name)
  · obtain ⟨rfl, rfl⟩ := Prod.mk.inj hkey
    exact ⟨rfl, Option.some.inj (hren.own.symm.trans hslot)⟩
  · exact absurd ((hren.others q n hkey).symm.trans hslot) (h.tables q n)

theorem renamed (hren : Renamed reg pkg name target reg') (hne : target ≠ r) : reg'.Unheld r where
  made := hren.refs r h.made
  tables _ _ hslot := hne (h.slot_of_renamed hren hslot).2

theorem course (hr : reg.Sound) {named : List Naming} (hc : Course reg named reg')
    (hne : ∀ d ∈ named, d.meant ≠ .alias r) : reg'.Unheld r := by
  induction hc with
  | refl => exact h
  | adds _ ha ih => exact (ih hne).adds ha
  | define name kind _ _ ih =>
    exact (ih fun d hd => hne d (List.mem_append_left _ hd)).declare _ name kind
  | rename hc hp ht hren ih =>
    have hmid := ih fun d hd => hne d (List.mem_append_left _ hd)
    refine hmid.renamed (rename?_effect (hc.leads hr).sound hp ht hren) fun heq => ?_
    exact hne _ (List.mem_append_right _ (List.mem_singleton_self _)) (heq ▸ rfl)

theorem ne_of_obtained {q : PackageId} {n : String} {s : RefId}
    (hob : reg.Obtained q n s reg') : s ≠ r := by
  rintro rfl
  exact (h.adds hob.adds).tables q n hob.slot

theorem outOfReach (hr : reg.Sound) : reg.OutOfReach r := by
  intro named now hc hne scope written s now' hs hparams hlook
  have hnow := h.course hr hc hne
  rcases resolveWritten_ok hs hlook with ⟨slot, -, hob⟩ | ⟨-, -, hl⟩
  · exact hnow.ne_of_obtained hob
  · exact hparams _ (mem_of_lookup hl)

end Unheld

end Changes

section Declarations

variable {scope inner : FileScope} {reg opened reg' : Registry} {doc : Option Doc}
  {spec : TypeSpec} {decl : FuncDecl} {r : RefId}

/-- What comes of the declaration of an alias whose scope is open: either the registry as reading
its type left it, or the alias stands for what its type was read as. -/
inductive AliasOutcome (scope inner : FileScope) (spec : TypeSpec) (opened : Registry) :
    Registry → Prop where
  | read : AliasOutcome scope inner spec opened (stateAfter (resolveType inner spec.type) opened)
  | renamed {target read reg'} : resolveType inner spec.type opened = .ok target read →
      Renamed read scope.package spec.name target reg' →
      AliasOutcome scope inner spec opened reg'

theorem aliasOutcome
    (h : ScopeOpened scope (Source.declaredNames spec.typeParams) reg inner opened)
    (doc : Option Doc) (ha : spec.isAlias = true) :
    AliasOutcome scope inner spec opened (reg.next (.typeSpec scope doc spec)) := by
  cases hread : resolveType inner spec.type opened with
  | error e reg' =>
    rw [next_of_error (declareTypeSpec_eq_error doc ha h.opens hread), ← stateAfter_of_error hread]
    exact .read
  | ok target read =>
    have hreads : scope.ReadsType reg spec target read := ⟨inner, opened, h.opens, hread⟩
    obtain ⟨hx, htarget, -⟩ := (resolveType_reads h.sound h.inScope spec.type).of_ok hread
    have hdecl := hreads.declares doc ha
    cases hren : read.rename? scope.package spec.name target with
    | none =>
      rw [hren] at hdecl
      rw [next_of_error hdecl, ← stateAfter_of_ok hread]
      exact .read
    | some reg' =>
      rw [hren] at hdecl
      rw [next_of_ok hdecl]
      have hp := hx.package? h.inScope.package
      rw [h.package] at hp
      exact .renamed hread (rename?_effect (hx.sound h.sound) hp htarget hren)

theorem reading_adds (hr : opened.Sound) (hsi : inner.Sound opened) (type : TypeExpr) :
    Adds opened (stateAfter (resolveType inner type) opened) := by
  apply (resolveType_reads hr hsi type).stateAfter
  · intro r reg' hdone
    exact .of_extends hdone.1
  · intro reg' hfailed
    exact .of_extends hfailed

theorem filling_adds (hr : opened.Sound) (hsi : inner.Sound opened) (pkg : PackageId)
    (name : String) (doc : Doc) (type : TypeExpr) :
    Adds (opened.declare pkg name (kindOf doc type)).2
      (stateAfter (fill inner opened.nextType type)
        (opened.declare pkg name (kindOf doc type)).2) := by
  have hfill := fill_reads (declare_sound hr pkg name (kindOf doc type))
    (hsi.declare pkg name (kindOf doc type))
    (declare_typeAt? opened pkg name (kindOf doc type)) rfl
  apply hfill.stateAfter
  · intro _ reg' hdone
    exact .of_extends hdone.1
  · intro reg' hfailed
    exact .of_extends hfailed

/-- An alias is read as a reference that no table has only where it is the bare name of a type
parameter. -/
theorem Unheld.target_of_read (h : opened.Unheld r) (hempty : r ≠ TypeGraph.emptyInterface)
    (hr : opened.Sound) (hsi : inner.Sound opened) {type : TypeExpr}
    (hread : resolveType inner type opened = .ok r reg') :
    ∃ n, bareName? type = some n ∧ inner.typeParams.lookup n = some r := by
  rcases resolveType_old hr hsi type hread h.made with heq | ⟨q, n, hslot⟩ | hparam
  · exact absurd heq hempty
  · exact absurd hslot (h.tables q n)
  · exact hparam

/-- A declaration whose scope is open enters the reference into no table, unless it is that of an
alias with a bare type parameter as its type. Then the name of the alias stands for it. -/
theorem Unheld.typeSpec (h : opened.Unheld r) (hempty : r ≠ TypeGraph.emptyInterface)
    (hopen : ScopeOpened scope (Source.declaredNames spec.typeParams) reg inner opened)
    (doc : Option Doc) :
    (reg.next (.typeSpec scope doc spec)).Unheld r ∨ spec.isAlias = true ∧
      (∃ n, bareName? spec.type = some n ∧ inner.typeParams.lookup n = some r) ∧
      ∀ q n, (reg.next (.typeSpec scope doc spec)).ref? q n = some r →
        (q, n) = (scope.package, spec.name) := by
  cases ha : spec.isAlias with
  | false =>
    left
    have hrun := declareTypeSpec_eq_filled doc ha hopen.package hopen.opens
    have hadds := filling_adds hopen.sound hopen.inScope scope.package spec.name
      ((spec.doc.or doc).getD []) spec.type
    have hlast := (h.declare ..).adds hadds
    rwa [stateAfter, ← hrun] at hlast
  | true =>
    have hread := h.adds (reading_adds hopen.sound hopen.inScope spec.type)
    have hout := aliasOutcome hopen doc ha
    generalize reg.next (.typeSpec scope doc spec) = reg' at hout ⊢
    cases hout with
    | read => exact .inl hread
    | @renamed target read reg' hok hren =>
      rw [stateAfter_of_ok hok] at hread
      by_cases htarget : target = r
      · subst htarget
        refine .inr ⟨rfl, h.target_of_read hempty hopen.sound hopen.inScope hok, ?_⟩
        intro q n hslot
        exact (hread.slot_of_renamed hren hslot).1
      · exact .inl (hread.renamed hren htarget)

theorem Unheld.next (h : reg.Unheld r) (hempty : r ≠ TypeGraph.emptyInterface) (hr : reg.Sound)
    {action : Action} (he : reg.Enabled action) : (reg.next action).Unheld r := by
  by_cases ht : ∃ scope doc spec, action = .typeSpec scope doc spec
  · obtain ⟨scope, doc, spec, rfl⟩ := ht
    obtain ⟨inner, opened, hopen⟩ :=
      withTypeParams_opens hr he (Source.declaredNames spec.typeParams)
    have hopened := h.adds (.of_extends hopen.reads)
    rcases hopened.typeSpec hempty hopen doc with hdone | ⟨-, ⟨n, -, hl⟩, -⟩
    · exact hdone
    · exact absurd h.made (hopen.minted.fresh n r (mem_of_lookup hl))
  · apply h.adds
    apply next_adds hr he
    intro scope doc spec heq
    exact ht ⟨scope, doc, spec, heq⟩

/-- What is out of the tables stays out of them, whatever is done. -/
theorem Unheld.run (h : reg.Unheld r) (hempty : r ≠ TypeGraph.emptyInterface) (hr : reg.Sound)
    {actions : List Action} (hv : reg.ValidRun actions) : (reg.run actions).Unheld r := by
  induction actions generalizing reg with
  | nil => exact h
  | cons action rest ih =>
    exact ih (h.next hempty hr hv.1) (next_sound hr hv.1).1 hv.2

end Declarations

end Registry

end GoPackages
