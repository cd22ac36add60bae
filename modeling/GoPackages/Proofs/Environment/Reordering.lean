import GoPackages.Proofs.Environment.Implementing

/-!
# The same items in another order

What the answers for the structs and interfaces of a file depend on is a property of the items
that does not see their order. So two runs over the same items give the same answers.
-/
namespace GoPackages

open Source (TypeExpr Field InterfaceElem TypeSpec FuncDecl)

def Registry.implements? (reg : Registry) (pkg : PackageId) (struct iface : String) :
    Option Bool := do
  let p ← reg.package? pkg
  let ty ← p.structs.get? struct
  let wanted ← p.interfaces.get? iface
  return reg.graph.implements ty wanted

theorem Registry.implements?_of_lists {reg : Registry} {pkg : PackageId}
    {structs interfaces : DeclList} (h : reg.lists? pkg = some (structs, interfaces))
    (struct iface : String) : reg.implements? pkg struct iface =
      (structs.get? struct).bind fun ty =>
        (interfaces.get? iface).map fun wanted => reg.graph.implements ty wanted := by
  obtain ⟨p, hp, heq⟩ := Option.map_eq_some_iff.mp h
  obtain ⟨rfl, rfl⟩ := Prod.mk.inj heq
  simp only [Registry.implements?, hp, bind, pure, Option.bind_some, Option.map_eq_bind]
  rfl

section Statements

variable {scope : FileScope} {base : Registry} {items items' : List Item} {v : View}

theorem Ends.perm {type : TypeExpr} {t : Terminal} (h : Ends v items type t)
    (hp : items.Perm items') : Ends v items' type t :=
  h.mono fun _ _ => (hp.filterMap _).mem_iff

theorem SameType.perm {type type' : TypeExpr} (h : SameType scope base items type type')
    (hp : items.Perm items') : SameType scope base items' type type' := by
  obtain ⟨t, t', he, he', hs⟩ := h
  exact ⟨t, t', he.perm hp, he'.perm hp, hs⟩

theorem SameParameters.perm {params params' : List Field}
    (h : SameParameters scope base items params params') (hp : items.Perm items') :
    SameParameters scope base items' params params' :=
  List.Forall₂.imp (fun _ _ hs => hs.perm hp) h

theorem MethodOf.perm {name : String} {decl : FuncDecl} (h : MethodOf items name decl)
    (hp : items.Perm items') : MethodOf items' name decl := by
  obtain ⟨field, hfield, he⟩ := h
  exact ⟨field, hfield, he.perm hp⟩

theorem Provides.perm {name : String} {elems : List InterfaceElem}
    (h : Provides scope base items name elems) (hp : items.Perm items') :
    Provides scope base items' name elems := by
  intro wanted hm
  obtain ⟨decl, hdecl, hname, hof, hparams, hresults⟩ := h wanted hm
  exact ⟨decl, hp.subset hdecl, hname, hof.perm hp, hparams.perm hp, hresults.perm hp⟩

theorem SameMethod.mono {a b : Item} (h : SameMethod items a b)
    (hsame : ∀ n target, (n, target) ∈ aliasesOf items ↔ (n, target) ∈ aliasesOf items') :
    SameMethod items' a b := by
  cases a with
  | func decl =>
    cases b with
    | func decl' =>
      obtain ⟨hname, field, field', t, hf, hf', ht, ht'⟩ := h
      exact ⟨hname, field, field', t, hf, hf', ht.mono hsame, ht'.mono hsame⟩
    | importSpec | typeSpec | valueSpec => exact h.elim
  | importSpec | typeSpec | valueSpec => exact h.elim

theorem DistinctMethods.perm (h : DistinctMethods items) (hp : items.Perm items') :
    DistinctMethods items' := by
  have hflip : ∀ {a b : Item}, ¬SameMethod items a b → ¬SameMethod items b a :=
    fun hn hs => hn hs.symm
  refine ((hp.pairwise_iff hflip).mp h).imp fun hn hs => hn (hs.mono fun _ _ => ?_)
  exact (hp.symm.filterMap _).mem_iff

theorem acyclic_perm (h : ∀ n, ¬Relation.TransGen (Renaming items) n n)
    (hp : items.Perm items') (n : String) : ¬Relation.TransGen (Renaming items') n n :=
  fun hcycle => h n
    (Relation.TransGen.mono (fun _ _ => Renaming.mono hp.symm.subset) _ _ hcycle)

theorem declared_perm (hp : items.Perm items') : (declared items).Perm (declared items') :=
  hp.flatMap_right _

theorem unaliased_of_defined (honce : (declared items).Nodup) {doc : Option Doc}
    {spec : TypeSpec} (hm : .typeSpec doc spec ∈ items) (halias : spec.isAlias = false) :
    Unaliased items spec.name := by
  intro target hmem
  obtain ⟨doc', spec', hm', halias', hname, -⟩ := mem_aliasesOf.mp hmem
  have heq := eq_of_declares honce hm hm' (n := spec.name) (List.mem_singleton_self _)
    (List.mem_singleton.mpr hname.symm)
  obtain ⟨-, rfl⟩ := Item.typeSpec.inj heq
  cases halias.symm.trans halias'

end Statements

namespace Covers

variable {scope : FileScope} {base reg reg' : Registry} {log log' : List Analyzed}

theorem listed_iff (h : Covers scope base log reg) {listed : TypeExpr → Bool} {d : DeclList}
    (hd : Listing listed log d) (n : String) : (d.get? n).isSome = true ↔
      ∃ doc spec, .typeSpec doc spec ∈ log.map Analyzed.item ∧ spec.isAlias = false ∧
        spec.name = n ∧ listed spec.type = true := by
  rw [hd n]
  constructor
  · intro hsome
    obtain ⟨ty, hty⟩ := Option.isSome_iff_exists.mp hsome
    obtain ⟨a, ha, hl⟩ := List.exists_of_findSome?_eq_some hty
    obtain ⟨doc, spec, owner, hitem, hout, hname, hlisted⟩ := listed?_eq_some hl
    have hc := h.covered a ha
    rw [hitem, hout] at hc
    cases hc with
    | defined halias =>
      exact ⟨doc, spec, hitem ▸ List.mem_map_of_mem ha, halias, hname, hlisted⟩
  · rintro ⟨doc, spec, hm, halias, hname, hlisted⟩
    obtain ⟨⟨item, outcome, start, stop⟩, ha, rfl⟩ := List.mem_map.mp hm
    have hc := h.covered _ ha
    cases hc with
    | renamed halias' => cases halias.symm.trans halias'
    | @defined _ _ owner ty =>
      refine List.findSome?_isSome_iff.mpr ⟨_, ha, ?_⟩
      simp [Analyzed.listed?, hname, hlisted]

theorem isSome_eq (h : Covers scope base log reg) (h' : Covers scope base log' reg')
    (hp : (log.map Analyzed.item).Perm (log'.map Analyzed.item)) {listed : TypeExpr → Bool}
    {d d' : DeclList} (hd : Listing listed log d) (hd' : Listing listed log' d') (n : String) :
    (d.get? n).isSome = (d'.get? n).isSome := by
  rw [Bool.eq_iff_iff, h.listed_iff hd, h'.listed_iff hd']
  constructor
  · rintro ⟨doc, spec, hm, hrest⟩
    exact ⟨doc, spec, hp.subset hm, hrest⟩
  · rintro ⟨doc, spec, hm, hrest⟩
    exact ⟨doc, spec, hp.symm.subset hm, hrest⟩

variable (hp : (log.map Analyzed.item).Perm (log'.map Analyzed.item))
  (honce : (declared (log.map Analyzed.item)).Nodup)
  (hacyclic : ∀ n, ¬Relation.TransGen (Renaming (log.map Analyzed.item)) n n)
  (hmethods : DistinctMethods (log.map Analyzed.item))
  (hfree : ∀ doc spec, .typeSpec doc spec ∈ log.map Analyzed.item →
    isStruct spec.type = true → scope.found? base spec.name = none)
include hp honce hacyclic hmethods hfree

theorem implements_eq (h : Covers scope base log reg) (h' : Covers scope base log' reg')
    {struct iface : String} {ty ty' wanted wanted' : TypeId} {a b a' b' : Analyzed}
    (ha : a ∈ log) (hla : a.listed? isStruct struct = some ty)
    (hb : b ∈ log) (hlb : b.listed? isInterface iface = some wanted)
    (ha' : a' ∈ log') (hla' : a'.listed? isStruct struct = some ty')
    (hb' : b' ∈ log') (hlb' : b'.listed? isInterface iface = some wanted') :
    reg.graph.implements ty wanted = reg'.graph.implements ty' wanted' := by
  obtain ⟨doc, spec, owner, hitem, hout, rfl, hstruct⟩ := listed?_eq_some hla
  have hm : .typeSpec doc spec ∈ log.map Analyzed.item := hitem ▸ List.mem_map_of_mem ha
  have halias : spec.isAlias = false := by
    have hc := h.covered a ha
    rw [hitem, hout] at hc
    cases hc with
    | defined halias => exact halias
  have hbase := hfree doc spec hm hstruct
  have hn := unaliased_of_defined honce hm halias
  have hn' := unaliased_of_defined ((declared_perm hp).nodup honce) (hp.subset hm) halias
  obtain ⟨docI, specI, elems, hitemI, hnameI, htypeI, hanswer⟩ :=
    h.implements_iff hacyclic hmethods hn hbase ha hb hla hlb
  obtain ⟨docI', specI', elems', hitemI', hnameI', htypeI', hanswer'⟩ :=
    h'.implements_iff (acyclic_perm hacyclic hp) (hmethods.perm hp) hn' hbase ha' hb' hla' hlb'
  have hmI : .typeSpec docI specI ∈ log.map Analyzed.item := hitemI ▸ List.mem_map_of_mem hb
  have hmI' : .typeSpec docI' specI' ∈ log.map Analyzed.item :=
    hp.symm.subset (hitemI' ▸ List.mem_map_of_mem hb')
  have heq := eq_of_declares honce hmI hmI' (n := iface)
    (List.mem_singleton.mpr hnameI.symm) (List.mem_singleton.mpr hnameI'.symm)
  obtain ⟨-, rfl⟩ := Item.typeSpec.inj heq
  obtain rfl := TypeExpr.interface.inj (htypeI.symm.trans htypeI')
  rw [Bool.eq_iff_iff, hanswer, hanswer']
  exact ⟨fun hs => hs.perm hp, fun hs => hs.perm hp.symm⟩

/-- The answers do not depend on the order. -/
theorem implements?_eq (h : Covers scope base log reg) (h' : Covers scope base log' reg')
    (struct iface : String) :
    reg.implements? scope.package struct iface =
      reg'.implements? scope.package struct iface := by
  obtain ⟨structs, interfaces, hl, hstructs, hinterfaces⟩ := h.lists
  obtain ⟨structs', interfaces', hl', hstructs', hinterfaces'⟩ := h'.lists
  rw [Registry.implements?_of_lists hl, Registry.implements?_of_lists hl']
  have hs := h.isSome_eq h' hp hstructs hstructs' struct
  have hi := h.isSome_eq h' hp hinterfaces hinterfaces' iface
  cases hty : structs.get? struct with
  | none =>
    rw [hty] at hs
    rw [Option.isNone_iff_eq_none.mp (Option.isSome_eq_false_iff.mp hs.symm)]
    rfl
  | some ty =>
    cases hwanted : interfaces.get? iface with
    | none =>
      rw [hwanted] at hi
      rw [Option.isNone_iff_eq_none.mp (Option.isSome_eq_false_iff.mp hi.symm)]
      cases structs'.get? struct <;> rfl
    | some wanted =>
      obtain ⟨ty', hty'⟩ := Option.isSome_iff_exists.mp (hs.symm.trans (by rw [hty]; rfl))
      obtain ⟨wanted', hwanted'⟩ :=
        Option.isSome_iff_exists.mp (hi.symm.trans (by rw [hwanted]; rfl))
      obtain ⟨a, ha, hla⟩ := List.exists_of_findSome?_eq_some ((hstructs struct).symm.trans hty)
      obtain ⟨b, hb, hlb⟩ :=
        List.exists_of_findSome?_eq_some ((hinterfaces iface).symm.trans hwanted)
      obtain ⟨a', ha', hla'⟩ :=
        List.exists_of_findSome?_eq_some ((hstructs' struct).symm.trans hty')
      obtain ⟨b', hb', hlb'⟩ :=
        List.exists_of_findSome?_eq_some ((hinterfaces' iface).symm.trans hwanted')
      have hanswer := implements_eq hp honce hacyclic hmethods hfree h h' ha hla hb hlb ha' hla'
        hb' hlb'
      rw [hty', hwanted']
      exact congrArg some hanswer

end Covers

end GoPackages
