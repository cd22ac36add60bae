import GoPackages.Proofs.Registry.InProgress

/-!
# An alias and its target

A name that is declared as an alias has an entry of its own where it was used before, and the
target itself in the table after that. Both are one reference behind aliases, in every later state.
-/
namespace GoPackages

namespace Registry

open Source (TypeExpr TypeSpec)

/-- A look-up of the bare name in a file of the package, where no package that is imported without
a qualifier has the name, or of the qualified name in a file that imports the package. -/
inductive LooksUp (reg : Registry) (q : PackageId) (name : String) (r : RefId) :
    Registry → Prop where
  | bare {scope : FileScope} {reg' : Registry} : scope.Sound reg → scope.package = q →
      scope.typeParams.lookup name = none → (∀ d ∈ scope.dotImports, reg.ref? d name = none) →
      scope.resolveName name reg = .ok r reg' → LooksUp reg q name r reg'
  | qualified {scope : FileScope} {qualifier : String} {reg' : Registry} : scope.Sound reg →
      scope.aliases.get? qualifier = some q →
      scope.resolveQualified (.ident qualifier) name reg = .ok r reg' → LooksUp reg q name r reg'

variable {reg reg' mid mid' : Registry} {q : PackageId} {name : String} {r target : RefId}
  {before after : List Naming}

theorem LooksUp.obtained (h : LooksUp reg q name r reg') : reg.Obtained q name r reg' := by
  cases h with
  | bare hs hq hl hnone h =>
    subst hq
    exact resolveName_own hs hl (.inr hnone) h
  | qualified hs hq h => exact resolveQualified_ok hs hq h

/-- Every action is a course with at most the name that it declares, and wherever it reads a type
expression, it is on a course, and so is what is left of it. An alias declaration that succeeds
declares the name to stand for the reference that its type was read as. Wherever on a
course without a second declaration of a name an alias is looked up, before its declaration or
after it, in every state that has the alias the reference is the same as that of its type. -/
theorem alias_is_its_target :
    (∀ reg action, reg.Sound → reg.Enabled action → ∃ named,
      Course reg named (reg.next action) ∧ (named.map Naming.key).Sublist action.declares) ∧
    (∀ (reg mid : Registry) (action : Action) (scope : FileScope) (type : TypeExpr), reg.Sound →
      reg.Enabled action → action.Reads reg scope type mid →
      scope.Sound mid ∧ reg.Around action mid (stateAfter (resolveType scope type) mid)) ∧
    (∀ reg scope doc spec reg', reg.Sound → scope.Sound reg → spec.isAlias = true →
      declareTypeSpec scope doc spec reg = .ok () reg' → ∃ inner opened target read,
        scope.withTypeParams (Source.declaredNames spec.typeParams) reg = .ok inner opened ∧
        resolveType inner spec.type opened = .ok target read ∧
        Course reg [⟨scope.package, spec.name, .alias target⟩] reg') ∧
    ∀ before mid q name r mid' after reg target, Course .new before mid →
      mid.LooksUp q name r mid' → Course mid' after reg → Once (before ++ after) →
      ⟨q, name, .alias target⟩ ∈ before ++ after → reg.graph.Alike r target := by
  refine ⟨fun _ _ hr he => next_course hr he, fun _ _ _ _ _ hr he h => h.around hr he,
    fun _ _ _ _ _ => alias_course, ?_⟩
  intro before mid q name r mid' after reg target hbefore hlook hafter honce hm
  have hobtained := hlook.obtained
  have hall := (hobtained.course hbefore hafter).tabled new_tabled honce
  obtain ⟨s, hs, halike⟩ := hobtained.alike hbefore hafter honce
  obtain rfl := Option.some.inj (hs.symm.trans (hall.aliases q name target hm))
  exact halike

def aliasOfInt : TypeSpec :=
  { doc := none, name := "A", typeParams := [], type := .named "int" [], isAlias := true }

theorem aliasOfInt_course (hr : reg.Sound) (hs : newScope.Sound reg)
    (h : declareTypeSpec newScope none aliasOfInt reg = .ok () reg')
    (hint : resolveType newScope aliasOfInt.type reg = .ok ⟨7⟩ mid) :
    Course reg [⟨⟨1⟩, "A", .alias ⟨7⟩⟩] reg' := by
  obtain ⟨inner, opened, target, read, hopen, hread, hcourse⟩ := alias_course hr hs rfl h
  obtain ⟨rfl, rfl⟩ : inner = newScope ∧ opened = reg := by cases hopen; exact ⟨rfl, rfl⟩
  obtain ⟨rfl, -⟩ := EStateM.Result.ok.inj (hread.symm.trans hint)
  exact hcourse

def usedName : Registry := stateAfter (newScope.resolveName "A") newPackage

def renamedName : Registry := stateAfter (declareTypeSpec newScope none aliasOfInt) usedName

def pointerToA : TypeSpec :=
  { doc := none, name := "S", typeParams := []
    type := .struct [⟨["f"], fun _ => .pointer fun _ => .named "A" [], none, none⟩]
    isAlias := false }

def declaringS : Registry :=
  (newPackage.declare ⟨1⟩ "S" (kindOf [] pointerToA.type)).2

def declaredS : Registry := newPackage.next (.typeSpec newScope none pointerToA)

def renamedS : Registry := stateAfter (declareTypeSpec newScope none aliasOfInt) declaredS

theorem pointerToA_reads :
    (Action.typeSpec newScope none pointerToA).Reads newPackage newScope (.named "A" [])
      declaringS :=
  ⟨_, _, .struct rfl rfl rfl, .enter .field (.enter (.elem rfl) .here)⟩

/-- A name that is used before its declaration, by itself and in the midst of a declaration. -/
theorem usedName_is_int : (newScope.resolveName "A" newPackage = .ok ⟨22⟩ usedName ∧
    declareTypeSpec newScope none aliasOfInt usedName = .ok () renamedName ∧
    renamedName.graph.Alike ⟨22⟩ ⟨7⟩) ∧
    newScope.resolveName "A" declaringS =
      .ok ⟨23⟩ (stateAfter (newScope.resolveName "A") declaringS) ∧
    declareTypeSpec newScope none aliasOfInt declaredS = .ok () renamedS ∧
    renamedS.graph.Alike ⟨23⟩ ⟨7⟩ := by
  obtain ⟨-, hreads, -, halike⟩ := alias_is_its_target
  obtain ⟨hnew, hp⟩ := newPackage_course
  have hsound : newPackage.Sound := (hnew.leads new_sound).sound
  constructor
  · have hlook : newScope.resolveName "A" newPackage = .ok ⟨22⟩ usedName :=
      eq_ok_stateAfter (by decide +kernel)
    have hdecl : declareTypeSpec newScope none aliasOfInt usedName = .ok () renamedName :=
      eq_ok_stateAfter (by decide +kernel)
    have hint : resolveType newScope aliasOfInt.type usedName = .ok ⟨7⟩ _ :=
      eq_ok_stateAfter (by decide +kernel)
    have hlooks : newPackage.LooksUp ⟨1⟩ "A" ⟨22⟩ usedName :=
      .bare (newScope_sound hp) rfl rfl (by decide +kernel) hlook
    have hadds := hlooks.obtained.adds
    have hafter := aliasOfInt_course (hadds.spares.sound hsound)
      (newScope_sound (hadds.registered hp)) hdecl hint
    exact ⟨hlook, hdecl, halike [] newPackage ⟨1⟩ "A" ⟨22⟩ usedName _ renamedName _ hnew hlooks
      hafter (by decide) (List.mem_singleton_self _)⟩
  · have hlook : newScope.resolveName "A" declaringS = .ok ⟨23⟩ _ :=
      eq_ok_stateAfter (by decide +kernel)
    have hdecl : declareTypeSpec newScope none aliasOfInt declaredS = .ok () renamedS :=
      eq_ok_stateAfter (by decide +kernel)
    have hint : resolveType newScope aliasOfInt.type declaredS = .ok ⟨7⟩ _ :=
      eq_ok_stateAfter (by decide +kernel)
    obtain ⟨hs, front, back, hfront, hback, hkeys⟩ :=
      hreads newPackage declaringS (.typeSpec newScope none pointerToA) newScope (.named "A" [])
        hsound (newScope_sound hp) pointerToA_reads
    have hlooks : declaringS.LooksUp ⟨1⟩ "A" ⟨23⟩ _ :=
      .bare hs rfl rfl (by decide +kernel) hlook
    have hread := hlooks.obtained.sound (hfront.leads hsound).sound
    have hscope : newScope.Sound declaredS :=
      newScope_sound (Option.isSome_iff_exists.mp (by decide +kernel))
    have hafter := aliasOfInt_course (hback.leads hread).sound hscope hdecl hint
    have honce : Once (front ++ (back ++ [⟨⟨1⟩, "A", .alias ⟨7⟩⟩])) := by
      rw [Once, ← List.append_assoc, List.map_append]
      exact (by decide : List.Nodup [((⟨1⟩ : PackageId), "S"), (⟨1⟩, "A")]).sublist
        (hkeys.append_right _)
    refine ⟨hlook, hdecl, halike front declaringS ⟨1⟩ "A" ⟨23⟩ _ _ renamedS _ (hnew.trans hfront)
      hlooks (hback.trans hafter) honce ?_⟩
    exact List.mem_append_right _ (List.mem_append_right _ (List.mem_singleton_self _))

end Registry

end GoPackages
