import GoPackages.Proofs.Environment.Isolation
import GoPackages.Proofs.Registry.Recursion

/-!
# Refused aliases

What becomes of the declaration of an alias at any moment of a session. The first declaration of a
name as an alias is refused only for its type. A second one finds the entry of the type in the slot
of the name already, and whatever the name stood for, it is refused like a recursive one.
-/
namespace GoPackages

open Source (TypeSpec SourceFile)
open Registry (Action AliasesFollow aliasLog builtinId)

/-- The type of the declaration names the declared alias, directly or through other aliases. -/
def FileScope.NamesItself (scope : FileScope) (log : AliasLog) (reg : Registry)
    (spec : TypeSpec) : Prop :=
  ∃ slot, scope.head? reg spec = some slot ∧ log.LeadsTo slot (scope.package, spec.name)

/-- The declaration is refused as that of a recursive alias. -/
def FileScope.Refuses (scope : FileScope) (reg : Registry) (doc : Option Doc)
    (spec : TypeSpec) : Prop :=
  ∃ reg', declareTypeSpec scope doc spec reg = .error (.unsupported .recursiveAlias) reg'

section Declarations

variable {log : AliasLog} {reg read : Registry} {scope : FileScope} {doc : Option Doc}
  {spec : TypeSpec} {target : RefId}

theorem FileScope.ReadsType.refuses_iff (h : scope.ReadsType reg spec target read)
    (ha : spec.isAlias = true) :
    scope.Refuses reg doc spec ↔ read.rename? scope.package spec.name target = none := by
  have hdecl := h.declares doc ha
  unfold FileScope.Refuses
  cases hren : read.rename? scope.package spec.name target with
  | none =>
    rw [hren] at hdecl
    exact iff_of_true ⟨read, hdecl⟩ rfl
  | some reg' =>
    rw [hren] at hdecl
    refine iff_of_false (fun ⟨_, he⟩ => ?_) nofun
    cases hdecl.symm.trans he

namespace Registry.AliasesFollow

variable (h : AliasesFollow log reg) (hs : scope.Sound reg) (ha : spec.isAlias = true)
include h hs ha

theorem reads_refuses_iff (hnew : (scope.package, spec.name) ∉ log.keys)
    (hread : scope.ReadsType reg spec target read) :
    scope.Refuses reg doc spec ↔ scope.NamesItself log reg spec := by
  obtain ⟨hadds, -, hhead⟩ := hread.head h.sound hs
  rw [hread.refuses_iff ha, (h.adds hadds).rename?_eq_none_iff hnew hhead]
  rfl

theorem refuses_iff (hnew : (scope.package, spec.name) ∉ log.keys) :
    scope.Refuses reg doc spec ↔
      (∃ target read, scope.ReadsType reg spec target read) ∧ scope.NamesItself log reg spec := by
  by_cases hread : ∃ target read, scope.ReadsType reg spec target read
  · obtain ⟨target, read, hread⟩ := hread
    rw [h.reads_refuses_iff hs ha hnew hread]
    exact (and_iff_right ⟨target, read, hread⟩).symm
  · obtain ⟨e, reg', hfails, hne, -⟩ := declareTypeSpec_unread doc h.sound hs ha
      fun target read hr => hread ⟨target, read, hr⟩
    refine iff_of_false (fun ⟨_, hrefused⟩ => hne ?_) fun hboth => hread hboth.1
    cases hfails.symm.trans hrefused
    rfl

theorem declares_alias (hnew : (scope.package, spec.name) ∉ log.keys)
    (hread : scope.ReadsType reg spec target read) (hitself : ¬scope.NamesItself log reg spec) :
    ∃ reg', declareTypeSpec scope doc spec reg = .ok () reg' ∧
      reg'.ref? scope.package spec.name = some target := by
  obtain ⟨hadds, htarget, -⟩ := hread.head h.sound hs
  have hdecl := hread.declares doc ha
  cases hren : read.rename? scope.package spec.name target with
  | none =>
    have hrefused : scope.Refuses reg doc spec := (hread.refuses_iff ha).mpr hren
    exact absurd ((h.reads_refuses_iff hs ha hnew hread).mp hrefused) hitself
  | some reg' =>
    rw [hren] at hdecl
    have hpkg := hadds.registered hs.package
    exact ⟨reg', hdecl, (rename?_effect (h.adds hadds).sound hpkg htarget hren).own⟩

theorem refuses_again {slot : Slot} (hlog : log.StandsFor (scope.package, spec.name) slot)
    (hhead : scope.head? reg spec = some slot) (hread : scope.ReadsType reg spec target read) :
    scope.Refuses reg doc spec := by
  obtain ⟨hadds, -, hheaded⟩ := hread.head h.sound hs
  rw [hhead] at hheaded
  exact (hread.refuses_iff ha).mpr ((h.adds hadds).rename?_again hlog hheaded)

end Registry.AliasesFollow

end Declarations

/-- The registry of a session is what a run of actions makes of a new one. Whatever follows, while
no alias is declared a second time, a new alias is refused exactly where its type can be read and
names the alias itself, directly or through the aliases of the run. Where its type can be read and
does not, the alias stands for it. An alias that is declared a second time is refused, whatever the
name at the head of its type, if it has the same one again. -/
theorem new_aliases_refused_iff_recursive {env : Environment} (henv : env.Reachable) :
    (∃ past, Registry.new.ValidRun past ∧ Registry.new.run past = env.registry) ∧
    ∀ past actions reg, Registry.new.ValidRun past → Registry.new.run past = env.registry →
      env.registry.ValidRun actions → env.registry.run actions = reg →
      (aliasLog (past ++ actions)).keys.Nodup →
      ∀ scope doc spec, scope.Sound reg → spec.isAlias = true →
        ((scope.package, spec.name) ∉ (aliasLog (past ++ actions)).keys →
          (scope.Refuses reg doc spec ↔ (∃ target read, scope.ReadsType reg spec target read) ∧
            scope.NamesItself (aliasLog (past ++ actions)) reg spec) ∧
          ∀ target read, scope.ReadsType reg spec target read →
            ¬scope.NamesItself (aliasLog (past ++ actions)) reg spec →
            ∃ reg', declareTypeSpec scope doc spec reg = .ok () reg' ∧
              reg'.ref? scope.package spec.name = some target) ∧
        ∀ slot target read,
          (aliasLog (past ++ actions)).StandsFor (scope.package, spec.name) slot →
          scope.head? reg spec = some slot → scope.ReadsType reg spec target read →
          scope.Refuses reg doc spec := by
  refine ⟨henv.run, fun past actions reg hv hpast hv' hrun honce scope doc spec hs ha => ?_⟩
  have hall : Registry.new.ValidRun (past ++ actions) := hv.append (hpast.symm ▸ hv')
  have hreg : Registry.new.run (past ++ actions) = reg := by
    rw [Registry.run_append, hpast, hrun]
  have h : AliasesFollow (aliasLog (past ++ actions)) reg :=
    hreg ▸ Registry.new_aliasesFollow.run hall honce
  refine ⟨fun hnew => ⟨h.refuses_iff hs ha hnew, fun target read hread => ?_⟩, ?_⟩
  · exact h.declares_alias hs ha hnew hread
  · exact fun slot target read hlog hhead hread => h.refuses_again hs ha hlog hhead hread

open Registry (newScope newScope_sound)
open Environment (onePackage onePackage_reachable)

def aliasOf (name target : String) : TypeSpec where
  doc := none
  name := name
  typeParams := []
  type := .named target []
  isAlias := true

def oneAlias (name target : String) : List Action :=
  [.appendDoc ⟨1⟩ [], .typeSpec newScope none (aliasOf name target)]

def afterAlias (name target : String) : Registry := onePackage.registry.run (oneAlias name target)

/-- The aliases of the only package of a session and one of its files. -/
def oneAliasLog (name target : String) : AliasLog :=
  aliasLog ([.append ⟨"p", "p", "", []⟩] ++ oneAlias name target)

theorem newScope_sound_of_isSome {reg : Registry} (h : (reg.package? ⟨1⟩).isSome) :
    newScope.Sound reg := newScope_sound (Option.isSome_iff_exists.mp h)

theorem oneAlias_valid (name target : String) :
    onePackage.registry.ValidRun (oneAlias name target) :=
  ⟨trivial, newScope_sound_of_isSome (by decide +kernel), trivial⟩

/-- After `type A = B` the name `A` leads to `B`, which is used but not declared. -/
theorem mutual_alias_is_refused :
    newScope.Refuses (afterAlias "A" "B") none (aliasOf "B" "A") := by
  obtain ⟨-, hjudged⟩ := new_aliases_refused_iff_recursive onePackage_reachable
  have hlog : oneAliasLog "A" "B" =
      [((builtinId, "any"), none), ((⟨1⟩, "A"), some (⟨1⟩, "B"))] := by decide +kernel
  have hpast : Registry.new.run [.append ⟨"p", "p", "", []⟩] = onePackage.registry := by
    rw [onePackage, Environment.perform_append_registry]
    rfl
  have honce : (oneAliasLog "A" "B").keys.Nodup := hlog ▸ by decide
  have hsound : newScope.Sound (afterAlias "A" "B") :=
    newScope_sound_of_isSome (by decide +kernel)
  obtain ⟨hfirst, -⟩ := hjudged [.append ⟨"p", "p", "", []⟩] (oneAlias "A" "B") _
    ⟨trivial, trivial⟩ hpast (oneAlias_valid "A" "B") rfl honce newScope none (aliasOf "B" "A")
    hsound rfl
  have hnew : ((⟨1⟩, "B") : Slot) ∉ (oneAliasLog "A" "B").keys := hlog ▸ by decide
  obtain ⟨hiff, -⟩ := hfirst hnew
  have hread : newScope.ReadsType (afterAlias "A" "B") (aliasOf "B" "A") ⟨22⟩ _ :=
    ⟨newScope, _, rfl, eq_ok_stateAfter (by decide +kernel)⟩
  have hstep : (oneAliasLog "A" "B").StandsFor (⟨1⟩, "A") (⟨1⟩, "B") :=
    hlog ▸ List.mem_cons_of_mem _ List.mem_cons_self
  exact hiff.mpr ⟨⟨_, _, hread⟩, (⟨1⟩, "A"), by decide +kernel, .single hstep⟩

def intAliasFile : SourceFile := ⟨"p", none, [.group .types none [.typeSpec (aliasOf "A" "int")]]⟩

def intHasAlias : Environment := onePackage.perform (.analyzeFile 0 ⟨1⟩ intAliasFile)

/-- The name `int` leads nowhere, and its alias is refused as a recursive one where it is declared
again, in the same file or in another one. -/
theorem repeated_alias_is_refused :
    onePackage.registry.ValidRun (oneAlias "A" "int") ∧
      ¬newScope.NamesItself (oneAliasLog "A" "int") (afterAlias "A" "int") (aliasOf "A" "int") ∧
      newScope.Refuses (afterAlias "A" "int") none (aliasOf "A" "int") ∧
      intHasAlias.Reachable ∧ ∃ env, GoPackages.analyzeFile 0 ⟨1⟩ intAliasFile intHasAlias =
        .error (.failed (.unsupported .recursiveAlias)) env := by
  have hlog : oneAliasLog "A" "int" =
      [((builtinId, "any"), none), ((⟨1⟩, "A"), some (builtinId, "int"))] := by decide +kernel
  have hhead : newScope.head? (afterAlias "A" "int") (aliasOf "A" "int") =
      some (builtinId, "int") := by decide +kernel
  have hreached : intHasAlias.Reachable :=
    .perform _ onePackage_reachable Environment.onePackageScope_sound.package
  refine ⟨oneAlias_valid _ _, ?_, ⟨_, eq_error_stateAfter (by decide +kernel)⟩, hreached,
    _, eq_error_stateAfter (by decide +kernel)⟩
  rintro ⟨slot, hslot, hleads⟩
  obtain rfl := Option.some.inj (hhead.symm.trans hslot)
  rcases Relation.ReflTransGen.cases_head hleads with heq | ⟨t, hstep, -⟩
  · cases heq
  · rw [hlog] at hstep
    simp [AliasLog.StandsFor] at hstep

end GoPackages
