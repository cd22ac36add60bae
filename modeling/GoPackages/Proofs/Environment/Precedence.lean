import GoPackages.Proofs.Environment.ForwardReferences
import GoPackages.Proofs.Registry.InProgress

/-!
# Which package a bare name is from

The package of the file comes first as soon as it has the name, whether the name was declared or
used before. A use that comes earlier takes the name from a package that is imported without a
qualifier, the predeclared names first, and a later declaration in the package of the file does
not change that. Where no package has the name, it is the name that is declared later.
-/
namespace GoPackages

open Source (TypeExpr SourceFile)
open Registry (Action Course Naming Once Obtained builtinId)

section Precedence

variable {before after : List Naming} {mid mid' reg : Registry} {q : PackageId} {name : String}
  {r : RefId}

theorem Registry.Obtained.resolved? (h : mid.Obtained q name r mid')
    (hbefore : Course .new before mid) (hafter : Course mid' after reg)
    (honce : Once (before ++ after)) {ty : TypeId} (hty : ⟨q, name, .type ty⟩ ∈ before ++ after) :
    reg.graph.resolved? r = some ty := by
  have hall := (h.course hbefore hafter).tabled Registry.new_tabled honce
  obtain ⟨s, hs, halike⟩ := h.alike hbefore hafter honce
  exact halike.resolved.trans
    (hall.resolved?_slot (honce.not_aliased hty) hs (hall.types q name ty hty))

/-- Every action is a course with at most the name that it declares, and wherever it reads a type
expression, it is on a course, and so is what is left of it. A bare name in a type expression,
looked up anywhere on a course, leads from then on to the entry that the package of the file has for
it, if the name was declared there before, or the package has the name, or no package imported
without a qualifier has it; and where no name is declared twice, it has the type that is declared.
Otherwise it is the name of the first package imported without a qualifier that has it, and leads to
the entry of that package. -/
theorem own_name_comes_first :
    (∀ reg action, reg.Sound → reg.Enabled action → ∃ named,
      Course reg named (reg.next action) ∧ (named.map Naming.key).Sublist action.declares) ∧
    (∀ (reg mid : Registry) (action : Action) (scope : FileScope) (type : TypeExpr), reg.Sound →
      reg.Enabled action → action.Reads reg scope type mid →
      scope.Sound mid ∧ reg.Around action mid (stateAfter (resolveType scope type) mid)) ∧
    ∀ before mid scope name args r mid' after reg, Course .new before mid → scope.Sound mid →
      scope.typeParams.lookup name = none →
      resolveType scope (.named name args) mid = .ok r mid' → Course mid' after reg →
      ((∃ m, ⟨scope.package, name, m⟩ ∈ before) ∨ scope.Owns mid name →
        reg.LeadsTo scope.package name r ∧
        (Once (before ++ after) → ∀ ty, ⟨scope.package, name, .type ty⟩ ∈ before ++ after →
          reg.graph.resolved? r = some ty)) ∧
      (¬scope.Owns mid name → ∃ front q back, scope.dotImports = front ++ q :: back ∧
        (∀ p ∈ front, mid.ref? p name = none) ∧ mid.ref? q name = some r ∧
        reg.LeadsTo q name r) := by
  refine ⟨fun _ _ hr he => Registry.next_course hr he, fun _ _ _ _ _ hr he h => h.around hr he, ?_⟩
  intro before mid scope name args r mid' after reg hbefore hs hl h hafter
  have hmid := (hbefore.leads Registry.new_sound).sound
  constructor
  · intro hwhen
    have hown : scope.Owns mid name := by
      rcases hwhen with ⟨m, hm⟩ | hown
      · obtain ⟨s, hslot⟩ := hbefore.ref?_of_declared Registry.new_sound hm
        exact .inl fun hnone => by cases hnone.symm.trans hslot
      · exact hown
    have hobtained := resolveName_own hs hl hown h
    exact ⟨hobtained.leadsTo hmid hafter,
      fun honce ty hty => hobtained.resolved? hbefore hafter honce hty⟩
  · intro hown
    obtain ⟨front, q, back, hq, hfront, hslot, hobtained⟩ := resolveName_imported hl hown h
    exact ⟨front, q, back, hq, hfront, hslot, hobtained.leadsTo hmid hafter⟩

end Precedence

def declaredInt : Registry := (Registry.newPackage.declare ⟨1⟩ "int" (.struct {})).2

def usedInt : Registry :=
  stateAfter (resolveType Registry.newScope (.named "int" [])) declaredInt

def takesInt : Source.FuncDecl :=
  { doc := none, receiver := none, name := "f", typeParams := []
    params := [⟨["x"], typeOf "int", none, none⟩], results := [] }

def declaredF : Registry := declaredInt.next (.func Registry.newScope takesInt)

theorem takesInt_reads : (Action.func Registry.newScope takesInt).Reads declaredInt
    Registry.newScope (.named "int" []) declaredInt :=
  ⟨_, _, .signature rfl rfl .params, .enter .argument .here⟩

/-- The name is used by itself, and in the midst of the declaration of a function. -/
theorem declared_int_comes_first :
    (resolveType Registry.newScope (.named "int" []) declaredInt = .ok ⟨22⟩ usedInt ∧
    usedInt.LeadsTo ⟨1⟩ "int" ⟨22⟩ ∧
    usedInt.graph.resolved? ⟨22⟩ = some Registry.newPackage.nextType) ∧
    declaredF.LeadsTo ⟨1⟩ "int" ⟨22⟩ ∧
    declaredF.graph.resolved? ⟨22⟩ = some Registry.newPackage.nextType := by
  obtain ⟨-, hreads, hlookup⟩ := own_name_comes_first
  obtain ⟨hnew, hp⟩ := Registry.newPackage_course
  have hbefore : Course .new [⟨⟨1⟩, "int", .type Registry.newPackage.nextType⟩] declaredInt :=
    hnew.define "int" (.struct {}) hp
  have hscope : Registry.newScope.Sound declaredInt :=
    Registry.newScope_sound (Option.isSome_iff_exists.mp (by decide +kernel))
  have huse : resolveType Registry.newScope (.named "int" []) declaredInt = .ok ⟨22⟩ usedInt :=
    eq_ok_stateAfter (by decide +kernel)
  constructor
  · obtain ⟨hleads, htype⟩ := (hlookup _ _ _ "int" [] _ _ [] _ hbefore hscope rfl huse
      (.refl _)).1 (.inl ⟨_, List.mem_singleton_self _⟩)
    exact ⟨huse, hleads, htype (by decide) _ (List.mem_singleton_self _)⟩
  · obtain ⟨-, front, back, -, hback, hkeys⟩ := hreads declaredInt declaredInt
      (.func Registry.newScope takesInt) Registry.newScope (.named "int" [])
      (hbefore.leads Registry.new_sound).sound hscope takesInt_reads
    have hnone : front ++ back = [] := List.map_eq_nil_iff.mp (List.sublist_nil.mp hkeys)
    obtain ⟨-, rfl⟩ := List.append_eq_nil_iff.mp hnone
    obtain ⟨hleads, htype⟩ := (hlookup _ _ _ "int" [] _ _ [] _ hbefore hscope rfl huse
      hback).1 (.inl ⟨_, List.mem_singleton_self _⟩)
    exact ⟨hleads, htype (by decide) _ (List.mem_singleton_self _)⟩

def redeclaresInt : SourceFile :=
  ⟨"p", none, [.func takesInt, .group .types none [emptyStruct "int"]]⟩

def redeclaredInt : Environment :=
  stateAfter (analyzeFiles 0 packageP [redeclaresInt])
    (Environment.new none Environment.noPackages Environment.noFiles)

/-- The argument is a predeclared integer, though the package declares a type of that name. -/
theorem earlier_use_is_predeclared :
    analyzeFiles 0 packageP [redeclaresInt]
      (Environment.new none Environment.noPackages Environment.noFiles) = .ok ⟨1⟩ redeclaredInt ∧
    ∃ f t x own int, (redeclaredInt.registry.package? ⟨1⟩).bind (·.functions.get? "f") = some f ∧
      redeclaredInt.registry.graph.kind? f = some (.method t) ∧ t.arguments = [⟨"x", x⟩] ∧
      redeclaredInt.registry.ref? ⟨1⟩ "int" = some own ∧
      redeclaredInt.registry.ref? builtinId "int" = some int ∧
      redeclaredInt.registry.graph.namedRoot x = redeclaredInt.registry.graph.namedRoot int ∧
      redeclaredInt.registry.graph.namedRoot x ≠ redeclaredInt.registry.graph.namedRoot own := by
  refine ⟨eq_ok_stateAfter (by decide +kernel), ⟨23⟩, { arguments := [⟨"x", ⟨7⟩⟩] }, ⟨7⟩, ⟨22⟩,
    ⟨7⟩, ?_⟩
  decide +kernel

end GoPackages
