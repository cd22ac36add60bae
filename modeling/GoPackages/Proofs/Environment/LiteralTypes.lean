import GoPackages.Proofs.Environment.ConstantGroups
import GoPackages.Proofs.Environment.ForwardReferences
import GoPackages.Proofs.Environment.Quiet
import GoPackages.Proofs.Registry.Lookup

/-!
# The types of literals

A value that is declared without a type takes it from its initializer. Where that is a basic
literal, a truth value or the constant counter, the type is looked up by its predeclared name like
any other name of the file: an entry that the package has for this name itself comes first.
-/
namespace GoPackages

open Source (Expr ValueSpec GroupKind SourceFile)
open Registry (Leads builtinId)
open Environment (Moves)

/-- The predeclared type that a literal is of, under parentheses and the operators that keep the
type of their operand. -/
def literalTypeName? : Expr → Option String
  | .literal kind _ => some kind.typeName
  | .ident name => identTypeName? name
  | .unary op operand => if op.keepsType then literalTypeName? (operand ()) else none
  | .paren inner => literalTypeName? (inner ())
  | .composite _ | .selector _ _ | .call _ | .other _ | .bad => none

def literalTypeNames : List String := ["int", "float64", "complex128", "rune", "string", "bool"]

theorem literalTypeName?_mem {e : Expr} {n : String} (h : literalTypeName? e = some n) :
    n ∈ literalTypeNames := by
  cases e with
  | literal kind text =>
    obtain rfl := Option.some.inj h
    cases kind <;> decide
  | ident name =>
    unfold literalTypeName? identTypeName? at h
    split at h
    · cases h; decide
    · split at h
      · cases h; decide
      · cases h
  | unary op operand =>
    unfold literalTypeName? at h
    split at h
    · exact literalTypeName?_mem h
    · cases h
  | paren inner => exact literalTypeName?_mem (e := inner ()) h
  | composite | selector | call | other | bad => cases h
termination_by structural e

theorem inferType_literal {scope : FileScope} {e : Expr} {n : String}
    (h : literalTypeName? e = some n) :
    inferType scope e = (do return some (← scope.resolveName n)) := by
  cases e with
  | literal kind text =>
    obtain rfl := Option.some.inj h
    rfl
  | ident name =>
    have hname : identTypeName? name = some n := h
    rw [inferType, hname]
  | unary op operand =>
    unfold literalTypeName? at h
    split at h
    next hkeeps =>
      have hop : op ≠ .address := by
        rintro rfl
        cases hkeeps
      rw [inferType, if_neg hop, if_pos hkeeps]
      exact inferType_literal h
    next => cases h
  | paren inner => exact inferType_literal (e := inner ()) h
  | composite | selector | call | other | bad => cases h
termination_by structural e

structure FileScope.InFile (scope : FileScope) : Prop where
  typeParams : scope.typeParams = []
  builtinFirst : scope.package = builtinId ∨ ∃ others, scope.dotImports = builtinId :: others

theorem Environment.scopeOf_inFile (env : Environment) (pkg : PackageId) :
    (env.scopeOf pkg builtinId).InFile where
  typeParams := rfl
  builtinFirst := by
    unfold Environment.scopeOf
    by_cases hp : pkg = builtinId
    · exact .inl hp
    · exact .inr ⟨[], if_neg hp⟩

theorem FileScope.InFile.widened {scope scope' : FileScope} (h : scope.InFile)
    (hw : scope.Widens scope') : scope'.InFile where
  typeParams := hw.typeParams.trans h.typeParams
  builtinFirst := by
    refine h.builtinFirst.imp (fun hp => hw.package.trans hp) ?_
    rintro ⟨others, hothers⟩
    obtain ⟨new, hnew⟩ := hw.dotImports
    exact ⟨others ++ new, by rw [← hnew, hothers, List.cons_append]⟩

theorem resolveName_literal {scope : FileScope} (h : scope.InFile) {n : String}
    (hn : n ∈ literalTypeNames) {reg : Registry} {b : RefId}
    (hb : reg.ref? builtinId n = some b) :
    scope.resolveName n reg = .ok ((reg.ref? scope.package n).getD b) reg := by
  have hproper : ¬(n = "" ∨ n = "_") := by
    rintro (rfl | rfl) <;> exact absurd hn (by decide)
  have hknown : scope.known? reg n = some ((reg.ref? scope.package n).getD b) := by
    rw [FileScope.known?, h.typeParams]
    dsimp only [List.lookup_nil]
    rw [List.findSome?_cons]
    cases hown : reg.ref? scope.package n with
    | some r => rfl
    | none =>
      rcases h.builtinFirst with hp | ⟨others, hothers⟩
      · rw [hp, hb] at hown
        cases hown
      · dsimp only
        rw [hothers, List.findSome?_cons, hb]
        rfl
  unfold FileScope.resolveName
  rw [if_neg hproper]
  have hget : (get : Analysis Registry) reg = .ok reg reg := rfl
  refine (bind_eq_of_ok hget).trans ?_
  rw [hknown]
  rfl

theorem Registry.Reachable.leads {reg : Registry} (h : reg.Reachable) : Leads .new reg := by
  induction h with
  | new => exact .refl Registry.new_sound
  | next action _ he ih =>
    obtain ⟨named, hcourse, -⟩ := Registry.next_course ih.sound he
    exact ih.trans (hcourse.leads ih.sound) Registry.new_sound

theorem new_has_literalTypes :
    ∀ n ∈ literalTypeNames, (Registry.new.ref? builtinId n).isSome := by decide +kernel

theorem Registry.Reachable.has_literalType {reg : Registry} (h : reg.Reachable) {n : String}
    (hn : n ∈ literalTypeNames) : ∃ b, reg.ref? builtinId n = some b := by
  obtain ⟨b, hb⟩ := Option.isSome_iff_exists.mp (new_has_literalTypes n hn)
  obtain ⟨s, hs, -⟩ := h.leads.tables builtinId n b hb
  exact ⟨s, hs⟩

section Lines

variable {line : FileScope} {kind : GroupKind} {groupDoc : Option Doc} {spec source : ValueSpec}
  {reg reg' mid : Registry}

theorem declareNames_front (hr : reg.Reachable) (hs : line.Sound reg) (hty : source.type = none)
    {place : Nat} (h : declareNames line kind ((spec.doc.or groupDoc).getD []) none source 0
      (spec.names.take place) reg = .ok () mid) : mid.Reachable := by
  let front : ValueSpec := { spec with names := spec.names.take place }
  have hfront : declareValueSpec line kind groupDoc front source reg = .ok () mid := by
    unfold declareValueSpec
    rw [hty]
    exact h
  have hnext := hr.next (.valueSpec line kind groupDoc front source) hs
  rwa [Registry.next, stateAfter, hfront] at hnext

/-- What the value at `place` of a line is recorded with: the type that its predeclared name stands
for when the names before it have been listed. -/
structure LiteralRecorded (line : FileScope) (kind : GroupKind) (doc : Doc) (names : List String)
    (source : ValueSpec) (place : Nat) (name typeName : String) (before mid after : Registry)
    (r b : RefId) : Prop where
  front : declareNames line kind doc none source 0 (names.take place) before = .ok () mid
  predeclared : mid.ref? builtinId typeName = some b
  type : r = (mid.ref? line.package typeName).getD b
  recorded : after.value? line.package kind name = some { name, type := some r, doc }

theorem declareValueSpec_literal (hr : reg.Reachable) (hf : line.InFile) (hs : line.Sound reg)
    (h : declareValueSpec line kind groupDoc spec source reg = .ok () reg')
    (hty : source.type = none) {place : Nat} {name n : String} {value : Expr}
    (hk : spec.names[place]? = some name) (hb : name ≠ "_")
    (hlast : name ∉ spec.names.drop (place + 1))
    (hv : source.values[place]?.or source.values.head? = some value)
    (hn : literalTypeName? value = some n) :
    ∃ mid r b, LiteralRecorded line kind ((spec.doc.or groupDoc).getD []) spec.names source place
      name n reg mid reg' r b := by
  obtain ⟨type, htyped, hlisted⟩ := declareValueSpec_lists hs.package h hk hb hlast
  unfold TypedFrom at htyped
  rw [hty] at htyped
  dsimp only at htyped
  rw [hv] at htyped
  obtain ⟨mid, mid', hfront, hinfer⟩ := htyped
  have hmem := literalTypeName?_mem hn
  obtain ⟨b, hbuiltin⟩ := (declareNames_front hr hs hty hfront).has_literalType hmem
  rw [inferType_literal hn] at hinfer
  obtain ⟨r, mid'', hresolve, hpure⟩ := bind_ok hinfer
  cases hpure
  rw [resolveName_literal hf hmem hbuiltin] at hresolve
  cases hresolve
  exact ⟨mid, _, b, hfront, hbuiltin, rfl, hlisted⟩

theorem LiteralRecorded.predeclared_iff {doc : Doc} {names : List String} {place : Nat}
    {name typeName : String} {r b : RefId}
    (h : LiteralRecorded line kind doc names source place name typeName reg mid reg' r b) :
    r = b ↔ ∀ own, mid.ref? line.package typeName = some own → own = b := by
  rw [h.type]
  cases mid.ref? line.package typeName with
  | none => exact ⟨fun _ _ hn => (nomatch hn), fun _ => rfl⟩
  | some own => exact ⟨fun he _ hs => Option.some.inj hs ▸ he, fun hall => hall own rfl⟩

end Lines

/-- The predeclared names of a session have their package, and its registry is what actions made
of a new one. -/
structure Environment.Started (env : Environment) : Prop where
  builtin : env.builtin = some builtinId
  registry : env.registry.Reachable

theorem Environment.Started.moves {env env' : Environment} (h : env.Started)
    (hmoves : Moves env env') (hbuiltin : env'.builtin = env.builtin) : env'.Started := by
  obtain ⟨actions, hv, hrun⟩ := hmoves
  exact ⟨hbuiltin.trans h.builtin, hrun ▸ h.registry.run hv⟩

theorem Environment.Started.performAll {env : Environment} (hw : env.WellFormed)
    (h : env.Started) {requests : List Environment.Request} (hn : env.NamesAll requests) :
    (env.performAll requests).Started := by
  induction requests generalizing env with
  | nil => exact h
  | cons request rest ih =>
    have hlasts := Environment.perform_lasts hw.registry hn.1
    have hmoves := Environment.perform_moves (Registry.reachable_sound h.registry) hn.1.accepts
    exact ih (hlasts.keeps hw) (h.moves hmoves hlasts.builtin) hn.2

theorem Environment.new_started (currentDir : Option String) (locator : Locator)
    (parser : SourceParser) : (Environment.new currentDir locator parser).Started :=
  ⟨Registry.new_builtin?, .new⟩

theorem analyzeFile_lines {depth : Nat} {env env' : Environment} {pkg : PackageId}
    {file : SourceFile} (h : env.Started) (hp : ∃ p, env.registry.package? pkg = some p)
    (hok : analyzeFile depth pkg file env = .ok () env') {kind : GroupKind} {doc : Option Doc}
    {spec source : ValueSpec} (hm : .valueSpec kind doc spec source ∈ items file) :
    ∃ line mid after, line.InFile ∧ line.package = pkg ∧ line.Sound mid.registry ∧
      Moves env mid ∧ declareValueSpec line kind doc spec source mid.registry = .ok () after ∧
      Moves { mid with registry := after } env' := by
  have hr := Registry.reachable_sound h.registry
  obtain ⟨front, back, hsplit⟩ := List.append_of_mem hm
  have hopened : Moves env (env.opened pkg file) :=
    .one (.appendDoc pkg (file.doc.getD [])) trivial rfl
  have hscope : (env.scopeOf pkg builtinId).Sound (env.opened pkg file).registry :=
    Environment.scopeOf_sound ((hopened.grows hr).package? hp) builtinId
  obtain ⟨scope', hitems⟩ : ∃ scope', (items file).foldlM (analyzeItem (analyzePackage depth))
      (env.scopeOf pkg builtinId) (env.opened pkg file) = .ok scope' env' := by
    have hget : (get : Session Environment) env = .ok env env := rfl
    rw [analyzeFile, analyzeFileWith, bind_eq_of_ok hget, h.builtin] at hok
    dsimp only at hok
    rw [foldlM_analyzeDecl] at hok
    exact discard_ok hok
  rw [hsplit] at hitems
  obtain ⟨line, mid, after, hfront, hrun, hback⟩ := valueSpec_runs hitems
  have hbefore := items_run (analyzePackage_safe depth) (hopened.sound hr) hscope hfront
  have hmid := hbefore.moves.sound (hopened.sound hr)
  have hmoves := valueSpec_moves hbefore.sound hrun
  have hline : line.Sound after := hbefore.sound.grows (hmoves.grows hmid)
  have hbehind := items_run (analyzePackage_safe depth) (hmoves.sound hmid) hline hback
  exact ⟨line, mid, after, (env.scopeOf_inFile pkg).widened hbefore.widens,
    hbefore.widens.package, hbefore.sound, hopened.trans hbefore.moves, hrun, hbehind.moves⟩

/-- In every session, a line of a file that is analyzed to its end is read in a scope of the file.
And a value that such a line declares without a type, with a literal in its place or as the first
one of the line, is recorded with the entry that the package of the file has under the predeclared
name of the literal, or else with the predeclared one: it has the predeclared type exactly where the
package has no other entry of that name. -/
theorem literal_types_are_predeclared_iff {currentDir : Option String} {locator : Locator}
    {parser : SourceParser} {requests : List Environment.Request} {env : Environment}
    (hn : (Environment.new currentDir locator parser).NamesAll requests)
    (henv : (Environment.new currentDir locator parser).performAll requests = env) :
    (∀ depth began pkg file env', Moves env began → began.builtin = env.builtin →
      (∃ p, began.registry.package? pkg = some p) →
      analyzeFile depth pkg file began = .ok () env' →
      ∀ kind doc spec source, .valueSpec kind doc spec source ∈ items file →
        ∃ line mid after, line.InFile ∧ line.package = pkg ∧ line.Sound mid.registry ∧
          Moves began mid ∧
          declareValueSpec line kind doc spec source mid.registry = .ok () after ∧
          Moves { mid with registry := after } env') ∧
    ∀ actions reg, env.registry.ValidRun actions → env.registry.run actions = reg →
      ∀ line kind groupDoc spec source after, line.InFile → line.Sound reg →
        declareValueSpec line kind groupDoc spec source reg = .ok () after →
        source.type = none →
        ∀ place name value typeName, spec.names[place]? = some name → name ≠ "_" →
          name ∉ spec.names.drop (place + 1) →
          source.values[place]?.or source.values.head? = some value →
          literalTypeName? value = some typeName →
          ∃ mid r b, LiteralRecorded line kind ((spec.doc.or groupDoc).getD []) spec.names source
              place name typeName reg mid after r b ∧
            (r = b ↔ ∀ own, mid.ref? line.package typeName = some own → own = b) := by
  have hstarted : env.Started :=
    henv ▸ (Environment.new_started currentDir locator parser).performAll
    (Environment.new_wellFormed currentDir locator parser) hn
  constructor
  · intro depth began pkg file env' hmoves hbuiltin hp hok kind doc spec source hm
    exact analyzeFile_lines (hstarted.moves hmoves hbuiltin) hp hok hm
  · rintro actions _ hv rfl line kind groupDoc spec source after hf hs h hty place name value
      typeName hk hb hlast hval hn
    obtain ⟨mid, r, b, hrecorded⟩ :=
      declareValueSpec_literal (hstarted.registry.run hv) hf hs h hty hk hb hlast hval hn
    exact ⟨mid, r, b, hrecorded, hrecorded.predeclared_iff⟩

open Environment (onePackage onePackageScope onePackageScope_sound onePackage_reachable)

def literalLine : ValueSpec :=
  ⟨none, ["x", "y"], none,
    [.unary .minus fun _ => .paren fun _ => .literal .int "1", .ident "true"]⟩

def literalFile : SourceFile := ⟨"p", none, [.group .vars none [.valueSpec literalLine]]⟩

theorem literalLine_is_recorded :
    (∃ line mid after, line.InFile ∧ line.package = ⟨1⟩ ∧ line.Sound mid.registry ∧
      Moves onePackage mid ∧
      declareValueSpec line .vars none literalLine literalLine mid.registry = .ok () after ∧
      Moves { mid with registry := after }
        (stateAfter (analyzeFile 0 ⟨1⟩ literalFile) onePackage)) ∧
    ∃ mid r b, LiteralRecorded onePackageScope .vars [] ["x", "y"] literalLine 1 "y" "bool"
        onePackage.registry mid (stateAfter (declareValueSpec onePackageScope .vars none literalLine
          literalLine) onePackage.registry) r b ∧
      (r = b ↔ ∀ own, mid.ref? ⟨1⟩ "bool" = some own → own = b) := by
  have hnames : (Environment.new none Environment.noPackages Environment.noFiles).NamesAll
      [.append ⟨"p", "p", "", []⟩] := ⟨trivial, trivial⟩
  have hone : (Environment.new none Environment.noPackages Environment.noFiles).performAll
      [.append ⟨"p", "p", "", []⟩] = onePackage := rfl
  obtain ⟨hfiles, hlines⟩ := literal_types_are_predeclared_iff hnames hone
  have hfile : analyzeFile 0 ⟨1⟩ literalFile onePackage = .ok () _ :=
    eq_ok_stateAfter (by decide +kernel)
  have hline : declareValueSpec onePackageScope .vars none literalLine literalLine
      onePackage.registry = .ok () _ := eq_ok_stateAfter (by decide +kernel)
  constructor
  · exact hfiles 0 onePackage ⟨1⟩ literalFile _ (.of_eq rfl) rfl onePackageScope_sound.package hfile
      .vars none literalLine literalLine List.mem_cons_self
  · exact hlines [] _ trivial rfl onePackageScope .vars none literalLine literalLine _
      ⟨rfl, .inr ⟨[], rfl⟩⟩ onePackageScope_sound hline rfl 1 "y" (.ident "true") "bool" rfl
      (by decide) (by decide) rfl (by decide)

def ownIntFile : SourceFile :=
  ⟨"p", none, [.group .types none [emptyStruct "int"],
    .group .vars none [.valueSpec ⟨none, ["x"], none, [.literal .int "1"]⟩]]⟩

def ownIntRead : Environment := onePackage.perform (.analyzeFile 0 ⟨1⟩ ownIntFile)

/-- The variable is not of the predeclared type, which is there unchanged. -/
theorem own_int_takes_the_literal :
    ownIntRead.Reachable ∧ (∃ env, analyzeFile 0 ⟨1⟩ ownIntFile onePackage = .ok () env) ∧
    literalTypeName? (.literal .int "1") = some "int" ∧
    ownIntRead.registry.ref? builtinId "int" = some ⟨7⟩ ∧
    ownIntRead.registry.value? ⟨1⟩ .vars "x" = some ⟨"x", some ⟨22⟩, []⟩ := by
  refine ⟨.perform _ onePackage_reachable onePackageScope_sound.package,
    ⟨_, eq_ok_stateAfter (by decide +kernel)⟩, rfl, ?_⟩
  decide +kernel

end GoPackages
