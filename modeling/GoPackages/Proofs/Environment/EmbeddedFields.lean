import GoPackages.Proofs.Analysis.DeclaredMembers
import GoPackages.Proofs.Environment.RecursiveAliases
import GoPackages.Proofs.Registry.StoredTypes
import GoPackages.Proofs.Registry.TypeParameters

/-!
# The names of embedded fields

An embedded field gets the name of the entry behind its type, as it is when the field is read, and
keeps it. A name that is no alias has an entry of its own name, so its field is named as it is
written. The entry behind an alias is that of the name in which its chain of aliases ends.
-/
namespace GoPackages

open Source (TypeExpr TypeSpec Field Expr)
open Registry (Action Adds Extends AliasesFollow aliasLog)

namespace TypeGraph

variable {g : TypeGraph} {r s : RefId}

theorem refName_of_root {e : NamedRef} (hroot : g.namedRoot r = s)
    (he : g.entryAt? s = some (.named e)) : g.refName r = e.name := by
  simp [refName, named?, hroot, he]

theorem refName_congr (h : g.namedRoot r = g.namedRoot s) : g.refName r = g.refName s := by
  rw [refName, named?, h]
  rfl

theorem refName_addFields (g : TypeGraph) (r : RefId) (ty : TypeId) (fields : List StructField) :
    (g.addFields ty fields).refName r = g.refName r := by
  have hroot : (g.addFields ty fields).namedRoot r = g.namedRoot r := namedRoot_modifyType ..
  rw [refName, named?, hroot]
  rfl

end TypeGraph

section Names

variable {log : AliasLog} {scope : FileScope} {reg mid reg' : Registry} {r s : RefId}
  {written : Option Expr × String} {slot : Slot}

theorem FileScope.slotOf?_name {params : List String}
    (h : scope.slotOf? reg params written = some slot) : slot.2 = written.2 := by
  obtain ⟨base, name⟩ := written
  cases base with
  | none =>
    by_cases hparam : name ∈ params
    · cases (if_pos hparam).symm.trans h
    · exact Option.some.inj ((if_neg hparam).symm.trans h) ▸ rfl
  | some base =>
    cases base with
    | ident qualifier =>
      obtain ⟨q, -, rfl⟩ := Option.map_eq_some_iff.mp h
      rfl
    | _ => cases h

theorem Registry.AliasesFollow.refName_eq (h : AliasesFollow log reg) {t : Slot}
    (hr : reg.ref? slot.1 slot.2 = some r) (hleads : log.LeadsTo slot t) (ht : t ∉ log.keys) :
    reg.graph.refName r = t.2 := by
  obtain ⟨x, hx, hroot⟩ := h.root_of_leadsTo hleads hr
  obtain ⟨e, he, hname, -⟩ := h.own t x ht hx
  rw [h.root_own ht hx] at hroot
  exact (TypeGraph.refName_of_root hroot he).trans hname

end Names

/-- The name of an embedded field whose type has the name `written` under its decorators. A type
parameter is named after itself, and any other name gives the field the name of its entry. -/
inductive EmbeddedNamed (log : AliasLog) (scope : FileScope) (written : Option Expr × String)
    (reg reg' : Registry) : String → Prop where
  | param : scope.slotOf? reg (scope.typeParams.map Prod.fst) written = none →
      EmbeddedNamed log scope written reg reg' written.2
  | slot {slot : Slot} {s : RefId} :
      scope.slotOf? reg (scope.typeParams.map Prod.fst) written = some slot →
      slot.2 = written.2 → reg'.ref? slot.1 slot.2 = some s →
      (log.keys.Nodup → ∀ t, log.LeadsTo slot t → t ∉ log.keys → reg'.graph.refName s = t.2) →
      EmbeddedNamed log scope written reg reg' (reg'.graph.refName s)

/-- The declaration of one field, or of some of one type. An embedded one is a single field. -/
def EmbeddedRead (log : AliasLog) (scope : FileScope) (ty : TypeId) (field : Field)
    (batch : List StructField) (reg reg' : Registry) : Prop :=
  FieldRead scope ty field batch reg reg' ∧ ∀ written, field.names = [] →
    writtenName? (field.type ()) = some written →
      ∃ f, batch = [f] ∧ f.embedded = true ∧ EmbeddedNamed log scope written reg reg' f.name

/-- What holds while the fields of a struct are read, after the aliases `log`. -/
structure ReadsAfter (log : AliasLog) (scope : FileScope) (reg : Registry) : Prop where
  sound : reg.Sound
  inScope : scope.Sound reg
  follows : log.keys.Nodup → AliasesFollow log reg
  params : ∀ n r, (n, r) ∈ scope.typeParams →
    ∃ e, reg.graph.entryAt? r = some (.named e) ∧ e.name = n

section Fields

variable {log : AliasLog} {scope : FileScope} {reg mid reg' : Registry} {ty : TypeId}

theorem ReadsAfter.extended (h : ReadsAfter log scope reg) {free : TypeId → Prop}
    (hx : Extends scope.package free reg reg') : ReadsAfter log scope reg' where
  sound := hx.sound h.sound
  inScope := h.inScope.extended hx
  follows honce := (h.follows honce).adds (.of_extends hx)
  params n r hr := by
    obtain ⟨e, he, hname⟩ := h.params n r hr
    exact ⟨e, hx.entries r _ he, hname⟩

theorem ReadsAfter.declare (h : ReadsAfter log scope reg) (pkg : PackageId) (name : String)
    (kind : TypeKind) : ReadsAfter log scope (reg.declare pkg name kind).2 where
  sound := Registry.declare_sound h.sound pkg name kind
  inScope := h.inScope.declare pkg name kind
  follows honce := (h.follows honce).define pkg name kind
  params n r hr := by
    obtain ⟨e, he, hname⟩ := h.params n r hr
    have hx := Registry.extends_introduce reg pkg name kind pkg fun _ => False
    obtain ⟨e', he', hname', -⟩ := Registry.declare_named (hx.entries r _ he)
    exact ⟨e', he', hname'.trans hname⟩

/-- The reference that a type is read as has the name of what is written under its decorators. -/
theorem ReadsAfter.embeddedNamed (h : ReadsAfter log scope reg) {type : TypeExpr} {r : RefId}
    {written : Option Expr × String} (hw : writtenName? type = some written)
    (hread : resolveType scope type reg = .ok r mid) :
    EmbeddedNamed log scope written reg mid (mid.graph.refName r) := by
  obtain ⟨s, looked, hlook, hhas, hadds, hroot⟩ :=
    resolveType_written h.sound h.inScope type hw hread
  rw [TypeGraph.refName_congr hroot]
  rcases resolveWritten_ok h.inScope hlook with ⟨slot, hslot, hobtained⟩ | ⟨hnone, rfl, hl⟩
  · have href := hadds.spares.refs _ _ s hobtained.slot
    refine .slot hslot (FileScope.slotOf?_name hslot) href fun honce t hleads ht => ?_
    exact ((h.follows honce).adds (hobtained.adds.trans hadds)).refName_eq href hleads ht
  · obtain ⟨e, he, hname⟩ := h.params _ s (mem_of_lookup hl)
    obtain ⟨methods, he'⟩ := hadds.spares.names s e he
    have hnamed := TypeGraph.refName_of_root (TypeGraph.namedRoot_of_named he') he'
    rw [hnamed.trans hname]
    exact .param hnone

theorem EmbeddedNamed.stored {written : Option Expr × String} {name : String}
    (h : EmbeddedNamed log scope written reg mid name) (ty : TypeId) (batch : List StructField) :
    EmbeddedNamed log scope written reg (mid.withGraph (·.addFields ty batch)) name := by
  cases h with
  | param hnone => exact .param hnone
  | @slot slot s hslot hname href hended =>
    have hkept := TypeGraph.refName_addFields mid.graph s ty batch
    rw [← hkept]
    refine .slot hslot hname href fun honce t hleads ht => ?_
    exact hkept.trans (hended honce t hleads ht)

theorem FieldRead.embeddedRead {field : Field} {batch : List StructField}
    (h : FieldRead scope ty field batch reg reg') (hreg : ReadsAfter log scope reg) :
    EmbeddedRead log scope ty field batch reg reg' ∧ ReadsAfter log scope reg' := by
  have hfield := h
  obtain ⟨r, tag, mid, hread, -, hbatch, rfl⟩ := h
  obtain ⟨hx, -, -⟩ := (resolveType_reads hreg.sound hreg.inScope _).of_ok hread
  have hstored : Extends scope.package (ty = ·) mid
      (mid.withGraph (·.addFields ty batch)) := Registry.extends_addFields mid rfl batch
  refine ⟨⟨hfield, fun written hnames hw => ?_⟩, (hreg.extended hx).extended hstored⟩
  have hnamed := hreg.embeddedNamed hw hread
  have hone : batch.map (·.name) = [mid.graph.refName r] := by
    rw [hbatch.names, memberNames, if_pos hnames]
  obtain ⟨f, rfl, hf⟩ := List.map_eq_singleton_iff.mp hone
  refine ⟨f, rfl, ?_, hf ▸ hnamed.stored ty _⟩
  rw [hbatch.embedded f List.mem_cons_self, hnames]
  rfl

theorem InTurn.embeddedRead {fields : List Field} {stored : List StructField}
    (h : InTurn (FieldRead scope ty) fields stored reg reg') (hreg : ReadsAfter log scope reg) :
    InTurn (EmbeddedRead log scope ty) fields stored reg reg' := by
  induction h with
  | nil => exact .nil
  | cons hfield _ ih =>
    obtain ⟨hembedded, hmid⟩ := hfield.embeddedRead hreg
    exact .cons hembedded (ih hmid)

theorem ReadsAfter.declared (hr : reg.Sound) (hs : scope.Sound reg)
    (hfollows : log.keys.Nodup → AliasesFollow log reg) {names : List String} {inner : FileScope}
    {opened : Registry} (hopen : scope.withTypeParams names reg = .ok inner opened)
    (name : String) (kind : TypeKind) :
    ReadsAfter log inner (opened.declare scope.package name kind).2 := by
  obtain ⟨inner', opened', h⟩ := withTypeParams_opens hr hs names
  cases hopen.symm.trans h.opens
  have hopened : ReadsAfter log inner opened := by
    constructor
    case sound => exact h.sound
    case inScope => exact h.inScope
    case follows =>
      intro honce
      exact (hfollows honce).adds (.of_extends h.reads)
    case params =>
      intro n r hp
      obtain ⟨ty, -, he, -⟩ := h.minted.typed n r hp
      exact ⟨_, he, rfl⟩
  exact hopened.declare scope.package name kind

end Fields

/-- The struct type that a declaration makes, with its fields as they were read in turn. No later
action changes them. -/
def StructNamed (log : AliasLog) (scope : FileScope) (doc : Option Doc) (spec : TypeSpec)
    (fields : List Field) (reg reg' : Registry) : Prop :=
  ∃ inner opened stored,
    scope.withTypeParams (Source.declaredNames spec.typeParams) reg = .ok inner opened ∧
    StructDeclared scope.package spec.name
      { doc := (spec.doc.or doc).getD [], fields := stored } opened.nextType reg' ∧
    InTurn (EmbeddedRead log inner opened.nextType) fields stored
      (opened.declare scope.package spec.name
        (.struct { doc := (spec.doc.or doc).getD [] })).2 reg' ∧
    ∀ later, reg'.ValidRun later →
      (reg'.run later).graph.fields? opened.nextType = some stored

/-- The registry of a session is what a run of actions makes of a new one. Whatever follows, every
embedded field of a struct that is declared has the name of the entry behind its type, for good.
While no alias is declared a second time, this is the name in which the aliases of the written name
end, and the written name itself if it is no alias. -/
theorem embedded_fields_named_where_aliases_end {env : Environment} (henv : env.Reachable) :
    (∃ past, Registry.new.ValidRun past ∧ Registry.new.run past = env.registry) ∧
    ∀ past actions reg, Registry.new.ValidRun past → Registry.new.run past = env.registry →
      env.registry.ValidRun actions → env.registry.run actions = reg →
      ∀ scope doc spec fields reg', scope.Sound reg → spec.isAlias = false →
        spec.type = .struct fields → declareTypeSpec scope doc spec reg = .ok () reg' →
        StructNamed (aliasLog (past ++ actions)) scope doc spec fields reg reg' := by
  refine ⟨henv.run, ?_⟩
  intro past actions reg hv hpast hv' hrun scope doc spec fields reg' hs ha ht hok
  have hall : Registry.new.ValidRun (past ++ actions) := hv.append (hpast.symm ▸ hv')
  have hreg : Registry.new.run (past ++ actions) = reg := by
    rw [Registry.run_append, hpast, hrun]
  have hreach : Registry.Reachable reg := hreg ▸ Registry.Reachable.new.run hall
  have hr := Registry.reachable_sound hreach
  obtain ⟨inner, opened, before, rest, stored, hstruct⟩ :=
    declareTypeSpec_structRun hreach hs doc ha ht
  obtain ⟨mid, hturn, hend⟩ := hstruct.read
  have hdeclared := hstruct.declared
  rw [stateAfter, hok] at hdeclared
  rw [hok] at hend
  cases hend
  obtain rfl : fields = before := by
    have hfields := ht.symm.trans hstruct.fields
    rw [List.append_nil] at hfields
    exact TypeExpr.struct.inj hfields
  have hreads : ReadsAfter (aliasLog (past ++ actions)) inner _ :=
    ReadsAfter.declared hr hs (fun honce => hreg ▸ Registry.new_aliasesFollow.run hall honce)
      hstruct.opens spec.name (.struct { doc := (spec.doc.or doc).getD [] })
  refine ⟨inner, opened, stored, hstruct.opens, hdeclared, hturn.embeddedRead hreads, ?_⟩
  intro later hlater
  obtain ⟨r, -, -, htype⟩ := hdeclared.bound
  have hnext : reg.next (.typeSpec scope doc spec) = reg' := Registry.next_of_ok hok
  have hsound : reg'.Sound := hnext ▸ Registry.typeSpec_sound hr hs doc spec
  exact Registry.run_keepsFields hsound hlater _ _ (TypeGraph.fields?_of_typeAt? htype rfl)

open Registry (newScope newScope_sound)
open Environment (onePackage onePackage_reachable)

def embedding (name : String) : List Field :=
  [⟨[], fun _ => .named name [], none, none⟩,
    ⟨[], fun _ => .pointer fun _ => .named "int" [], none, none⟩]

def embedder (name : String) : TypeSpec where
  doc := none
  name := "S"
  typeParams := []
  type := .struct (embedding name)
  isAlias := false

def namesAfter (reg : Registry) (name : String) (later : List Action) :
    Option (List String) :=
  (((stateAfter (declareTypeSpec newScope none (embedder name)) reg).run later).graph.fields?
    reg.nextType).map (·.map (·.name))

def oneAppend : List Action := [.append ⟨"p", "p", "", []⟩]

/-- Where the alias `type A = int` comes after the struct, its field keeps the name `A`. -/
theorem later_alias_leaves_field_name :
    StructNamed (aliasLog oneAppend) newScope none (embedder "A") (embedding "A")
        onePackage.registry
        (stateAfter (declareTypeSpec newScope none (embedder "A")) onePackage.registry) ∧
      namesAfter onePackage.registry "A" [.typeSpec newScope none (aliasOf "A" "int")] =
        some ["A", "int"] := by
  obtain ⟨-, hnamed⟩ := embedded_fields_named_where_aliases_end onePackage_reachable
  have hpast : Registry.new.run oneAppend = onePackage.registry := by
    rw [onePackage, Environment.perform_append_registry]
    rfl
  have hok : declareTypeSpec newScope none (embedder "A") onePackage.registry = .ok () _ :=
    eq_ok_stateAfter (by decide +kernel)
  refine ⟨?_, by decide +kernel⟩
  exact hnamed oneAppend [] _ ⟨trivial, trivial⟩ hpast trivial rfl newScope none (embedder "A") _ _
    (newScope_sound_of_isSome (by decide +kernel)) rfl rfl hok

/-- Where it comes before the struct, the field is called `int`, and an embedded `any` has the name
of the empty interface. -/
theorem earlier_alias_names_field :
    newScope.Sound (afterAlias "A" "int") ∧
      namesAfter (afterAlias "A" "int") "A" [] = some ["int", "int"] ∧
      namesAfter onePackage.registry "any" [] = some ["interface\x7b\x7d", "int"] :=
  ⟨newScope_sound_of_isSome (by decide +kernel), by decide +kernel, by decide +kernel⟩

end GoPackages
