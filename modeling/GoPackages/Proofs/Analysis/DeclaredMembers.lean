import GoPackages.Proofs.Analysis.Batches
import GoPackages.Proofs.Analysis.Sites
import GoPackages.Proofs.Registry.ListedTypes
import GoPackages.Proofs.Registry.Lookup

/-!
# The members of declared types

A struct has the fields of its declarations in order, and a signature its parameters and results.
A struct declaration that fails has declared its type all the same, with the fields of all
declarations before the one that failed.
-/
namespace GoPackages

open Source (TypeSpec Field)
open Registry (Extends)

/-- A method type whose parameters were read and then its results. -/
def SignatureRead (scope : FileScope) (name : String) (doc : Doc) (receiver : Option Argument)
    (params results : List Field) (reg : Registry) (ty : TypeId) (reg' : Registry) : Prop :=
  ∃ arguments answers mid last, ArgumentsRead scope params arguments reg mid ∧
    ArgumentsRead scope results answers mid last ∧ ty = last.nextType ∧
    reg'.graph.typeAt? ty = some
      { name, package := some scope.package
        kind := .method { doc, receiver, arguments, results := answers } }

section Signatures

variable {scope : FileScope} {params results : List Field} {reg reg' : Registry}

theorem resolveMethod_signatureRead {name : String} {doc : Doc} {receiver : Option Argument}
    {ty : TypeId} (h : resolveMethod scope name doc receiver params results reg = .ok ty reg') :
    SignatureRead scope name doc receiver params results reg ty reg' := by
  obtain ⟨arguments, mid, hparams, h⟩ := bind_ok h
  obtain ⟨answers, last, hresults, h⟩ := bind_ok h
  cases h
  refine ⟨arguments, answers, mid, last, resolveArguments_read hparams,
    resolveArguments_read hresults, rfl, ?_⟩
  exact TypeGraph.typeAt?_addType_self last.graph _

theorem TypeGraph.resolved?_of_named {g : TypeGraph} {r : RefId} {e : NamedRef}
    (h : g.entryAt? r = some (.named e)) : g.resolved? r = e.type := by
  rw [resolved?, (Path.named h).named?_eq h]
  rfl

theorem resolveType_func_signatureRead {r : RefId}
    (h : resolveType scope (.func params results) reg = .ok r reg') :
    ∃ ty, reg'.graph.resolved? r = some ty ∧
      SignatureRead scope "" [] none params results reg ty reg' := by
  obtain ⟨arguments, mid, hparams, h⟩ := bind_ok h
  obtain ⟨answers, last, hresults, h⟩ := bind_ok h
  cases h
  refine ⟨last.nextType, ?_, arguments, answers, mid, last, resolveArguments_read hparams,
    resolveArguments_read hresults, rfl, TypeGraph.typeAt?_addType_self last.graph _⟩
  exact TypeGraph.resolved?_of_named (TypeGraph.entryAt?_addRef_self _ _)

end Signatures

/-- The package's name is bound to the struct type, and the package lists it under the name. -/
structure StructDeclared (pkg : PackageId) (name : String) (type : StructType) (ty : TypeId)
    (reg : Registry) : Prop where
  bound : ∃ r, reg.ref? pkg name = some r ∧ reg.graph.resolved? r = some ty ∧
    reg.graph.typeAt? ty = some
      { name, package := some pkg, kind := .struct type
        declaredBy := some (reg.graph.namedRoot r) }
  listed : ∃ p, reg.package? pkg = some p ∧ p.structs.get? name = some ty ∧ ty ∈ p.structs.ids ∧
    p.types.get? name = some ty ∧ ty ∈ p.types.ids

/-- How far a struct declaration came: the fields of the declarations `before` were stored in the
new type, and at the first of `rest`, if there is one, it failed. -/
structure StructRun (scope : FileScope) (groupDoc : Option Doc) (spec : TypeSpec)
    (inner : FileScope) (opened : Registry) (before rest : List Field) (stored : List StructField)
    (reg : Registry) : Prop where
  fields : spec.type = .struct (before ++ rest)
  opens : scope.withTypeParams (Source.declaredNames spec.typeParams) reg = .ok inner opened
  new : ¬reg.graph.HasType opened.nextType
  read : ∃ mid, InTurn (FieldRead inner opened.nextType) before stored
      (opened.declare scope.package spec.name
        (.struct { doc := (spec.doc.or groupDoc).getD [] })).2 mid ∧
    FieldsEnd inner mid rest (declareTypeSpec scope groupDoc spec reg)
  count : stored.length = (before.map fun field => max 1 field.names.length).sum
  declared : StructDeclared scope.package spec.name
    { doc := (spec.doc.or groupDoc).getD [], fields := stored } opened.nextType
    (stateAfter (declareTypeSpec scope groupDoc spec) reg)

section Structs

variable {pkg : PackageId} {name : String} {type : StructType} {ty : TypeId}
  {reg reg' : Registry}

theorem declare_structDeclared (hr : reg.Sound) (hslots : reg.Slotted)
    (hp : ∃ p, reg.package? pkg = some p) (name : String) (type : StructType) :
    StructDeclared pkg name type reg.nextType (reg.declare pkg name (.struct type)).2 where
  bound := by
    obtain ⟨p, hp⟩ := hp
    let r := (reg.introduce pkg name (.struct type)).1
    let made := (reg.introduce pkg name (.struct type)).2
    have hmade : made.Sound :=
      (Registry.extends_introduce reg pkg name _ pkg fun _ => False).sound hr
    obtain ⟨root, k, ds, hpath⟩ :=
      TypeGraph.reachable_grounded hmade.graph r (Registry.introduce_hasRef hr)
    obtain ⟨e, hentry⟩ := hpath.root_named
    -- Binding changes what the name holds, and no way to it.
    have hgraph : (reg.declare pkg name (.struct type)).2.graph =
        (made.graph.bind r reg.nextType).2 := rfl
    refine ⟨r, ?_, ?_, ?_⟩
    · rw [Registry.declare_ref?]
      exact Registry.introduce_ref? hp
    · rw [hgraph, TypeGraph.resolved?, TypeGraph.named?_bind (hpath.named?_eq hentry)]
      rfl
    · rw [hgraph, TypeGraph.namedRoot_bind, ← hgraph]
      exact Registry.declare_typeAt? reg pkg name (.struct type)
  listed := by
    obtain ⟨p, hp⟩ := hp
    obtain ⟨refs, hp'⟩ := Registry.declare_package? hp pkg name (.struct type)
    rw [if_pos rfl] at hp'
    have hstructs := (hslots pkg p hp).structs.declare name reg.nextType
    have htypes := (hslots pkg p hp).types.declare name reg.nextType
    have hlisted : ∀ d : DeclList, (d.declare name reg.nextType).get? name = some reg.nextType :=
      fun d => DeclList.get?_declare_self d name _
    exact ⟨_, hp', hlisted _, hstructs.mem_ids_iff.mpr ⟨name, hlisted _⟩, hlisted _,
      htypes.mem_ids_iff.mpr ⟨name, hlisted _⟩⟩

theorem StructDeclared.extended (h : StructDeclared pkg name type ty reg) (hr : reg.Sound)
    {owner : PackageId} {free : TypeId → Prop} (he : Extends owner free reg reg')
    {stored : List StructField} (hadded : reg.FieldsAdded reg' ty stored) :
    StructDeclared pkg name { type with fields := type.fields ++ stored } ty reg' where
  bound := by
    obtain ⟨r, href, hresolved, hty⟩ := h.bound
    obtain ⟨root, k, ds, hpath⟩ := TypeGraph.reachable_grounded hr.graph r (hr.refs _ _ _ href)
    obtain ⟨e, hentry⟩ := hpath.root_named
    have hpath' := hpath.kept he.keepsEdges
    have hroot : reg'.graph.namedRoot r = reg.graph.namedRoot r :=
      hpath'.namedRoot_eq.trans hpath.namedRoot_eq.symm
    refine ⟨r, he.refs _ _ _ href, ?_, ?_⟩
    · rw [TypeGraph.resolved?, hpath.named?_eq hentry] at hresolved
      rwa [TypeGraph.resolved?, hpath'.named?_eq (he.entries _ _ hentry)]
    · rw [hroot]
      exact hadded _ _ hty rfl
  listed := by
    obtain ⟨p, hp, hlisted⟩ := h.listed
    obtain ⟨refs, hp'⟩ := he.packages pkg p hp
    exact ⟨_, hp', hlisted⟩

theorem structDeclared_after_fields (hr : reg.Sound) (hslots : reg.Slotted) {inner : FileScope}
    (hs : inner.Sound reg) (name : String) (doc : Doc) {fields before rest : List Field}
    {stored : List StructField} {start mid : Registry}
    (hstart : start = (reg.declare inner.package name (.struct { doc })).2)
    (hturn : InTurn (FieldRead inner reg.nextType) before stored start mid)
    (hend : FieldsEnd inner mid rest (resolveFields inner reg.nextType fields start)) :
    StructDeclared inner.package name { doc, fields := stored } reg.nextType
      (stateAfter (resolveFields inner reg.nextType fields) start) := by
  subst hstart
  have hsound := Registry.declare_sound hr inner.package name (.struct { doc })
  have htype := Registry.declare_typeAt? reg inner.package name (.struct { doc })
  have hread := resolveFields_reads hsound (hs.declare inner.package name (.struct { doc }))
    (TypeGraph.hasType_of_typeAt? htype) fields
  have hextends := hread.stateAfter (fun _ _ hdone => hdone.1) fun _ hfailed => hfailed
  have hadded := hturn.fieldsAdded.trans hend.fieldsAdded
  rw [List.append_nil] at hadded
  have hdeclared := declare_structDeclared hr hslots hs.package name { doc }
  exact hdeclared.extended hsound hextends hadded

/-- Once the scope of a struct declaration is opened and the type is declared, all that happens is
that the fields are read. -/
theorem declareTypeSpec_eq_resolveFields {scope inner : FileScope} {opened : Registry}
    (groupDoc : Option Doc) {spec : TypeSpec} {fields : List Field} (ha : spec.isAlias = false)
    (ht : spec.type = .struct fields) (hpkg : inner.package = scope.package)
    (hopen : scope.withTypeParams (Source.declaredNames spec.typeParams) reg = .ok inner opened) :
    declareTypeSpec scope groupDoc spec reg = resolveFields inner opened.nextType fields
      (opened.declare scope.package spec.name
        (.struct { doc := (spec.doc.or groupDoc).getD [] })).2 := by
  rw [declareTypeSpec_eq_filled groupDoc ha hpkg hopen, ht]
  rfl

/-- Every declaration of a struct type runs through its fields, whatever comes of it. -/
theorem declareTypeSpec_structRun (h : reg.Reachable) {scope : FileScope} (hs : scope.Sound reg)
    (groupDoc : Option Doc) {spec : TypeSpec} {fields : List Field} (ha : spec.isAlias = false)
    (ht : spec.type = .struct fields) : ∃ inner opened before rest stored,
      StructRun scope groupDoc spec inner opened before rest stored reg := by
  have hr := Registry.reachable_sound h
  have hopens := withTypeParams_total hr hs (Source.declaredNames spec.typeParams)
  cases hopen : scope.withTypeParams (Source.declaredNames spec.typeParams) reg with
  | error e reg' => exact (hopens.of_error hopen).elim
  | ok inner opened =>
    obtain ⟨hextends, hinner, params, hscope, -, -⟩ := hopens.of_ok hopen
    have hpkg : inner.package = scope.package := by rw [hscope]
    have hrun := declareTypeSpec_eq_resolveFields groupDoc ha ht hpkg hopen
    obtain ⟨before, rest, stored, mid, hsplit, hturn, hend⟩ :=
      resolveFields_end inner opened.nextType fields
        (opened.declare scope.package spec.name
          (.struct { doc := (spec.doc.or groupDoc).getD [] })).2
    refine ⟨inner, opened, before, rest, stored, ?_, hopen, ?_, ⟨mid, hturn, ?_⟩, ?_, ?_⟩
    · rw [ht, hsplit]
    · exact fun hn => Nat.lt_irrefl _ (Nat.lt_of_lt_of_le hn hextends.typeCount)
    · rwa [hrun]
    · exact hturn.length_eq fun _ _ _ _ => FieldRead.length_eq
    · have hslots := (Registry.reachable_slotted h).of_extends hextends
      have hdeclared := structDeclared_after_fields (hextends.sound hr) hslots hinner spec.name
        ((spec.doc.or groupDoc).getD []) (by rw [hpkg]) hturn hend
      rw [hpkg] at hdeclared
      simpa only [stateAfter, hrun] using hdeclared

/-- The reference of a struct type that is written in place, and the registry before its fields come
in. -/
def openedStruct (scope : FileScope) (reg : Registry) : RefId × Registry :=
  opened reg scope.package
    { name := anonymousStructName, package := some scope.package, kind := .struct {} }
    anonymousStructName

def StructInPlace (scope : FileScope) (fields : List Field) (reg : Registry) (r : RefId)
    (reg' : Registry) : Prop :=
  ∃ stored, InTurn (FieldRead scope reg.nextType) fields stored (openedStruct scope reg).2 reg' ∧
    stored.length = (fields.map fun field => max 1 field.names.length).sum ∧
    reg'.graph.resolved? r = some reg.nextType ∧
    reg'.graph.typeAt? reg.nextType = some
      { name := anonymousStructName, package := some scope.package
        kind := .struct { fields := stored } }

theorem resolveType_structInPlace {scope : FileScope} {fields : List Field} {r : RefId}
    (h : resolveType scope (.struct fields) reg = .ok r reg') :
    StructInPlace scope fields reg r reg' := by
  have hrun : resolveType scope (.struct fields) reg =
      (resolveFields scope reg.nextType fields >>= fun _ => pure (openedStruct scope reg).1)
        (openedStruct scope reg).2 := rfl
  rw [hrun] at h
  obtain ⟨_, _, hfields, h⟩ := bind_ok h
  cases h
  obtain ⟨before, rest, stored, mid, hsplit, hturn, hend⟩ :=
    resolveFields_end scope reg.nextType fields (openedStruct scope reg).2
  rw [hfields] at hend
  cases hend
  rw [List.append_nil] at hsplit
  subst hsplit
  refine ⟨stored, hturn, hturn.length_eq fun _ _ _ _ => FieldRead.length_eq, ?_, ?_⟩
  · have hentry : (openedStruct scope reg).2.graph.entryAt? (openedStruct scope reg).1 = _ :=
      TypeGraph.entryAt?_addRef_self _ _
    exact TypeGraph.resolved?_of_named (TypeGraph.entryAt?_of_prefix hturn.refs_prefix hentry)
  · exact hturn.fieldsAdded _ _ (TypeGraph.typeAt?_addType_self reg.graph _) rfl

end Structs

/-- Struct fields, parameters and results are translated completely and in the order of their
declarations, and a struct declaration that fails is cut between two of them. -/
theorem declared_members_in_order :
    (∀ reg scope groupDoc spec fields, Registry.Reachable reg → scope.Sound reg →
      spec.isAlias = false → spec.type = .struct fields →
      ∃ inner opened before rest stored,
        StructRun scope groupDoc spec inner opened before rest stored reg) ∧
    (∀ scope fields reg r reg', resolveType scope (.struct fields) reg = .ok r reg' →
      StructInPlace scope fields reg r reg') ∧
    (∀ scope name doc receiver params results reg ty reg',
      resolveMethod scope name doc receiver params results reg = .ok ty reg' →
      SignatureRead scope name doc receiver params results reg ty reg') ∧
    ∀ scope params results reg r reg', resolveType scope (.func params results) reg = .ok r reg' →
      ∃ ty, reg'.graph.resolved? r = some ty ∧
        SignatureRead scope "" [] none params results reg ty reg' :=
  ⟨fun _ _ groupDoc _ _ h hs ha ht => declareTypeSpec_structRun h hs groupDoc ha ht,
    fun _ _ _ _ _ h => resolveType_structInPlace h,
    fun _ _ _ _ _ _ _ _ _ h => resolveMethod_signatureRead h,
    fun _ _ _ _ _ _ h => resolveType_func_signatureRead h⟩

def repeatingScope : FileScope :=
  { Registry.newScope with decodeTag := fun _ => .ok [⟨"k", "1", []⟩, ⟨"k", "2", []⟩] }

def frontFields : List Field :=
  [⟨["A", "B"], fun _ => .named "int" [], some "\"k\"", none⟩,
    ⟨[], fun _ => .pointer fun _ => .named "T" [], none, none⟩]

/-- The third of its four declarations has no type. -/
def brokenStruct : TypeSpec where
  doc := none
  name := "S"
  typeParams := []
  isAlias := false
  type := .struct (frontFields ++ [⟨["C"], fun _ => .bad, none, none⟩,
    ⟨["D"], fun _ => .named "int" [], none, none⟩])

def brokenRegistry : Registry :=
  stateAfter (declareTypeSpec repeatingScope none brokenStruct) Registry.newPackage

/-- The struct is left with the three fields in front of the declaration that fails, and the same
declarations are read in place, as parameters and as results. -/
theorem brokenStruct_keeps_front :
    (∃ inner opened before rest stored, StructRun repeatingScope none brokenStruct inner opened
      before rest stored Registry.newPackage) ∧
    ((brokenRegistry.graph.structType? Registry.newPackage.nextType).map fun type =>
      type.fields.map fun f => (f.name, f.tag.params.map (·.value))) =
      some [("A", ["1"]), ("B", ["1"]), ("T", [])] ∧
    (∃ r reg', StructInPlace repeatingScope frontFields Registry.newPackage r reg') ∧
    (∃ ty reg', SignatureRead repeatingScope "F" [] none frontFields frontFields
      Registry.newPackage ty reg') ∧
    ∃ r reg', ∃ ty, reg'.graph.resolved? r = some ty ∧
      SignatureRead repeatingScope "" [] none frontFields [] Registry.newPackage ty reg' := by
  obtain ⟨hstructs, hinPlace, hmethods, hfuncs⟩ := declared_members_in_order
  obtain ⟨-, hp⟩ := Registry.newPackage_course
  have hreach : Registry.Reachable Registry.newPackage :=
    Registry.Reachable.new.next (.append ⟨"p", "p", "", []⟩) trivial
  have hsound : repeatingScope.Sound Registry.newPackage := ⟨hp, nofun, nofun⟩
  have hplace : resolveType repeatingScope (.struct frontFields) Registry.newPackage =
      .ok ⟨22⟩ _ := eq_ok_stateAfter (by decide +kernel)
  have hmethod : resolveMethod repeatingScope "F" [] none frontFields frontFields
      Registry.newPackage = .ok ⟨23⟩ _ := eq_ok_stateAfter (by decide +kernel)
  have hfunc : resolveType repeatingScope (.func frontFields []) Registry.newPackage =
      .ok ⟨24⟩ _ := eq_ok_stateAfter (by decide +kernel)
  exact ⟨hstructs _ _ none brokenStruct _ hreach hsound rfl rfl, by decide +kernel,
    ⟨_, _, hinPlace _ _ _ _ _ hplace⟩, ⟨_, _, hmethods _ _ _ _ _ _ _ _ _ hmethod⟩,
    ⟨_, _, hfuncs _ _ _ _ _ _ hfunc⟩⟩

end GoPackages
