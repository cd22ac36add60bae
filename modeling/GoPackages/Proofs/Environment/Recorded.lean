import GoPackages.Proofs.Analysis.Written
import GoPackages.Proofs.Environment.Items
import GoPackages.Proofs.Registry.Later

/-!
# What files are recorded as

The items of a file beside what the registry holds of them: an entry in a list of the package
for each name, and for each type that was written a reference that it denotes. What names
stand for is a parameter, as is the answer of the locator.
-/
namespace GoPackages

open Source (ImportName ImportSpec TypeSpec ValueSpec FuncDecl TypeExpr GroupKind SourceFile)
open Registry (Later)

/-- What one name of a file puts into its package. -/
inductive Listed where
  | type (spec : TypeSpec) (ty : TypeId)
  | value (kind : GroupKind) (v : Variable)
  | function (name : String) (ty : TypeId)
  | method (owner : Option String) (name : String) (ty : TypeId)

/-- Methods are found through their receiver, no list of the package has them. -/
def Listed.record (p : Package) : Listed → Package
  | .type spec ty => p.declareKind spec.name ty (kindOf [] spec.type)
  | .value kind v => if kind = .consts then p.declareConstant v else p.declareVariable v
  | .function name ty => p.declareFunction name ty
  | .method _ _ _ => p

def Listed.methodOf? (n : String) : Listed → Option (String × TypeId)
  | .method (some owner) name ty => if owner = n then some (name, ty) else none
  | .type _ _ | .value _ _ | .function _ _ | .method none _ _ => none

def methodsNamed (log : List Listed) (n : String) : List (String × TypeId) :=
  log.filterMap (Listed.methodOf? n)

@[simp] theorem methodsNamed_append (log log' : List Listed) (n : String) :
    methodsNamed (log ++ log') n = methodsNamed log n ++ methodsNamed log' n :=
  List.filterMap_append

/-- The lists of a package, without its place in the tree and its table of references. -/
def Package.contents (p : Package) : Package :=
  { p with refs := {}, doc := [], parent := none, subpackages := [], explored := false }

@[simp] theorem contents_record (p : Package) (l : Listed) :
    (l.record p).contents = l.record p.contents := by
  cases l with
  | type spec ty => cases spec with | mk doc name typeParams type isAlias => cases type <;> rfl
  | value kind v => by_cases h : kind = .consts <;> simp [Listed.record, h] <;> rfl
  | function | method => rfl

theorem contents_of_unlinked {p p' : Package}
    (h : Registry.unlinked p' = Registry.unlinked p) : p'.contents = p.contents := by
  have hcontents := congrArg Package.contents h
  exact hcontents

theorem types_of_unlinked {p p' : Package} (h : Registry.unlinked p' = Registry.unlinked p) :
    p'.types = p.types := by
  have htypes := congrArg Package.types h
  exact htypes

/-- The name of the package that a receiver type stands for. The parameters that its scope has
are no names of the package; a qualifier may be that of the package itself. -/
def ownerName (pkg : PackageId) (aliases : OrderedMap PackageId) (params : List String)
    (type : TypeExpr) : Option String :=
  match writtenName? type with
  | some (none, name) => if name ∈ params then none else some name
  | some (some (.ident qualifier), name) =>
    if aliases.get? qualifier = some pkg then some name else none
  | _ => none

theorem ownerName_unwritten {pkg : PackageId} {aliases : OrderedMap PackageId}
    {params : List String} {type : TypeExpr} (h : writtenName? type = none) :
    ownerName pkg aliases params type = none := by
  unfold ownerName
  rw [h]

theorem ownerName_bare {pkg : PackageId} {aliases : OrderedMap PackageId} {params : List String}
    {type : TypeExpr} {name : String} (h : writtenName? type = some (none, name)) :
    ownerName pkg aliases params type = if name ∈ params then none else some name := by
  unfold ownerName
  rw [h]

theorem ownerName_qualified {pkg : PackageId} {aliases : OrderedMap PackageId}
    {params : List String} {type : TypeExpr} {qualifier name : String}
    (h : writtenName? type = some (some (.ident qualifier), name)) :
    ownerName pkg aliases params type =
      if aliases.get? qualifier = some pkg then some name else none := by
  unfold ownerName
  rw [h]

def listedFunc (pkg : PackageId) (aliases : OrderedMap PackageId) (decl : FuncDecl)
    (ty : TypeId) : Listed :=
  match decl.receiver with
  | none => .function decl.name ty
  | some field =>
    .method (ownerName pkg aliases (typeParamNames decl) (field.type ())) decl.name ty

/-- The qualifiers after an import of the package `q` of the name `packageName`. -/
def qualifiersAfter (aliases : OrderedMap PackageId) (q : PackageId) (packageName : String) :
    Option ImportName → OrderedMap PackageId
  | none => aliases.insert packageName q
  | some (.named name) => aliases.insert name q
  | some .dot | some .blank => aliases

def Imported (locate : String → Except Error PackageInfo) (reg : Registry) (spec : ImportSpec)
    (aliases aliases' : OrderedMap PackageId) : Prop :=
  ∃ info q p, locate (Source.literalValue spec.path) = .ok info ∧
    reg.byPath? info.importPath = some q ∧ reg.package? q = some p ∧
    aliases' = qualifiersAfter aliases q p.name spec.name

def FuncDenotes (g : TypeGraph) (m : Meaning) (decl : FuncDecl) (ty : TypeId) : Prop :=
  ∃ t, ReceiverDenotes g 0 m decl.receiver t.receiver ∧
    SignatureDenotes g 0 m t.receiver decl.params decl.results ty t

/-- The items of a file, from a place on where `aliases` are its qualifiers, and what they are
recorded as. A declaration with type parameters has them in scope. -/
inductive Recorded (locate : String → Except Error PackageInfo) (reg : Registry)
    (pkg : PackageId) (m : List String → Meaning) :
    OrderedMap PackageId → List Item → List Listed → Prop where
  | nil (aliases : OrderedMap PackageId) : Recorded locate reg pkg m aliases [] []
  | importSpec {aliases aliases' spec rest log} : Imported locate reg spec aliases aliases' →
      Recorded locate reg pkg m aliases' rest log →
      Recorded locate reg pkg m aliases (.importSpec spec :: rest) log
  | typeSpec {aliases doc spec ty kind rest log} : reg.graph.kind? ty = some kind →
      KindDenotes reg.graph (m (Source.declaredNames spec.typeParams)) spec.type kind →
      Recorded locate reg pkg m aliases rest log →
      Recorded locate reg pkg m aliases (.typeSpec doc spec :: rest) (.type spec ty :: log)
  | valueSpec {aliases kind doc spec source vs rest log} :
      List.Forall₂ (PlaceDenotes reg.graph (m [])) (placesFrom source 0 spec.names) vs →
      Recorded locate reg pkg m aliases rest log →
      Recorded locate reg pkg m aliases (.valueSpec kind doc spec source :: rest)
        (vs.map (.value kind) ++ log)
  | func {aliases decl ty rest log} : FuncDenotes reg.graph (m (typeParamNames decl)) decl ty →
      Recorded locate reg pkg m aliases rest log →
      Recorded locate reg pkg m aliases (.func decl :: rest) (listedFunc pkg aliases decl ty :: log)

inductive FilesRecorded (locate : String → Except Error PackageInfo) (reg : Registry)
    (pkg : PackageId) (m : List String → Meaning) : List SourceFile → List Listed → Prop where
  | nil : FilesRecorded locate reg pkg m [] []
  | cons {file rest log log'} : Recorded locate reg pkg m {} (items file) log →
      FilesRecorded locate reg pkg m rest log' →
      FilesRecorded locate reg pkg m (file :: rest) (log ++ log')

section

variable {locate : String → Except Error PackageInfo} {reg reg' : Registry} {pkg : PackageId}
  {m m' : List String → Meaning}

theorem Imported.later {spec : ImportSpec} {aliases aliases' : OrderedMap PackageId}
    (h : Imported locate reg spec aliases aliases') (hl : Later reg reg') :
    Imported locate reg' spec aliases aliases' := by
  obtain ⟨info, q, p, hlocate, hq, hp, ha⟩ := h
  obtain ⟨p', hp', hname, -⟩ := hl.packages q p hp
  refine ⟨info, q, p', hlocate, hl.byPath? hq, hp', ?_⟩
  rw [hname]
  exact ha

theorem KindDenotes.mono {g g' : TypeGraph} {m m' : Meaning} (hk : TypeGraph.Keeps 0 g g')
    (hm : m.Refines m') {type : TypeExpr} {kind : TypeKind} (h : KindDenotes g m type kind) :
    KindDenotes g' m' type kind := by
  cases type with
  | struct fields =>
    obtain ⟨t, rfl, hf⟩ := h
    exact ⟨t, rfl, hf.mono hk le_rfl hm⟩
  | interface elems =>
    obtain ⟨t, methods, rfl, hmethods, he⟩ := h
    exact ⟨t, methods, rfl, hmethods, he.mono hk le_rfl hm⟩
  | _ => exact h

theorem FuncDenotes.mono {g g' : TypeGraph} {m m' : Meaning} (hk : TypeGraph.Keeps 0 g g')
    (hm : m.Refines m') {decl : FuncDecl} {ty : TypeId} (h : FuncDenotes g m decl ty) :
    FuncDenotes g' m' decl ty := by
  obtain ⟨t, hreceiver, hsig⟩ := h
  exact ⟨t, hreceiver.mono hk le_rfl hm, hsig.mono hk le_rfl hm⟩

/-- Records stay valid as the registry goes on and names stand for more. -/
theorem Recorded.mono {aliases : OrderedMap PackageId} {items : List Item} {log : List Listed}
    (h : Recorded locate reg pkg m aliases items log) (hl : Later reg reg')
    (hm : ∀ params, (m params).Refines (m' params)) :
    Recorded locate reg' pkg m' aliases items log := by
  induction h with
  | nil aliases => exact .nil aliases
  | importSpec hi _ ih => exact .importSpec (hi.later hl) ih
  | typeSpec hkind hd _ ih =>
    exact .typeSpec (hl.keeps.kinds _ _ (Nat.zero_le _) hkind) (hd.mono hl.keeps (hm _)) ih
  | valueSpec hv _ ih =>
    refine .valueSpec (hv.imp fun place v hp => ?_) ih
    exact hp.mono hl.keeps (hm [])
  | func hf _ ih => exact .func (hf.mono hl.keeps (hm _)) ih

theorem FilesRecorded.mono {files : List SourceFile} {log : List Listed}
    (h : FilesRecorded locate reg pkg m files log) (hl : Later reg reg')
    (hm : ∀ params, (m params).Refines (m' params)) :
    FilesRecorded locate reg' pkg m' files log := by
  induction h with
  | nil => exact .nil
  | cons hf _ ih => exact .cons (hf.mono hl hm) ih

end

end GoPackages
