import GoPackages.Proofs.Analysis.Members
import GoPackages.Proofs.Registry.Declare

/-!
# What a type declaration leaves behind

Reading comes before and after; in between the name is bound to a new type, or the name
stands for another reference from then on. A declaration of a defined type that fails has
bound its name all the same.
-/
namespace GoPackages

open Source (TypeExpr TypeSpec)
open Registry (Extends)

def KindDenotes (g : TypeGraph) (m : Meaning) : TypeExpr → TypeKind → Prop
  | .struct fields, kind => ∃ t, kind = .struct t ∧ FieldsDenote g 0 m fields t.fields
  | .interface elems, kind => ∃ t methods, kind = .interface t ∧
      t.methods = ({} : MethodSet).insertAll methods ∧ ElemsDenote g 0 m elems methods
  | _, kind => kind = .base

/-- The registries around the binding of the name of a defined type. -/
structure Defines (scope : FileScope) (name : String) (kind : TypeKind)
    (reg mid reg' : Registry) : Prop where
  before : Extends scope.package reg.Unmade reg mid
  after : Extends scope.package
    (fun t => t = mid.nextType ∨ (mid.declare scope.package name kind).2.Unmade t)
    (mid.declare scope.package name kind).2 reg'

section

variable {scope : FileScope} {reg : Registry}

theorem newTypeParams_total (scope : FileScope) (reg : Registry) (names : List String) :
    After (scope.newTypeParams names) reg (fun _ _ => True) fun _ => False := by
  induction names generalizing reg with
  | nil => trivial
  | cons name names ih =>
    let data : TypeData := { name, package := some scope.package, kind := .base }
    let r := (opened reg scope.package data name).1
    show After (scope.newTypeParams names >>= fun params => pure ((name, r) :: params))
      (opened reg scope.package data name).2 _ _
    exact After.bind (ih _) (fun _ _ _ => trivial) fun _ h => h

theorem withTypeParams_total (hr : reg.Sound) (hs : scope.Sound reg) (names : List String) :
    After (scope.withTypeParams names) reg (fun inner mid =>
      Extends scope.package reg.Unmade reg mid ∧ inner.Sound mid ∧
        ∃ params, inner = { scope with typeParams := params } ∧
          params.map Prod.fst = names ∧ TypeParamsMade mid params) fun _ => False := by
  have htotal : After (scope.withTypeParams names) reg (fun _ _ => True) fun _ => False :=
    After.bind (newTypeParams_total scope reg names) (fun _ _ _ => trivial) fun _ h => h
  exact (After.and (withTypeParams_reads hr hs names) htotal).mono (fun _ _ h => h.1)
    fun _ h => h.2

def fill (scope : FileScope) (ty : TypeId) : TypeExpr → Analysis Unit
  | .struct fields => resolveFields scope ty fields
  | .interface elems => declareElems scope ty elems
  | _ => pure ()

/-- The kind of a defined type before its fields or methods are known. -/
def kindOf (doc : Doc) : TypeExpr → TypeKind
  | .struct _ => .struct { doc }
  | .interface _ => .interface { doc }
  | _ => .base

theorem fill_reads (hr : reg.Sound) (hs : scope.Sound reg) {ty : TypeId} {data : TypeData}
    (hd : reg.graph.typeAt? ty = some data) {doc : Doc} {type : TypeExpr}
    (hk : data.kind = kindOf doc type) :
    Reads scope (fun t => t = ty ∨ reg.Unmade t) reg (fill scope ty type) fun _ reg' =>
      ∃ kind, reg'.graph.typeAt? ty = some { data with kind } ∧
        KindDenotes reg'.graph (scope.meaning reg') type kind := by
  have ht := TypeGraph.hasType_of_typeAt? hd
  obtain ⟨name, package, kind, owner⟩ := data
  obtain rfl : kind = kindOf doc type := hk
  cases type with
  | struct fields =>
    refine (resolveFields_reads hr hs ht fields).mono ?_
    rintro _ reg' _ ⟨stored, hadded, hf⟩
    refine ⟨_, hadded _ _ hd rfl, _, rfl, ?_⟩
    exact hf.mono (.refl _ _) (Nat.zero_le _) (.refl _)
  | interface elems =>
    refine (declareElems_reads hr hs ht elems).mono ?_
    rintro _ reg' _ ⟨methods, hadded, he⟩
    refine ⟨_, hadded _ _ hd rfl, _, methods, rfl, rfl, ?_⟩
    exact he.mono (.refl _ _) (Nat.zero_le _) (.refl _)
  | _ => exact reads_pure ⟨.base, hd, rfl⟩

theorem declareTypeSpec_eq_fill (scope : FileScope) (groupDoc : Option Doc) {spec : TypeSpec}
    (ha : spec.isAlias = false) : declareTypeSpec scope groupDoc spec = (do
      let scope ← scope.withTypeParams (Source.declaredNames spec.typeParams)
      let ty ← declareKind scope spec.name (kindOf ((spec.doc.or groupDoc).getD []) spec.type)
      fill scope ty spec.type) := by
  unfold declareTypeSpec
  rw [ha]
  refine bind_congr fun inner => ?_
  cases spec.type <;> rfl

/-- Once the scope of a defined type is open, its name is bound and its parts are read. -/
theorem declareTypeSpec_eq_filled (groupDoc : Option Doc) {spec : TypeSpec}
    (ha : spec.isAlias = false) {inner : FileScope} {mid : Registry}
    (hpkg : inner.package = scope.package)
    (hopen : scope.withTypeParams (Source.declaredNames spec.typeParams) reg = .ok inner mid) :
    declareTypeSpec scope groupDoc spec reg = fill inner mid.nextType spec.type
      (mid.declare scope.package spec.name
        (kindOf ((spec.doc.or groupDoc).getD []) spec.type)).2 := by
  rw [declareTypeSpec_eq_fill scope groupDoc ha, bind_eq_of_ok hopen, ← hpkg]
  rfl

theorem declareTypeSpec_eq_error (groupDoc : Option Doc) {spec : TypeSpec}
    (ha : spec.isAlias = true) {inner : FileScope} {mid reg' : Registry} {e : Error}
    (hopen : scope.withTypeParams (Source.declaredNames spec.typeParams) reg = .ok inner mid)
    (hread : resolveType inner spec.type mid = .error e reg') :
    declareTypeSpec scope groupDoc spec reg = .error e reg' := by
  unfold declareTypeSpec
  rw [ha]
  exact (bind_eq_of_ok hopen).trans (bind_eq_of_error hread)

theorem FileScope.Sound.declare (hs : scope.Sound reg) (pkg : PackageId) (name : String)
    (kind : TypeKind) : scope.Sound (reg.declare pkg name kind).2 where
  package := by
    obtain ⟨p, hp⟩ := hs.package
    obtain ⟨refs, h⟩ := Registry.declare_package? hp pkg name kind
    exact ⟨_, h⟩
  aliases qualifier q hq := by
    obtain ⟨p, hp⟩ := hs.aliases qualifier q hq
    obtain ⟨refs, h⟩ := Registry.declare_package? hp pkg name kind
    exact ⟨_, h⟩
  typeParams n r hr := Registry.declare_hasRef (hs.typeParams n r hr) pkg name kind

def Filled (scope : FileScope) (spec : TypeSpec) (kind : TypeKind) (mid reg' : Registry) : Prop :=
  ∃ data params kind',
    (mid.declare scope.package spec.name kind).2.graph.typeAt? mid.nextType = some data ∧
    reg'.graph.typeAt? mid.nextType = some { data with kind := kind' } ∧
    params.map Prod.fst = Source.declaredNames spec.typeParams ∧
    KindDenotes reg'.graph (FileScope.meaning { scope with typeParams := params } reg')
      spec.type kind'

theorem declareTypeSpec_defines (hr : reg.Sound) (hs : scope.Sound reg) (groupDoc : Option Doc)
    {spec : TypeSpec} (ha : spec.isAlias = false) :
    let kind := kindOf ((spec.doc.or groupDoc).getD []) spec.type
    After (declareTypeSpec scope groupDoc spec) reg
      (fun _ reg' => ∃ mid, Defines scope spec.name kind reg mid reg' ∧
        Filled scope spec kind mid reg')
      (fun reg' => ∃ mid, Defines scope spec.name kind reg mid reg') := by
  intro kind
  rw [declareTypeSpec_eq_fill scope groupDoc ha]
  refine After.bind (withTypeParams_total hr hs _) ?_ fun _ h => h.elim
  rintro inner mid ⟨he, hsi, params, rfl, hnames, _⟩
  have hd := Registry.declare_typeAt? mid scope.package spec.name kind
  have hnext := Registry.declare_sound (he.sound hr) scope.package spec.name kind
  refine After.mono (m := fill { scope with typeParams := params } mid.nextType spec.type)
    (fill_reads hnext (hsi.declare scope.package spec.name kind) hd rfl) ?_ ?_
  · rintro _ reg' ⟨hafter, kind', hty, hk⟩
    exact ⟨mid, ⟨he, hafter⟩, _, params, kind', hd, hty, hnames, hk⟩
  · intro reg' hafter
    exact ⟨mid, he, hafter⟩

/-- The name stands for `target` in the end. An entry that the package had for it leads to
the target, unless both were of one name. -/
def Renames (scope : FileScope) (name : String) (mid reg' : Registry) : Prop :=
  ∃ target, mid.graph.HasRef target ∧
    match mid.ref? scope.package name with
    | none => reg' = mid.register scope.package name target
    | some existing => ∃ graph, mid.graph.aliasTo? existing target = some graph ∧
        reg' = { mid with graph }.register scope.package name target

theorem declareTypeSpec_renames (hr : reg.Sound) (hs : scope.Sound reg)
    (groupDoc : Option Doc) {spec : TypeSpec} (ha : spec.isAlias = true) :
    After (declareTypeSpec scope groupDoc spec) reg
      (fun _ reg' => ∃ mid, Extends scope.package reg.Unmade reg mid ∧
        Renames scope spec.name mid reg')
      (Extends scope.package reg.Unmade reg) := by
  unfold declareTypeSpec
  simp only [ha, if_true]
  refine After.bind (withTypeParams_total hr hs _) ?_ fun _ h => h.elim
  rintro inner mid ⟨he, hsi, params, rfl, _, _⟩
  unfold declareAlias
  refine After.bind (resolveType_reads (he.sound hr) hsi spec.type) ?_
    fun _ h => he.trans (h.weaken fun _ hn ht => hn (he.hasType ht))
  rintro target mid' ⟨he', htarget, _⟩
  have hx := he.then_new he' fun _ h => h
  simp only [after_bind, after_get]
  split
  next hn => exact ⟨mid', hx, target, htarget, by rw [hn]⟩
  next existing hex =>
    split
    next => exact hx
    next graph hg => exact ⟨mid', hx, target, htarget, by rw [hex]; exact ⟨graph, hg, rfl⟩⟩

end

end GoPackages
