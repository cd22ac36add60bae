import GoPackages.Proofs.Analysis.Extends
import GoPackages.Proofs.Registry.Actions

/-!
# Reading types is conservative

Reading a type or an initializer adds references and types behind those that are there, and changes
none of them, also where it fails. Of the packages it changes their tables only: names come in that
the file's package or an imported one lacked, each with a placeholder of its own.
-/
namespace GoPackages

open Source (TypeExpr Field Expr)

def Package.besidesRefs (p : Package) : Package := { p with refs := {} }

/-- The name is new in the table of a package in reach, and stands for a new entry of which
nothing is known. -/
structure NewEntry (scope : FileScope) (base reg : Registry) (q : PackageId) (n : String)
    (r : RefId) : Prop where
  unknown : base.ref? q n = none
  inReach : q = scope.package ∨ ∃ qualifier, scope.aliases.get? qualifier = some q
  new : ¬base.graph.HasRef r
  placeholder : reg.graph.entryAt? r = some (.named { name := n, package := some q })

/-- Everything is there that was there, unchanged and in its place, and in the tables there are new
placeholders only. -/
structure Conserves (scope : FileScope) (base reg : Registry) : Prop where
  refs : base.graph.refs.toList <+: reg.graph.refs.toList
  types : base.graph.types.toList <+: reg.graph.types.toList
  packages : ∀ q, (reg.package? q).map Package.besidesRefs =
    (base.package? q).map Package.besidesRefs
  kept : ∀ q n r, base.ref? q n = some r → reg.ref? q n = some r
  gained : ∀ q n r, reg.ref? q n = some r →
    base.ref? q n = some r ∨ NewEntry scope base reg q n r

/-- A step that conserves what there was at the start, also when it fails. -/
def Conserving {α : Type} (scope : FileScope) (base : Registry) (m : Analysis α) : Prop :=
  ∀ reg, Conserves scope base reg →
    After m reg (fun _ reg' => Conserves scope base reg') (Conserves scope base)

theorem getElem?_of_prefix {α : Type} {xs ys : Array α} (h : xs.toList <+: ys.toList) {i : Nat}
    {x : α} (hx : xs[i]? = some x) : ys[i]? = some x := by
  rw [← Array.getElem?_toList] at hx ⊢
  obtain ⟨hi, rfl⟩ := List.getElem?_eq_some_iff.mp hx
  exact List.prefix_iff_getElem?.mp h i hi

theorem TypeGraph.entryAt?_of_prefix {g g' : TypeGraph} (h : g.refs.toList <+: g'.refs.toList)
    {r : RefId} {e : RefEntry} (he : g.entryAt? r = some e) : g'.entryAt? r = some e :=
  getElem?_of_prefix h he

theorem TypeGraph.typeAt?_of_prefix {g g' : TypeGraph} (h : g.types.toList <+: g'.types.toList)
    {ty : TypeId} {data : TypeData} (hd : g.typeAt? ty = some data) :
    g'.typeAt? ty = some data :=
  getElem?_of_prefix h hd

namespace Conserves

variable {scope : FileScope} {base reg : Registry}

theorem refl (scope : FileScope) (reg : Registry) : Conserves scope reg reg :=
  ⟨List.prefix_rfl, List.prefix_rfl, fun _ => rfl, fun _ _ _ h => h, fun _ _ _ h => .inl h⟩

theorem refCount_le (h : Conserves scope base reg) : base.graph.refCount ≤ reg.graph.refCount :=
  h.refs.length_le

theorem typeCount_le (h : Conserves scope base reg) :
    base.graph.typeCount ≤ reg.graph.typeCount :=
  h.types.length_le

theorem withGraph (h : Conserves scope base reg) {g : TypeGraph}
    (hr : reg.graph.refs.toList <+: g.refs.toList)
    (ht : base.graph.types.toList <+: g.types.toList) :
    Conserves scope base { reg with graph := g } where
  refs := h.refs.trans hr
  types := ht
  packages := h.packages
  kept := h.kept
  gained q n r hn := (h.gained q n r hn).imp_right fun hp =>
    { hp with placeholder := TypeGraph.entryAt?_of_prefix hr hp.placeholder }

theorem addRef (h : Conserves scope base reg) (e : RefEntry) :
    Conserves scope base { reg with graph := (reg.graph.addRef e).2 } := by
  refine h.withGraph ?_ h.types
  simp [TypeGraph.addRef]

theorem addType (h : Conserves scope base reg) (data : TypeData) :
    Conserves scope base { reg with graph := (reg.graph.addType data).2 } := by
  refine h.withGraph List.prefix_rfl (h.types.trans ?_)
  simp [TypeGraph.addType]

theorem modifyType (h : Conserves scope base reg) {ty : TypeId}
    (ht : base.graph.typeCount ≤ ty.index) (f : TypeData → TypeData) :
    Conserves scope base { reg with graph := reg.graph.modifyType ty f } := by
  refine h.withGraph List.prefix_rfl ?_
  rw [List.prefix_iff_getElem?]
  intro i hi
  have hne : ty.index ≠ i := by
    have : i < base.graph.typeCount := by simpa [TypeGraph.typeCount] using hi
    omega
  have hold := List.prefix_iff_getElem?.mp h.types i hi
  rw [Array.getElem?_toList] at hold ⊢
  rw [← hold]
  simp [TypeGraph.modifyType, Array.getElem?_modify, hne]

theorem register (h : Conserves scope base reg) {q : PackageId} {name : String} {r : RefId}
    (hnone : reg.ref? q name = none) (hnew : NewEntry scope base reg q name r) :
    Conserves scope base (reg.register q name r) where
  refs := h.refs
  types := h.types
  packages p :=
    (Registry.map_modifyPackage (f := (·.register name r)) (fun _ => rfl) reg q p).trans
      (h.packages p)
  kept p n s hs := by
    have hold : reg.ref? p n = some s := h.kept p n s hs
    by_cases hp : q = p
    · subst hp
      have hn : name ≠ n := by
        rintro rfl
        rw [hnone] at hold
        cases hold
      rwa [Registry.ref?_register_of_ne hn]
    · rwa [Registry.register, Registry.ref?_modifyPackage_of_ne hp]
  gained p n s hs := by
    rcases Registry.ref?_register_cases hs with ⟨rfl, rfl, rfl⟩ | hold
    · exact .inr { hnew with }
    · exact (h.gained p n s hold).imp_right fun hp => { hp with }

theorem ensureRef (h : Conserves scope base reg) {q : PackageId}
    (hq : q = scope.package ∨ ∃ qualifier, scope.aliases.get? qualifier = some q)
    (name : String) : Conserves scope base (reg.ensureRef q name).2 := by
  cases hr : reg.ref? q name with
  | some r => rwa [Registry.ensureRef_of_some hr]
  | none =>
    have heq : (reg.ensureRef q name).2 =
        Registry.register { reg with graph := (reg.graph.placeholder (some q) name).2 } q name
          (reg.graph.placeholder (some q) name).1 := by
      simp [Registry.ensureRef, hr, Registry.onGraph]
    rw [heq]
    refine (h.addRef (.named { name, package := some q })).register hr ⟨?_, hq, ?_, ?_⟩
    · cases hbase : base.ref? q name with
      | none => rfl
      | some r =>
        rw [h.kept q name r hbase] at hr
        cases hr
    · exact Nat.not_lt.mpr h.refCount_le
    · exact TypeGraph.entryAt?_addRef_self _ _

end Conserves

section Steps

variable {α β : Type} {scope : FileScope} {base : Registry} {m : Analysis α}

theorem Conserving.bind {k : α → Analysis β} (h : Conserving scope base m)
    (hk : ∀ a, Conserving scope base (k a)) : Conserving scope base (m >>= k) :=
  fun reg hreg => After.bind (h reg hreg) (fun a mid hmid => hk a mid hmid) fun _ hfailed => hfailed

theorem conserving_pure (a : α) : Conserving scope base (pure a) := fun _ h => h

theorem conserving_throw (e : Error) : Conserving scope base (throw e : Analysis α) :=
  fun _ h => h

theorem conserving_addRef (f : TypeGraph → RefId × TypeGraph)
    (hf : ∀ g, ∃ e, (f g).2 = (g.addRef e).2) : Conserving scope base (Analysis.ofGraph f) := by
  intro reg h
  obtain ⟨e, he⟩ := hf reg.graph
  show Conserves scope base { reg with graph := (f reg.graph).2 }
  rw [he]
  exact h.addRef e

theorem conserving_decorate (d : Decorator) (inner : RefId) :
    Conserving scope base (Analysis.ofGraph (·.decorate d inner)) :=
  conserving_addRef _ fun _ => ⟨.decorated d inner, rfl⟩

theorem conserving_fresh (package : Option PackageId) (name : String) (ty : TypeId) :
    Conserving scope base (Analysis.ofGraph (·.fresh package name ty)) :=
  conserving_addRef _ fun _ => ⟨.named { name, package, type := some ty }, rfl⟩

theorem conserving_addType (data : TypeData) :
    Conserving scope base (Analysis.ofGraph (·.addType data)) := fun _ h => h.addType data

theorem conserving_mapOf (package : Option PackageId) (key value : RefId) :
    Conserving scope base (Analysis.ofGraph (·.mapOf package key value)) :=
  fun _ h => (h.addType _).addRef _

end Steps

section Types

variable {scope : FileScope} {base : Registry}

theorem resolveName_conserving (scope : FileScope) (base : Registry) (name : String) :
    Conserving scope base (scope.resolveName name) := by
  intro reg h
  unfold FileScope.resolveName
  by_cases hblank : name = "" ∨ name = "_"
  · rw [if_pos hblank]
    exact h
  · rw [if_neg hblank]
    simp only [after_bind, after_get]
    cases scope.known? reg name with
    | some r => exact h
    | none => exact h.ensureRef (.inl rfl) name

theorem resolveQualified_conserving (scope : FileScope) (base : Registry) (e : Expr)
    (name : String) : Conserving scope base (scope.resolveQualified e name) := by
  intro reg h
  unfold FileScope.resolveQualified
  split
  next qualifier =>
    cases ha : scope.aliases.get? qualifier with
    | some q => exact h.ensureRef (.inr ⟨qualifier, ha⟩) name
    | none => exact h
  · exact h

theorem readTag_conserving (scope : FileScope) (base : Registry) (tag : Option String) :
    Conserving scope base (scope.readTag tag) := by
  unfold FileScope.readTag
  cases tag with
  | none => exact conserving_pure _
  | some literal =>
    dsimp only
    split
    · exact conserving_pure _
    · exact conserving_throw _

mutual

theorem resolveType_conserving (type : TypeExpr) :
    Conserving scope base (resolveType scope type) := by
  cases type with
  | named name args => exact resolveName_conserving scope base name
  | selector e name args => exact resolveQualified_conserving scope base (e ()) name
  | pointer elem | array _ elem | slice elem | chan _ elem | ellipsis elem =>
    exact (resolveType_conserving (elem ())).bind fun _ => conserving_decorate _ _
  | map key value =>
    refine (resolveType_conserving (key ())).bind fun _ => ?_
    exact (resolveType_conserving (value ())).bind fun _ => conserving_mapOf _ _ _
  | func params results =>
    refine (resolveArguments_conserving params).bind fun _ => ?_
    refine (resolveArguments_conserving results).bind fun _ => ?_
    exact (conserving_addType _).bind fun _ => conserving_fresh _ _ _
  | interface elems => exact conserving_pure _
  | struct fields =>
    -- The struct that is filled below was not there at the start.
    intro reg h
    have hnew : base.graph.typeCount ≤ reg.graph.typeCount := h.typeCount_le
    have hopened (data : TypeData) : After (Analysis.ofGraph (·.addType data)) reg
        (fun ty mid => ty = ⟨reg.graph.typeCount⟩ ∧ Conserves scope base mid)
        (Conserves scope base) := ⟨rfl, h.addType data⟩
    refine After.bind (hopened _) ?_ fun _ hfailed => hfailed
    rintro _ mid ⟨rfl, hmid⟩
    refine Conserving.bind (conserving_fresh _ _ _) (fun r => ?_) mid hmid
    exact (resolveFields_conserving _ hnew fields).bind fun _ => conserving_pure r
  | paren inner => exact resolveType_conserving (inner ())
  | bad => exact conserving_throw _
termination_by structural type

theorem resolveArguments_conserving (fields : List Field) :
    Conserving scope base (resolveArguments scope fields) := by
  match fields with
  | [] => exact conserving_pure _
  | ⟨names, type, _, _⟩ :: rest =>
    refine (resolveType_conserving (type ())).bind fun _ => ?_
    exact (resolveArguments_conserving rest).bind fun _ => conserving_pure _
termination_by structural fields

theorem resolveFields_conserving (ty : TypeId) (ht : base.graph.typeCount ≤ ty.index)
    (fields : List Field) : Conserving scope base (resolveFields scope ty fields) := by
  match fields with
  | [] => exact conserving_pure _
  | ⟨names, type, tag, doc⟩ :: rest =>
    refine (resolveType_conserving (type ())).bind fun _ => ?_
    refine (readTag_conserving scope base tag).bind fun _ => ?_
    refine Conserving.bind (fun reg h => ?_) fun _ => resolveFields_conserving ty ht rest
    exact h.modifyType ht _
termination_by structural fields

end

theorem inferType_conserving (e : Expr) : Conserving scope base (inferType scope e) := by
  cases e with
  | literal kind text =>
    exact (resolveName_conserving scope base kind.typeName).bind fun _ => conserving_pure _
  | ident name =>
    unfold inferType
    split
    · exact (resolveName_conserving scope base _).bind fun _ => conserving_pure _
    · exact conserving_pure _
  | composite type =>
    cases type with
    | none => exact conserving_pure _
    | some type =>
      exact (resolveType_conserving (type ())).bind fun _ => conserving_pure _
  | unary op operand =>
    unfold inferType
    by_cases haddress : op = .address
    · rw [if_pos haddress]
      refine (inferType_conserving (operand ())).bind fun inferred => ?_
      cases inferred with
      | none => exact conserving_pure _
      | some r => exact (conserving_decorate .pointer r).bind fun _ => conserving_pure _
    · rw [if_neg haddress]
      by_cases hkeeps : op.keepsType = true
      · rw [if_pos hkeeps]
        exact inferType_conserving (operand ())
      · rw [if_neg hkeeps]
        exact conserving_pure _
  | paren inner => exact inferType_conserving (inner ())
  | selector | call | other | bad => exact conserving_pure _
termination_by structural e

theorem Conserving.stateAfter {α : Type} {m : Analysis α} {reg : Registry}
    (h : Conserving scope reg m) : Conserves scope reg (stateAfter m reg) :=
  After.stateAfter (h reg (.refl scope reg)) (fun _ _ hpost => hpost) fun _ hfailed => hfailed

end Types

/-- Reading a type or inferring one from an initializer conserves the registry, in every scope and
with every outcome. -/
theorem reading_is_conservative (scope : FileScope) (reg : Registry) :
    (∀ type, Conserves scope reg (stateAfter (resolveType scope type) reg)) ∧
    ∀ e, Conserves scope reg (stateAfter (inferType scope e) reg) :=
  ⟨fun type => (resolveType_conserving type).stateAfter,
    fun e => (inferType_conserving e).stateAfter⟩

end GoPackages
