import GoPackages.Analysis.Declaration
import GoPackages.Proofs.Analysis.Reads

/-!
# Type expressions are read as what they denote

One statement for each of the functions that read type expressions, by induction on the
expression. A part that was read keeps its denotation while the parts after it are read,
since those fill only types of their own.
-/
namespace GoPackages

open Source (TypeExpr Field Expr InterfaceElem)
open Registry (Extends)

section Steps

variable {scope : FileScope} {free : TypeId → Prop} {reg mid : Registry} {lo : Nat}

theorem Reads.later {α : Type} {m : Analysis α} {good : α → Registry → Prop}
    (he : Extends scope.package reg.Unmade reg mid) (h : Reads scope mid.Unmade mid m good) :
    Reads scope reg.Unmade mid m good :=
  h.weaken fun _ hn ht => hn (he.hasType ht)

theorem Registry.Extends.denotes {pkg : PackageId} (he : Extends pkg reg.Unmade reg mid)
    {type : TypeExpr} {r : RefId} {lo' : Nat} (hl : lo' ≤ lo)
    (h : Denotes reg.graph lo (scope.meaning reg) type r) :
    Denotes mid.graph lo' (scope.meaning mid) type r :=
  h.mono he.keeps_all hl (scope.meaning_refines he.refs)

theorem Registry.Extends.argumentsDenote {pkg : PackageId}
    (he : Extends pkg reg.Unmade reg mid) {fields : List Field} {as : List Argument} {lo' : Nat}
    (hl : lo' ≤ lo) (h : ArgumentsDenote reg.graph lo (scope.meaning reg) fields as) :
    ArgumentsDenote mid.graph lo' (scope.meaning mid) fields as :=
  h.mono he.keeps_all hl (scope.meaning_refines he.refs)

theorem Registry.Extends.keeps_filling {pkg : PackageId} {reg' : Registry} {ty : TypeId}
    (he : Extends pkg free mid reg') (ht : reg.graph.HasType ty)
    (hf : ∀ t, mid.graph.HasType t → free t → t = ty) :
    TypeGraph.Keeps reg.graph.typeCount mid.graph reg'.graph := by
  refine he.keeps fun t hmade hle hfree => ?_
  obtain rfl := hf t hmade hfree
  exact absurd hle (Nat.not_le_of_lt ht)

theorem Reads.filling {α : Type} {m : Analysis α} {good : α → Registry → Prop} {ty : TypeId}
    (hmade : ∀ t, reg.graph.HasType t → mid.graph.HasType t)
    (h : Reads scope (fun t => t = ty ∨ mid.Unmade t) mid m good) :
    Reads scope (fun t => t = ty ∨ reg.Unmade t) mid m good :=
  h.weaken fun t hf => hf.imp_right fun hn ht => hn (hmade t ht)

/-- The change of `addType` and then `fresh`: a type written in place. -/
def opened (reg : Registry) (pkg : PackageId) (data : TypeData) (name : String) :
    RefId × Registry :=
  (reg.onGraph (·.addType data)).2.onGraph (·.fresh (some pkg) name (reg.graph.addType data).1)

theorem hasType_addType (g : TypeGraph) (data : TypeData) :
    (g.addType data).2.HasType (g.addType data).1 :=
  TypeGraph.hasType_of_typeAt? (TypeGraph.typeAt?_addType_self g data)

theorem extends_addType_opened (reg : Registry) (pkg : PackageId) (data : TypeData)
    (name : String) (free : TypeId → Prop) :
    Extends pkg free (reg.onGraph (·.addType data)).2 (opened reg pkg data name).2 :=
  Registry.extends_fresh (reg.onGraph (·.addType data)).2 name (hasType_addType reg.graph data)

theorem extends_opened (reg : Registry) (pkg : PackageId) (data : TypeData) (name : String)
    (free : TypeId → Prop) : Extends pkg free reg (opened reg pkg data name).2 :=
  (Registry.extends_addType reg data).trans (extends_addType_opened reg pkg data name free)

theorem opened_holds (reg : Registry) (pkg : PackageId) (data : TypeData) (name : String) :
    (opened reg pkg data name).2.graph.HasRef (opened reg pkg data name).1 ∧
    (opened reg pkg data name).2.graph.Holds reg.graph.typeCount (opened reg pkg data name).1
      (reg.graph.addType data).1 data.kind := by
  have he := TypeGraph.entryAt?_addRef_self (reg.graph.addType data).2
    (.named { name, package := some pkg, type := some (reg.graph.addType data).1 })
  refine ⟨TypeGraph.hasRef_of_entryAt? he, ⟨_, he, rfl⟩, Nat.le_refl _, ?_⟩
  exact Registry.kind?_of_typeAt? (TypeGraph.typeAt?_addType_self reg.graph data)

theorem TypeGraph.Holds.weaken {g : TypeGraph} {r ty kind} (h : g.Holds lo r ty kind)
    {lo' : Nat} (hl : lo' ≤ lo) : g.Holds lo' r ty kind :=
  h.kept (.refl _ _) hl

theorem hasRef_addRef (g : TypeGraph) (e : RefEntry) : (g.addRef e).2.HasRef (g.addRef e).1 :=
  TypeGraph.hasRef_of_entryAt? (TypeGraph.entryAt?_addRef_self g e)

theorem decorate_reads (hr : reg.Sound) (hs : scope.Sound reg) {m : Analysis RefId}
    {elem : TypeExpr} (d : Decorator)
    (h : Reads scope reg.Unmade reg m fun r reg' => reg'.graph.HasRef r ∧
      Denotes reg'.graph lo (scope.meaning reg') elem r) :
    Reads scope reg.Unmade reg (do let inner ← m; Analysis.ofGraph (·.decorate d inner))
      fun r reg' => reg'.graph.HasRef r ∧ ∃ inner,
        reg'.graph.entryAt? r = some (.decorated d inner) ∧
          Denotes reg'.graph lo (scope.meaning reg') elem inner := by
  refine Reads.bind hr hs h ?_
  rintro inner mid he hmr hms ⟨hinner, hd⟩
  have hx : Extends scope.package mid.Unmade mid _ := Registry.extends_decorate mid d hinner
  refine Reads.later he ⟨hx, hasRef_addRef mid.graph _, inner, ?_, hx.denotes le_rfl hd⟩
  exact TypeGraph.entryAt?_addRef_self mid.graph _

theorem mapOf_reads (scope : FileScope) (reg : Registry) (key value : RefId) :
    Reads scope reg.Unmade reg
      (Analysis.ofGraph (·.mapOf (some scope.package) key value)) fun r reg' =>
        reg'.graph.HasRef r ∧
        ∃ ty, reg'.graph.Holds reg.graph.typeCount r ty (.map ⟨key, value⟩) := by
  let data : TypeData :=
    { name := "map[" ++ reg.graph.refName key ++ "]" ++ reg.graph.refName value
      package := some scope.package, kind := .map ⟨key, value⟩ }
  obtain ⟨href, hh⟩ := opened_holds reg scope.package data data.name
  exact ⟨extends_opened reg scope.package data data.name _, href, _, hh⟩

theorem readTag_reads (scope : FileScope) (reg : Registry) (free : TypeId → Prop)
    (tag : Option String) : Reads scope free reg (scope.readTag tag) fun _ _ => True := by
  unfold FileScope.readTag
  split
  · exact reads_pure trivial
  · dsimp only
    split
    · exact reads_pure trivial
    · exact reads_throw _

end Steps

/-- The fields of the struct type `ty` have become longer by `stored`. -/
def Registry.FieldsAdded (reg reg' : Registry) (ty : TypeId) (stored : List StructField) : Prop :=
  ∀ data s, reg.graph.typeAt? ty = some data → data.kind = .struct s →
    reg'.graph.typeAt? ty =
      some { data with kind := .struct { s with fields := s.fields ++ stored } }

theorem fieldsAdded_addFields (reg : Registry) (ty : TypeId) (fields : List StructField) :
    reg.FieldsAdded (reg.withGraph (·.addFields ty fields)) ty fields := by
  intro data s hd hk
  unfold TypeGraph.typeAt? at hd ⊢
  simp [Registry.withGraph, TypeGraph.addFields, TypeGraph.modifyStruct, TypeGraph.modifyType,
    Array.getElem?_modify, hd, hk]

theorem Registry.FieldsAdded.trans {reg mid reg' : Registry} {ty : TypeId}
    {fields fields' : List StructField} (h : reg.FieldsAdded mid ty fields)
    (h' : mid.FieldsAdded reg' ty fields') : reg.FieldsAdded reg' ty (fields ++ fields') := by
  intro data s hd hk
  have := h' _ _ (h data s hd hk) rfl
  simpa using this

theorem Registry.Extends.fieldsAdded {pkg : PackageId} {reg mid reg' : Registry} {ty : TypeId}
    {fields : List StructField} (he : Extends pkg reg.Unmade reg mid)
    (ht : reg.graph.HasType ty) (h : mid.FieldsAdded reg' ty fields) :
    reg.FieldsAdded reg' ty fields :=
  fun data s hd hk => h data s (he.types ty data (fun hn => hn ht) hd) hk

mutual

theorem resolveType_reads {scope : FileScope} {reg : Registry} (hr : reg.Sound)
    (hs : scope.Sound reg) (type : TypeExpr) :
    Reads scope reg.Unmade reg (resolveType scope type) fun r reg' =>
      reg'.graph.HasRef r ∧
        Denotes reg'.graph reg.graph.typeCount (scope.meaning reg') type r := by
  cases type with
  | named name args => exact resolveName_reads hr hs _ name
  | selector base name args => exact resolveQualified_reads hr hs _ (base ()) name
  | pointer elem | array _ elem | slice elem | chan _ elem | ellipsis elem =>
    exact decorate_reads hr hs _ (resolveType_reads hr hs (elem ()))
  | map key value =>
    refine Reads.bind hr hs (resolveType_reads hr hs (key ())) ?_
    rintro k mid he hmr hms ⟨_, hk⟩
    refine Reads.later he (Reads.bind hmr hms (resolveType_reads hmr hms (value ())) ?_)
    rintro v mid' he' _ _ ⟨_, hv⟩
    refine Reads.later he' ((mapOf_reads scope mid' k v).mono ?_)
    rintro r reg' hx ⟨href, ty, hh⟩
    exact ⟨href, ty, ⟨k, v⟩, hh.weaken (Nat.le_trans he.typeCount he'.typeCount),
      hx.denotes le_rfl (he'.denotes le_rfl hk), hx.denotes he.typeCount hv⟩
  | func params results =>
    refine Reads.bind hr hs (resolveArguments_reads hr hs params) ?_
    intro as mid he hmr hms ha
    refine Reads.later he (Reads.bind hmr hms (resolveArguments_reads hmr hms results) ?_)
    intro rs mid' he' _ _ hrs
    let data : TypeData := { name := "", package := some scope.package
                             kind := .method { arguments := as, results := rs } }
    have hx := extends_opened mid' scope.package data "" mid'.Unmade
    obtain ⟨href, hh⟩ := opened_holds mid' scope.package data ""
    refine Reads.later he' ⟨hx, href, _, _,
      hh.weaken (Nat.le_trans he.typeCount he'.typeCount), ?_, ?_⟩
    · exact hx.argumentsDenote le_rfl (he'.argumentsDenote le_rfl ha)
    · exact hx.argumentsDenote he.typeCount hrs
  | interface elems => exact reads_pure ⟨hr.emptyInterface, rfl⟩
  | struct fields =>
    let data : TypeData := { name := anonymousStructName, package := some scope.package
                             kind := .struct {} }
    have hadd : Extends scope.package reg.Unmade reg (reg.onGraph (·.addType data)).2 :=
      Registry.extends_addType reg data
    have hfresh := extends_addType_opened reg scope.package data anonymousStructName reg.Unmade
    have hx := hadd.trans hfresh
    obtain ⟨href, hh⟩ := opened_holds reg scope.package data anonymousStructName
    have htype : (opened reg scope.package data anonymousStructName).2.graph.HasType
        (reg.graph.addType data).1 := hasType_addType reg.graph data
    refine Reads.after_ofGraph hadd (Reads.after_ofGraph hfresh ?_)
    refine Reads.bind_within (hx.sound hr) (hs.extended hx)
      (resolveFields_reads (hx.sound hr) (hs.extended hx) htype fields) ?_ ?_
    · rintro t (rfl | hn)
      · exact Nat.lt_irrefl _
      · exact fun h => hn (hx.hasType h)
    · rintro _ reg' he _ _ ⟨stored, hadded, hd⟩
      have hdata := hadded data {} (TypeGraph.typeAt?_addType_self reg.graph data) rfl
      obtain ⟨⟨e, hentry, hty⟩, hlo, -⟩ := hh
      refine reads_pure ⟨he.hasRef href, _, _, ⟨⟨e, he.entries _ _ hentry, hty⟩, hlo,
        Registry.kind?_of_typeAt? hdata⟩, ?_⟩
      exact hd.mono (.refl _ _) hx.typeCount (.refl _)
  | paren inner => exact resolveType_reads hr hs (inner ())
  | bad => exact reads_throw _
termination_by structural type

theorem resolveArguments_reads {scope : FileScope} {reg : Registry} (hr : reg.Sound)
    (hs : scope.Sound reg) (fields : List Field) :
    Reads scope reg.Unmade reg (resolveArguments scope fields) fun as reg' =>
      ArgumentsDenote reg'.graph reg.graph.typeCount (scope.meaning reg') fields as := by
  match fields with
  | [] => exact reads_pure rfl
  | ⟨names, type, _, _⟩ :: rest =>
    refine Reads.bind hr hs (resolveType_reads hr hs (type ())) ?_
    rintro r mid he hmr hms ⟨_, hd⟩
    refine Reads.later he (Reads.bind hmr hms (resolveArguments_reads hmr hms rest) ?_)
    intro others reg' he' _ _ ho
    refine reads_pure ⟨r, others, rfl, he'.denotes le_rfl hd, ?_⟩
    exact ho.mono (.refl _ _) he.typeCount (.refl _)
termination_by structural fields

theorem resolveFields_reads {scope : FileScope} {reg : Registry} (hr : reg.Sound)
    (hs : scope.Sound reg) {ty : TypeId} (ht : reg.graph.HasType ty) (fields : List Field) :
    Reads scope (fun t => t = ty ∨ reg.Unmade t) reg (resolveFields scope ty fields)
      fun _ reg' => ∃ stored, reg.FieldsAdded reg' ty stored ∧
        FieldsDenote reg'.graph reg.graph.typeCount (scope.meaning reg') fields stored := by
  match fields with
  | [] =>
    refine reads_pure ⟨[], fun data s hd hk => ?_, rfl⟩
    rw [hd, List.append_nil, ← hk]
  | ⟨names, type, tag, doc⟩ :: rest =>
    refine Reads.bind_within hr hs (resolveType_reads hr hs (type ())) (fun _ => .inr) ?_
    rintro r mid he hmr hms ⟨_, hd⟩
    have htag := readTag_reads scope mid mid.Unmade tag
    refine Reads.bind_within hmr hms htag (fun t hn => .inr fun h => hn (he.hasType h)) ?_
    intro tag' mid' he' hmr' hms' _
    let own := StructField.ofNames names (mid'.graph.refName r) r tag' (doc.getD [])
    have hadd : Extends scope.package (Eq ty) mid' (mid'.withGraph (·.addFields ty own)) :=
      Registry.extends_addFields mid' rfl own
    refine Reads.after_modify (hadd.weaken fun _ h => .inl h.symm) ?_
    have hmade : ∀ t, reg.graph.HasType t → (mid'.withGraph (·.addFields ty own)).graph.HasType t :=
      fun t h => hadd.hasType (he'.hasType (he.hasType h))
    refine Reads.filling hmade (Reads.mono
      (resolveFields_reads (hadd.sound hmr') (hms'.extended hadd) (hmade ty ht) rest) ?_)
    rintro _ reg' hrest ⟨others, hadded, hothers⟩
    have hkeep := hadd.keeps_filling ht fun t _ heq => heq.symm
    have hkeep' := hrest.keeps_filling ht fun t hmade hf => hf.resolve_right fun hn => hn hmade
    refine ⟨own ++ others, ?_, r, _, tag', others, rfl, ?_, ?_⟩
    · exact he.fieldsAdded ht
        (he'.fieldsAdded (he.hasType ht) ((fieldsAdded_addFields mid' ty own).trans hadded))
    · have hmid := (he'.denotes le_rfl hd).mono hkeep le_rfl (scope.meaning_refines hadd.refs)
      exact hmid.mono hkeep' le_rfl (scope.meaning_refines hrest.refs)
    · have hle := Nat.le_trans he.typeCount (Nat.le_trans he'.typeCount hadd.typeCount)
      exact hothers.mono (.refl _ _) hle (.refl _)
termination_by structural fields

end

end GoPackages
