import GoPackages.Proofs.Analysis.DeclaredMembers

/-!
# What is read in the course of something else

Whatever is read has parts that are read in between: the field of a struct, the result of a
signature, the initializer of a name. No name is declared before such a part is read, and none
after it.
-/
namespace GoPackages

open Source (TypeExpr Field Expr InterfaceElem ValueSpec GroupKind)
open Registry (Adds Extends)

theorem FileScope.Sound.adds {scope : FileScope} {reg reg' : Registry} (hs : scope.Sound reg)
    (h : Adds reg reg') : scope.Sound reg' where
  package := h.registered hs.package
  aliases qualifier q hq := h.registered (hs.aliases qualifier q hq)
  typeParams n r hr := Nat.lt_of_lt_of_le (hs.typeParams n r hr) h.spares.refCount

/-- The step declares no name, also where it fails. -/
def Adding {α : Type} (m : Analysis α) (reg : Registry) : Prop := Adds reg (stateAfter m reg)

section Adding

variable {α β : Type} {scope : FileScope} {reg mid : Registry} {m : Analysis α}
  {k : α → Analysis β} {a : α}

theorem Adding.of_ok (h : Adding m reg) (hm : m reg = .ok a mid) : Adds reg mid :=
  stateAfter_of_ok hm ▸ h

theorem Reads.adding {free : TypeId → Prop} {good : α → Registry → Prop}
    (h : Reads scope free reg m good) : Adding m reg :=
  h.stateAfter (fun _ _ hok => .of_extends hok.1) fun _ hx => .of_extends hx

theorem stateAfter_bind (h : m reg = .ok a mid) :
    stateAfter (m >>= k) reg = stateAfter (k a) mid := by
  rw [stateAfter, bind_eq_of_ok h]
  rfl

theorem adds_stateAfter_bind (hk : ∀ a mid, m reg = .ok a mid → Adding (k a) mid) :
    Adds (stateAfter m reg) (stateAfter (m >>= k) reg) := by
  cases hm : m reg with
  | ok a mid =>
    rw [stateAfter_of_ok hm, stateAfter_bind hm]
    exact hk a mid hm
  | error e mid =>
    rw [stateAfter_of_error hm, stateAfter_of_error (bind_eq_of_error hm)]
    exact .refl mid

theorem Adding.bind (h : Adding m reg) (hk : ∀ a mid, m reg = .ok a mid → Adding (k a) mid) :
    Adding (m >>= k) reg :=
  h.trans (adds_stateAfter_bind hk)

end Adding

/-- Something that is read while a declaration is in progress. -/
inductive Phase where
  | type (type : TypeExpr)
  | arguments (fields : List Field)
  | fields (ty : TypeId) (fields : List Field)
  | elems (ty : TypeId) (elems : List InterfaceElem)
  | value (e : Expr)
  | names (kind : GroupKind) (doc : Doc) (source : ValueSpec) (index : Nat) (names : List String)

def Phase.Fits (reg : Registry) : Phase → Prop
  | .fields ty _ | .elems ty _ => reg.graph.HasType ty
  | .type _ | .arguments _ | .value _ | .names _ _ _ _ _ => True

/-- The registry when all of it is read, or when reading has failed. -/
def Phase.final (scope : FileScope) (reg : Registry) : Phase → Registry
  | .type t => stateAfter (resolveType scope t) reg
  | .arguments fs => stateAfter (resolveArguments scope fs) reg
  | .fields ty fs => stateAfter (resolveFields scope ty fs) reg
  | .elems ty es => stateAfter (declareElems scope ty es) reg
  | .value e => stateAfter (inferType scope e) reg
  | .names kind doc source index ns =>
    stateAfter (declareNames scope kind doc none source index ns) reg

/-- The part of a type expression that is read first, where the rest is a decorator. -/
def Source.TypeExpr.elem? : TypeExpr → Option TypeExpr
  | .pointer elem | .array _ elem | .slice elem | .chan _ elem | .ellipsis elem => some (elem ())
  | .paren inner => some (inner ())
  | .named _ _ | .selector _ _ _ | .map _ _ | .func _ _ | .interface _ | .struct _ | .bad => none

/-- The type expression, or the name of a predeclared type, that is read for an initializer. -/
def Source.Expr.type? : Expr → Option TypeExpr
  | .literal kind _ => some (.named kind.typeName [])
  | .ident name => (identTypeName? name).map (.named · [])
  | .composite (some type) => some (type ())
  | .composite none | .unary _ _ | .paren _ | .selector _ _ | .call _ | .other _ | .bad => none

inductive InSignature (scope : FileScope) (params results : List Field) (reg : Registry) :
    List Field → Registry → Prop where
  | params : InSignature scope params results reg params reg
  | results {arguments : List Argument} {mid : Registry} :
      resolveArguments scope params reg = .ok arguments mid →
      InSignature scope params results reg results mid

/-- `Enters scope p reg q mid`: reading `p` from `reg` on comes to read its part `q` at `mid`. -/
inductive Enters (scope : FileScope) : Phase → Registry → Phase → Registry → Prop where
  | elem {type part : TypeExpr} {reg : Registry} : type.elem? = some part →
      Enters scope (.type type) reg (.type part) reg
  | key {key value : Unit → TypeExpr} {reg : Registry} :
      Enters scope (.type (.map key value)) reg (.type (key ())) reg
  | value {key value : Unit → TypeExpr} {reg mid : Registry} {r : RefId} :
      resolveType scope (key ()) reg = .ok r mid →
      Enters scope (.type (.map key value)) reg (.type (value ())) mid
  | func {params results fields : List Field} {reg mid : Registry} :
      InSignature scope params results reg fields mid →
      Enters scope (.type (.func params results)) reg (.arguments fields) mid
  | struct {fields : List Field} {reg : Registry} :
      Enters scope (.type (.struct fields)) reg (.fields reg.nextType fields)
        (openedStruct scope reg).2
  | argument {field : Field} {rest : List Field} {reg : Registry} :
      Enters scope (.arguments (field :: rest)) reg (.type (field.type ())) reg
  | nextArguments {field : Field} {rest : List Field} {reg mid : Registry} {r : RefId} :
      resolveType scope (field.type ()) reg = .ok r mid →
      Enters scope (.arguments (field :: rest)) reg (.arguments rest) mid
  | field {ty : TypeId} {field : Field} {rest : List Field} {reg : Registry} :
      Enters scope (.fields ty (field :: rest)) reg (.type (field.type ())) reg
  | nextFields {ty : TypeId} {field : Field} {rest : List Field} {reg mid : Registry} :
      resolveFields scope ty [field] reg = .ok () mid →
      Enters scope (.fields ty (field :: rest)) reg (.fields ty rest) mid
  | method {ty : TypeId} {name : String} {params results fields : List Field}
      {rest : List InterfaceElem} {reg mid : Registry} :
      InSignature scope params results reg fields mid →
      Enters scope (.elems ty (.method name params results :: rest)) reg (.arguments fields) mid
  | nextElems {ty : TypeId} {elem : InterfaceElem} {rest : List InterfaceElem}
      {reg mid : Registry} : declareElems scope ty [elem] reg = .ok () mid →
      Enters scope (.elems ty (elem :: rest)) reg (.elems ty rest) mid
  | written {e : Expr} {type : TypeExpr} {reg : Registry} : e.type? = some type →
      Enters scope (.value e) reg (.type type) reg
  | operand {op : Source.UnaryOp} {operand : Unit → Expr} {reg : Registry} :
      op = .address ∨ op.keepsType = true →
      Enters scope (.value (.unary op operand)) reg (.value (operand ())) reg
  | inner {inner : Unit → Expr} {reg : Registry} :
      Enters scope (.value (.paren inner)) reg (.value (inner ())) reg
  | initializer {kind : GroupKind} {doc : Doc} {source : ValueSpec} {index : Nat} {name : String}
      {rest : List String} {e : Expr} {reg : Registry} : name ≠ "_" →
      source.values[index]?.or source.values.head? = some e →
      Enters scope (.names kind doc source index (name :: rest)) reg (.value e) reg
  | nextNames {kind : GroupKind} {doc : Doc} {source : ValueSpec} {index : Nat} {name : String}
      {rest : List String} {reg mid : Registry} :
      declareNames scope kind doc none source index [name] reg = .ok () mid →
      Enters scope (.names kind doc source index (name :: rest)) reg
        (.names kind doc source (index + 1) rest) mid

section Enters

variable {scope : FileScope} {reg mid : Registry}

theorem valueType_adding (hr : reg.Sound) (hs : scope.Sound reg) (declared : Option RefId)
    (source : ValueSpec) (index : Nat) : Adding (valueType scope declared source index) reg := by
  unfold valueType
  cases declared with
  | some r => exact .refl reg
  | none =>
    cases source.values[index]?.or source.values.head? with
    | none => exact .refl reg
    | some e => exact (inferType_reads hr hs e).adding

theorem adds_listValue (kind : GroupKind) (v : Variable) (q : PackageId) :
    Adds reg (listValue reg q kind v) := by
  refine .of_listing q fun p => ?_
  split <;> exact ⟨rfl, rfl, rfl, rfl⟩

theorem declareNames_adding (hr : reg.Sound) (hs : scope.Sound reg) (kind : GroupKind) (doc : Doc)
    (declared : Option RefId) (source : ValueSpec) (index : Nat) (names : List String) :
    Adding (declareNames scope kind doc declared source index names) reg := by
  induction names generalizing reg index with
  | nil => exact .refl reg
  | cons name rest ih =>
    rw [declareNames]
    split
    next =>
      have htype := valueType_adding hr hs declared source index
      refine htype.bind fun type mid h => ?_
      have hlisted := (htype.of_ok h).trans (adds_listValue kind { name, type, doc } scope.package)
      have hrest := ih (hlisted.spares.sound hr) (hs.adds hlisted) (index + 1)
      exact Adds.trans (adds_listValue kind _ scope.package) hrest
    next => exact ih hr hs (index + 1)

theorem adds_decorate (scope : FileScope) (d : Decorator) {r : RefId} (hr : reg.graph.HasRef r) :
    Adding (Analysis.ofGraph (·.decorate d r)) reg := by
  have hx : Registry.Extends scope.package reg.Unmade reg (reg.onGraph (·.decorate d r)).2 :=
    Registry.extends_decorate reg d hr
  exact .of_extends hx

theorem adds_opened (reg : Registry) (pkg : PackageId) (data : TypeData) (name : String) :
    Adds reg (opened reg pkg data name).2 :=
  .of_extends (extends_opened reg pkg data name fun _ => False)

theorem adding_opened (reg : Registry) (pkg : PackageId) (data : TypeData) (name : String) :
    Adding (do
      let ty ← Analysis.ofGraph (·.addType data)
      Analysis.ofGraph (·.fresh (some pkg) name ty)) reg :=
  adds_opened reg pkg data name

theorem InSignature.adds {β : Type} {params results fields : List Field}
    (h : InSignature scope params results reg fields mid) (hr : reg.Sound) (hs : scope.Sound reg)
    {k : List Argument → List Argument → Analysis β}
    (hk : ∀ as rs last, Extends scope.package reg.Unmade reg last → Adding (k as rs) last) :
    Adds reg mid ∧ Adds (stateAfter (resolveArguments scope fields) mid)
      (stateAfter (do
        let as ← resolveArguments scope params
        let rs ← resolveArguments scope results
        k as rs) reg) := by
  have hparams := resolveArguments_reads hr hs params
  have hresults : ∀ as later, resolveArguments scope params reg = .ok as later →
      Adding (resolveArguments scope results) later ∧
        Adds (stateAfter (resolveArguments scope results) later)
          (stateAfter (do let rs ← resolveArguments scope results; k as rs) later) := by
    intro as later h
    have he := (hparams.of_ok h).1
    have hreads := resolveArguments_reads (he.sound hr) (hs.extended he) results
    refine ⟨hreads.adding, adds_stateAfter_bind fun rs last h' => hk as rs last ?_⟩
    exact he.then_new (hreads.of_ok h').1 fun _ hn => hn
  cases h with
  | params =>
    refine ⟨.refl reg, adds_stateAfter_bind fun as later h => ?_⟩
    exact Adds.trans (hresults as later h).1 (hresults as later h).2
  | @results as _ h =>
    rw [stateAfter_bind h]
    exact ⟨hparams.adding.of_ok h, (hresults as mid h).2⟩

theorem resolveFields_front (scope : FileScope) (ty : TypeId) (field : Field) (rest : List Field) :
    resolveFields scope ty (field :: rest) =
      (do resolveFields scope ty [field]; resolveFields scope ty rest) := by
  simp only [resolveFields_cons, resolveFields, bind_assoc, pure_bind]

theorem adding_field (hr : reg.Sound) (hs : scope.Sound reg) {ty : TypeId}
    (hty : reg.graph.HasType ty) (field : Field) (r : RefId) (rest : List Field) :
    Adding (do
      let tag ← scope.readTag field.tag
      modify (·.withGraph fun g =>
        g.addFields ty (StructField.ofNames field.names (g.refName r) r tag (field.doc.getD [])))
      resolveFields scope ty rest) reg := by
  have htag := readTag_reads scope reg (fun _ => False) field.tag
  refine htag.adding.bind fun tag mid h => ?_
  have hx := (htag.of_ok h).1
  let own := StructField.ofNames field.names (mid.graph.refName r) r tag (field.doc.getD [])
  have hadd : Extends scope.package (Eq ty) mid (mid.withGraph (·.addFields ty own)) :=
    Registry.extends_addFields mid rfl own
  have hrest := resolveFields_reads (hadd.sound (hx.sound hr)) ((hs.extended hx).extended hadd)
    (hadd.hasType (hx.hasType hty)) rest
  exact Adds.trans (.of_extends hadd) hrest.adding

theorem adding_mapValue (hr : reg.Sound) (hs : scope.Sound reg) (k : RefId) (value : TypeExpr) :
    Adding (do
      let v ← resolveType scope value
      Analysis.ofGraph (·.mapOf (some scope.package) k v)) reg :=
  (resolveType_reads hr hs value).adding.bind fun v last _ => (mapOf_reads scope last k v).adding

theorem declareElems_front (scope : FileScope) (ty : TypeId) (elem : InterfaceElem)
    (rest : List InterfaceElem) : declareElems scope ty (elem :: rest) =
      (do declareElems scope ty [elem]; declareElems scope ty rest) := by
  cases elem with
  | method => simp only [declareElems, bind_assoc, pure_bind]
  | embedded | union => rfl

theorem declareElems_method (scope : FileScope) (ty : TypeId) (name : String)
    (params results : List Field) (rest : List InterfaceElem) :
    declareElems scope ty (.method name params results :: rest) = (do
      let arguments ← resolveArguments scope params
      let results ← resolveArguments scope results
      let method ← Analysis.ofGraph (·.addType
        { name, package := some scope.package, kind := .method { arguments, results } })
      modify (·.withGraph fun g => (g.addInterfaceMethod ty name method).2)
      declareElems scope ty rest) := by
  simp only [declareElems, resolveMethod, bind_assoc]

theorem adding_method (hr : reg.Sound) (hs : scope.Sound reg) {ty : TypeId}
    (hty : reg.graph.HasType ty) (he : Extends scope.package reg.Unmade reg mid) (name : String)
    (arguments results : List Argument) (rest : List InterfaceElem) :
    Adding (do
      let method ← Analysis.ofGraph (·.addType
        { name, package := some scope.package, kind := .method { arguments, results } })
      modify (·.withGraph fun g => (g.addInterfaceMethod ty name method).2)
      declareElems scope ty rest) mid := by
  let data : TypeData :=
    { name, package := some scope.package, kind := .method { arguments, results } }
  have hadd : Extends scope.package mid.Unmade mid (mid.onGraph (·.addType data)).2 :=
    Registry.extends_addType mid data
  have hfill : Extends scope.package (Eq ty) (mid.onGraph (·.addType data)).2
      ((mid.onGraph (·.addType data)).2.withGraph fun g =>
        (g.addInterfaceMethod ty name (mid.graph.addType data).1).2) :=
    Registry.extends_addInterfaceMethod _ rfl name _
  have hrest := declareElems_reads (hfill.sound (hadd.sound (he.sound hr)))
    (((hs.extended he).extended hadd).extended hfill)
    (hfill.hasType (hadd.hasType (he.hasType hty))) rest
  exact Adds.trans (.of_extends hadd) (Adds.trans (.of_extends hfill) hrest.adding)

theorem declareNames_cons_split (scope : FileScope) (kind : GroupKind) (doc : Doc)
    (declared : Option RefId) (source : ValueSpec) (index : Nat) (name : String)
    (rest : List String) : declareNames scope kind doc declared source index (name :: rest) = (do
      declareNames scope kind doc declared source index [name]
      declareNames scope kind doc declared source (index + 1) rest) := by
  by_cases hb : name = "_"
  · simp [declareNames, hb]
  · simp [declareNames, hb]

theorem elem?_adds (hr : reg.Sound) (hs : scope.Sound reg) {type part : TypeExpr}
    (h : type.elem? = some part) : Adds (stateAfter (resolveType scope part) reg)
      (stateAfter (resolveType scope type) reg) := by
  cases type with
  | pointer elem | array _ elem | slice elem | chan _ elem | ellipsis elem =>
    cases h
    refine adds_stateAfter_bind fun r mid hread => adds_decorate scope _ ?_
    exact ((resolveType_reads hr hs (elem ())).of_ok hread).2.1
  | paren inner => cases h; exact .refl _
  | named | selector | map | func | interface | struct | bad => cases h

theorem type?_adds {e : Expr} {type : TypeExpr} (h : e.type? = some type) :
    Adds (stateAfter (resolveType scope type) reg) (stateAfter (inferType scope e) reg) := by
  cases e with
  | literal => cases h; exact adds_stateAfter_bind fun _ _ _ => .refl _
  | ident name =>
    obtain ⟨typeName, hname, rfl⟩ := Option.map_eq_some_iff.mp h
    simp only [inferType, hname]
    exact adds_stateAfter_bind (m := scope.resolveName typeName) fun _ _ _ => .refl _
  | composite written =>
    cases written with
    | none => cases h
    | some written => cases h; exact adds_stateAfter_bind fun _ _ _ => .refl _
  | unary | paren | selector | call | other | bad => cases h

theorem operand_adds (hr : reg.Sound) (hs : scope.Sound reg) {op : Source.UnaryOp}
    (h : op = .address ∨ op.keepsType = true) (operand : Unit → Expr) :
    Adds (stateAfter (inferType scope (operand ())) reg)
      (stateAfter (inferType scope (.unary op operand)) reg) := by
  rw [inferType]
  split
  next =>
    refine adds_stateAfter_bind fun o mid hread => ?_
    cases o with
    | none => exact .refl mid
    | some r =>
      have href := ((inferType_reads hr hs (operand ())).of_ok hread).2.1 r rfl
      exact (adds_decorate scope .pointer href).bind fun _ _ _ => .refl _
  next hne =>
    rw [if_pos (h.resolve_left hne)]
    exact .refl _

/-- What is read in the course of something declares no name before, and none afterwards. -/
theorem Enters.adds {p q : Phase} (h : Enters scope p reg q mid) (hr : reg.Sound)
    (hs : scope.Sound reg) (hf : p.Fits reg) :
    Adds reg mid ∧ q.Fits mid ∧ Adds (q.final scope mid) (p.final scope reg) := by
  cases h with
  | elem h => exact ⟨.refl reg, trivial, elem?_adds hr hs h⟩
  | @key key value _ =>
    refine ⟨.refl reg, trivial, adds_stateAfter_bind fun k mid hread => ?_⟩
    have hadds := (resolveType_reads hr hs (key ())).adding.of_ok hread
    exact adding_mapValue (hadds.spares.sound hr) (hs.adds hadds) k (value ())
  | @value key value _ _ k hread =>
    refine ⟨(resolveType_reads hr hs (key ())).adding.of_ok hread, trivial, ?_⟩
    have hrest : (Phase.type (.map key value)).final scope reg = _ := stateAfter_bind hread
    rw [hrest]
    exact adds_stateAfter_bind fun v last _ => (mapOf_reads scope last k v).adding
  | @func params results _ _ _ h =>
    obtain ⟨hbefore, hafter⟩ := h.adds hr hs fun as rs last _ => adding_opened last scope.package
      { name := "", package := some scope.package
        kind := .method { arguments := as, results := rs } } ""
    exact ⟨hbefore, trivial, hafter⟩
  | @struct fields _ =>
    refine ⟨adds_opened reg _ _ _, ?_, ?_⟩
    · exact Registry.Extends.hasType (extends_addType_opened reg scope.package _ _ fun _ => False)
        (hasType_addType reg.graph _)
    · exact adds_stateAfter_bind (m := resolveFields scope reg.nextType fields) fun _ _ _ => .refl _
  | @argument field rest _ =>
    refine ⟨.refl reg, trivial, ?_⟩
    rw [Phase.final, Phase.final, resolveArguments_cons]
    refine adds_stateAfter_bind fun r mid hread => ?_
    have hadds := (resolveType_reads hr hs (field.type ())).adding.of_ok hread
    have hrest := resolveArguments_reads (hadds.spares.sound hr) (hs.adds hadds) rest
    exact hrest.adding.bind fun _ _ _ => .refl _
  | @nextArguments field rest _ _ r hread =>
    refine ⟨(resolveType_reads hr hs (field.type ())).adding.of_ok hread, trivial, ?_⟩
    rw [Phase.final, Phase.final, resolveArguments_cons, stateAfter_bind hread]
    exact adds_stateAfter_bind fun _ _ _ => .refl _
  | @field ty field rest _ =>
    refine ⟨.refl reg, trivial, ?_⟩
    rw [Phase.final, Phase.final, resolveFields_cons]
    refine adds_stateAfter_bind fun r mid hread => ?_
    have hx := ((resolveType_reads hr hs (field.type ())).of_ok hread).1
    exact adding_field (hx.sound hr) (hs.extended hx) (hx.hasType hf) field r rest
  | @nextFields ty field rest _ _ hread =>
    have hfirst := (resolveFields_reads hr hs hf [field]).of_ok hread
    refine ⟨.of_extends hfirst.1, hfirst.1.hasType hf, ?_⟩
    rw [Phase.final, Phase.final, resolveFields_front, stateAfter_bind hread]
    exact .refl _
  | @method ty name params results _ rest _ _ h =>
    obtain ⟨hbefore, hafter⟩ := h.adds hr hs fun as rs last he =>
      adding_method hr hs hf he name as rs rest
    refine ⟨hbefore, trivial, ?_⟩
    rw [Phase.final, Phase.final, declareElems_method]
    exact hafter
  | @nextElems ty elem rest _ _ hread =>
    have hfirst := (declareElems_reads hr hs hf [elem]).of_ok hread
    refine ⟨.of_extends hfirst.1, hfirst.1.hasType hf, ?_⟩
    rw [Phase.final, Phase.final, declareElems_front, stateAfter_bind hread]
    exact .refl _
  | written h => exact ⟨.refl reg, trivial, type?_adds h⟩
  | @operand op operand _ h => exact ⟨.refl reg, trivial, operand_adds hr hs h operand⟩
  | inner => exact ⟨.refl reg, trivial, .refl _⟩
  | @initializer kind doc source index name rest e _ hb h =>
    refine ⟨.refl reg, trivial, ?_⟩
    have hvalue : valueType scope none source index = inferType scope e := by
      simp only [valueType, h]
    rw [Phase.final, Phase.final, declareNames, if_pos hb, hvalue]
    refine adds_stateAfter_bind fun type last hread => ?_
    have hadds := (inferType_reads hr hs e).adding.of_ok hread
    have hlisted := hadds.trans (adds_listValue kind { name, type, doc } scope.package)
    have hrest := declareNames_adding (hlisted.spares.sound hr) (hs.adds hlisted) kind doc none
      source (index + 1) rest
    exact Adds.trans (adds_listValue kind _ scope.package) hrest
  | @nextNames kind doc source index name rest _ _ hread =>
    have hfirst := (declareNames_adding hr hs kind doc none source index [name]).of_ok hread
    refine ⟨hfirst, trivial, ?_⟩
    rw [Phase.final, Phase.final, declareNames_cons_split, stateAfter_bind hread]
    exact .refl _

/-- Reading `phase` from `reg` on comes to read `type` at `mid`. -/
inductive Comes (scope : FileScope) : Phase → Registry → TypeExpr → Registry → Prop where
  | here {type : TypeExpr} {reg : Registry} : Comes scope (.type type) reg type reg
  | enter {p q : Phase} {reg later mid : Registry} {type : TypeExpr} :
      Enters scope p reg q later → Comes scope q later type mid → Comes scope p reg type mid

theorem Comes.adds {p : Phase} {type : TypeExpr} (h : Comes scope p reg type mid)
    (hr : reg.Sound) (hs : scope.Sound reg) (hf : p.Fits reg) :
    Adds reg mid ∧ Adds (stateAfter (resolveType scope type) mid) (p.final scope reg) := by
  induction h with
  | here => exact ⟨.refl _, .refl _⟩
  | enter hstep _ ih =>
    obtain ⟨hbefore, hfits, hafter⟩ := hstep.adds hr hs hf
    obtain ⟨hfront, hback⟩ := ih (hbefore.spares.sound hr) (hs.adds hbefore) hfits
    exact ⟨hbefore.trans hfront, hback.trans hafter⟩

end Enters

end GoPackages
