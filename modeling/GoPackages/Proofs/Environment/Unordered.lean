import GoPackages.Proofs.Analysis.Steady
import GoPackages.Proofs.Environment.Ends

/-!
# Items in any order

An item that can be analyzed at all is analyzed with success wherever it stands among the others,
as long as no alias leads back to its name, and it becomes what it has to become.
-/
namespace GoPackages

open Source (TypeExpr Field InterfaceElem TypeSpec FuncDecl ValueSpec GroupKind)

def declareItem (scope : FileScope) : Item → Analysis Unit
  | .importSpec _ => pure ()
  | .typeSpec doc spec => declareTypeSpec scope doc spec
  | .valueSpec kind doc spec source => declareValueSpec scope kind doc spec source
  | .func decl => declareFunc scope decl

def declareItems (scope : FileScope) : List Item → Analysis Unit
  | [] => pure ()
  | item :: rest => do
    declareItem scope item
    declareItems scope rest

/-- Neither an import nor a declaration with type parameters. -/
def Item.Simple : Item → Prop
  | .importSpec _ => False
  | .typeSpec _ spec => Source.declaredNames spec.typeParams = []
  | .valueSpec _ _ _ _ => True
  | .func decl => typeParamNames decl = []

instance (item : Item) : Decidable item.Simple :=
  match item with
  | .importSpec _ => .isFalse fun h => h
  | .typeSpec _ spec => inferInstanceAs (Decidable (Source.declaredNames spec.typeParams = []))
  | .valueSpec _ _ _ _ => .isTrue trivial
  | .func decl => inferInstanceAs (Decidable (typeParamNames decl = []))

section Lists

variable {log : List Analyzed} {d : DeclList} {a : Analyzed} {listed : TypeExpr → Bool}

theorem Listing.snoc (h : Listing listed log d) (hn : ∀ n, a.listed? listed n = none) :
    Listing listed (log ++ [a]) d := by
  intro n
  rw [h n, List.findSome?_append, List.findSome?_cons, hn n]
  cases log.findSome? (Analyzed.listed? listed n) <;> rfl

theorem listed?_none {n : String} (hn : n ∉ declared (log.map Analyzed.item)) :
    log.findSome? (Analyzed.listed? listed n) = none := by
  refine List.findSome?_eq_none_iff.mpr fun b hb => ?_
  cases hl : b.listed? listed n with
  | none => rfl
  | some ty =>
    refine absurd (List.mem_flatMap.mpr ⟨b.item, List.mem_map_of_mem hb, ?_⟩) hn
    unfold Analyzed.listed? at hl
    split at hl
    next spec _ hitem _ =>
      split at hl
      next h => exact hitem ▸ List.mem_singleton.mpr h.1.symm
      next => cases hl
    next => cases hl

theorem Listing.declare (h : Listing listed log d) {doc : Option Doc} {spec : TypeSpec}
    {owner : RefId} {ty : TypeId} {start stop : Nat}
    (hn : spec.name ∉ declared (log.map Analyzed.item)) :
    Listing listed (log ++ [⟨.typeSpec doc spec, .defined owner ty, start, stop⟩])
      (if listed spec.type then d.declare spec.name ty else d) := by
  cases hl : listed spec.type with
  | false =>
    refine h.snoc fun n => ?_
    simp [Analyzed.listed?, hl]
  | true =>
    intro n
    rw [if_pos rfl, List.findSome?_append, List.findSome?_singleton]
    by_cases heq : spec.name = n
    · subst heq
      rw [DeclList.get?_declare_self, listed?_none hn]
      simp [Analyzed.listed?, hl]
    · rw [DeclList.get?_declare_of_ne heq, h n]
      simp [Analyzed.listed?, heq]

theorem declareKind_structs (p : Package) (name : String) (ty : TypeId) (doc : Doc)
    (type : TypeExpr) : (p.declareKind name ty (kindOf doc type)).structs =
      if isStruct type then p.structs.declare name ty else p.structs := by
  cases type <;> rfl

theorem declareKind_interfaces (p : Package) (name : String) (ty : TypeId) (doc : Doc)
    (type : TypeExpr) : (p.declareKind name ty (kindOf doc type)).interfaces =
      if isInterface type then p.interfaces.declare name ty else p.interfaces := by
  cases type <;> rfl

end Lists

section

variable {scope : FileScope} {base reg mid reg' : Registry} {log : List Analyzed} {item : Item}

theorem Lookups.more {items items' : List Item} (h : Lookups scope base items reg)
    (hsub : items ⊆ items') : Lookups scope base items' reg :=
  h.of_names hsub h.sound (fun _ _ => rfl) fun _ e he => ⟨e, he, rfl, fun _ => rfl⟩

theorem Lookups.addMethod {items items' : List Item} {r : RefId} {ty : TypeId} {data : TypeData}
    (h : Lookups scope base items reg) (hsub : items ⊆ items') (hr : reg.graph.HasRef r)
    (hd : reg.graph.typeAt? ty = some data) :
    let reg' := reg.withGraph fun g => (g.addMethod r ty).2
    Lookups scope base items' reg' ∧ Sustains scope items items' reg.Unmade reg reg' ∧
      TypeGraph.Gathers reg.graph reg'.graph [(r, ty)] := by
  intro reg'
  have hty := TypeGraph.hasType_of_typeAt? hd
  have hsound : reg'.Sound := h.sound.step (.addMethod r ty) ⟨hr, hty⟩
  have hgathers : TypeGraph.Gathers reg.graph reg'.graph [(r, ty)] :=
    TypeGraph.gathers_addMethod h.grounded hr hty
  refine ⟨?_, ?_, hgathers⟩
  · refine h.of_names hsub hsound (fun _ _ => rfl) fun x e he => ?_
    refine ⟨_, TypeGraph.entryAt?_addMethod he hd, ?_⟩
    split <;> exact ⟨rfl, fun _ => rfl⟩
  · refine .of_edges h hsound hsub (TypeGraph.keepsEdges_addMethod _ r ty)
      (fun x hx => hgathers.hasRef x hx) (fun t d _ ht => ?_) (fun _ _ hf => hf)
      fun _ _ hf => .inl hf
    rw [TypeGraph.typeAt?, ← ht, TypeGraph.typeAt?]
    exact congrArg (·[t.index]?) (TypeGraph.types_addMethod reg.graph r ty)

theorem Lookups.bound {items items' : List Item} {name : String} {r : RefId} {ty : TypeId}
    {data : TypeData} {f : Package → Package} (h : Lookups scope base items reg)
    (hb : scope.found? base name = none) (hn : name ∉ declared items)
    (hf : scope.found? reg name = some r) (hd : reg.graph.typeAt? ty = some data)
    (hrefs : ∀ p, (f p).refs = p.refs) (hsub : items ⊆ items') (hn' : name ∈ declared items') :
    let reg' := (reg.withGraph fun g => (g.bind r ty).2).modifyPackage scope.package f
    Lookups scope base items' reg' ∧ Sustains scope items items' (· = ty) reg reg' := by
  intro reg'
  obtain ⟨-, e, he, hname, -⟩ := h.own_entry hb hn hf
  have hsound : reg'.Sound := Registry.Sound.modifyPackage
    (h.sound.step (.bind r ty) ⟨h.hasRef hf, TypeGraph.hasType_of_typeAt? hd⟩) hrefs
  have href : ∀ q n, reg'.ref? q n = reg.ref? q n :=
    fun q n => (Registry.ref?_modifyPackage hrefs q n).trans rfl
  have hfound : ∀ n, scope.found? reg' n = scope.found? reg n :=
    fun n => FileScope.found?_congr fun q => href q n
  constructor
  · refine h.of_names hsub hsound href fun x e' he' => ?_
    by_cases hx : r = x
    · subst hx
      obtain rfl : e = e' := by simpa [he] using he'
      have hself := TypeGraph.entryAt?_bind_named he ty
      exact ⟨_, hself, rfl, fun hnot => absurd (hname ▸ hn') hnot⟩
    · have hkept := (TypeGraph.entryAt?_bind_other he hx ty).trans he'
      exact ⟨e', hkept, rfl, fun _ => rfl⟩
  · refine .of_edges h hsound hsub (TypeGraph.keepsEdges_bind _ r ty) (fun x hx => ?_)
      (fun t d ht hd' => ?_) (fun n x hf' => (hfound n).trans hf')
      fun n x hf' => .inl ((hfound n).symm.trans hf')
    · exact Nat.lt_of_lt_of_eq hx (TypeGraph.refCount_bind _ r ty).symm
    · exact (TypeGraph.typeAt?_bind_of_ne (Ne.symm ht) r).trans hd'

theorem Lookups.declare {items items' : List Item} {name : String}
    (h : Lookups scope base items reg) (hb : scope.found? base name = none)
    (hn : name ∉ declared items) {p : Package} (hp : reg.package? scope.package = some p)
    (hsub : items ⊆ items') (hn' : name ∈ declared items') (kind : TypeKind) :
    let after := (reg.declare scope.package name kind).2
    ∃ owner data, Lookups scope base items' after ∧
      Sustains scope items items' reg.Unmade reg after ∧
      TypeGraph.Gathers reg.graph after.graph [] ∧ scope.found? after name = some owner ∧
      after.graph.typeAt? reg.nextType = some data ∧ data.kind = kind ∧
      (kind.isDefined = true → data.declaredBy = some owner) := by
  intro after
  let owner := (reg.introduce scope.package name kind).1
  let before := (reg.introduce scope.package name kind).2
  have hg : Expands scope reg.Unmade reg before := h.expands_introduce hb hp kind
  have hbefore := h.expanded hg
  have hf : scope.found? before name = some owner :=
    FileScope.found?_own (Registry.introduce_ref? hp)
  obtain ⟨hl, hs⟩ : Lookups scope base items' after ∧
      Sustains scope items items' (· = reg.nextType) before after :=
    hbefore.bound hb hn hf (Registry.introduce_typeAt? reg scope.package name kind)
      (fun p => Registry.declareKind_refs p name reg.nextType kind) hsub hn'
  have hroot : before.graph.namedRoot owner = owner :=
    hbefore.of_found (unaliased_of_undeclared hn) hf .core
  refine ⟨owner, _, hl, (Sustains.of_expands h hg fun _ hm => hm).trans (hs.weaken ?_), ?_, ?_,
    Registry.declare_typeAt? reg scope.package name kind, rfl, fun hdefined => ?_⟩
  · rintro t rfl
    exact Nat.lt_irrefl _
  · exact (hg.gathers h.sound).trans (TypeGraph.gathers_bind hbefore.grounded owner reg.nextType)
  · exact FileScope.found?_own ((Registry.declare_ref? ..).trans (Registry.introduce_ref? hp))
  · exact (if_pos hdefined).trans (congrArg some hroot)

theorem Lookups.lists?_declare {items : List Item} {name : String} {structs interfaces : DeclList}
    (h : Lookups scope base items reg) (hb : scope.found? base name = none)
    (hlists : reg.lists? scope.package = some (structs, interfaces)) (doc : Doc)
    (type : TypeExpr) :
    (reg.declare scope.package name (kindOf doc type)).2.lists? scope.package =
      some (if isStruct type then structs.declare name reg.nextType else structs,
        if isInterface type then interfaces.declare name reg.nextType else interfaces) := by
  obtain ⟨p, hp, -⟩ := Option.map_eq_some_iff.mp hlists
  have hg := h.expands_introduce hb hp (kindOf doc type)
  obtain ⟨p', hp', heq⟩ := Option.map_eq_some_iff.mp (hg.lists.trans hlists)
  obtain ⟨rfl, rfl⟩ := Prod.mk.inj heq
  have hafter : (reg.declare scope.package name (kindOf doc type)).2.package? scope.package =
      some (p'.declareKind name reg.nextType (kindOf doc type)) :=
    Registry.package?_modifyPackage_self hp' _
  rw [Registry.lists?, hafter, Option.map_some, declareKind_structs, declareKind_interfaces]

theorem KindPlaced.isDefined {items : List Item} {start stop : Nat} {type : TypeExpr}
    {kind : TypeKind} (h : KindPlaced scope items reg start stop type kind) (doc : Doc) :
    kind.isDefined = (kindOf doc type).isDefined := by
  cases type with
  | struct fields =>
    obtain ⟨t, rfl⟩ := h
    rfl
  | interface elems =>
    obtain ⟨t, methods, rfl, -⟩ := h
    rfl
  | named | selector | pointer | array | slice | ellipsis | map | chan | func | paren | bad =>
    obtain rfl : kind = .base := h
    rfl

namespace Covers

theorem listed (h : Covers scope base log reg) (hg : Expands scope reg.Unmade reg reg')
    (hc : Covered scope (log.map Analyzed.item ++ [item]) reg' reg.graph.refCount
      reg'.graph.refCount item .listed) :
    Covers scope base (log ++ [⟨item, .listed, reg.graph.refCount, reg'.graph.refCount⟩]) reg' := by
  obtain ⟨p, hpack⟩ := h.package
  have hsub : log.map Analyzed.item ⊆ log.map Analyzed.item ++ [item] :=
    List.subset_append_left _ _
  have hnone : ∀ listed n, Analyzed.listed? listed n
      ⟨item, .listed, reg.graph.refCount, reg'.graph.refCount⟩ = none := by
    intro listed n
    cases item <;> rfl
  refine h.snoc h.lookups.refCount_le (fun b hb => (h.within b hb).2) le_rfl
    ((h.lookups.expanded hg).more hsub)
    (hg.package hpack) (.of_expands h.lookups hg hsub) hc (hg.gathers h.lookups.sound) ?_
  obtain ⟨structs, interfaces, hl, hstructs, hinterfaces⟩ := h.lists
  exact ⟨structs, interfaces, hg.lists.trans hl, hstructs.snoc (hnone _),
    hinterfaces.snoc (hnone _)⟩

theorem func (h : Covers scope base log reg) (hp : scope.Plain) {decl : FuncDecl}
    (hparams : typeParamNames decl = []) (hok : declareFunc scope decl reg = .ok () reg') :
    ∃ a, a.item = .func decl ∧ Covers scope base (log ++ [a]) reg' := by
  obtain ⟨p, hpack⟩ := h.package
  rcases h.lookups.declareFunc_placed hp hpack hparams hok with
    ⟨hnone, hg⟩ | ⟨field, r, ty, mid, data, hfield, hg, hd, hname, hplace, hsig, rfl⟩
  · exact ⟨_, rfl, h.listed hg (.function hnone)⟩
  · have hmid := h.expanded hg
    obtain ⟨hl, hs, hgathers⟩ := hmid.lookups.addMethod
      (List.subset_append_left (log.map Analyzed.item) [.func decl]) hplace.hasRef hd
    have hcount : (mid.graph.addMethod r ty).2.refCount = mid.graph.refCount :=
      TypeGraph.refCount_addMethod _ r ty
    have hmade : ¬mid.Unmade ty := fun hn => hn hsig.hasType
    refine ⟨⟨.func decl, .attached r ty, reg.graph.refCount, mid.graph.refCount⟩, rfl, ?_⟩
    refine hmid.snoc h.lookups.refCount_le (fun b hb => (h.within b hb).2) hcount.ge hl
      hmid.package hs ?_ hgathers ?_
    · exact .attached hfield (hs.types ty data hmade hd) hname (hplace.sustained hs)
        (hsig.sustained hs hmade)
    · obtain ⟨structs, interfaces, hlists, hstructs, hinterfaces⟩ := hmid.lists
      exact ⟨structs, interfaces, hlists, hstructs.snoc fun _ => rfl, hinterfaces.snoc fun _ => rfl⟩

theorem not_leading (h : Covers scope base log reg) {doc : Option Doc} {spec : TypeSpec}
    {start stop : Nat} {target : RefId} (halias : spec.isAlias = true)
    (hb : scope.found? base spec.name = none)
    (hn : spec.name ∉ declared (log.map Analyzed.item))
    (hacyclic : ∀ n, ¬Relation.TransGen
      (Renaming (log.map Analyzed.item ++ [.typeSpec doc spec])) n n)
    (hplace : Place scope (log.map Analyzed.item) reg start stop spec.type target) :
    scope.found? reg spec.name ≠ some (reg.graph.namedRoot target) := by
  intro hf
  have hsub : log.map Analyzed.item ⊆ log.map Analyzed.item ++ [.typeSpec doc spec] :=
    List.subset_append_left _ _
  have hunaliased : Unaliased (log.map Analyzed.item) spec.name := unaliased_of_undeclared hn
  have hsite : View.core.head spec.type ≠ .site :=
    fun hhead => (hplace.site .core hhead).unnamed _ hunaliased hf
  have hbefore : ∀ n, ¬Relation.TransGen (Renaming (log.map Analyzed.item)) n n :=
    fun n hcycle => hacyclic n (Relation.TransGen.mono (fun _ _ => Renaming.mono hsub) _ _ hcycle)
  obtain ⟨t, he⟩ := h.exists_end hbefore (hplace.written .core) hsite
  have hname : Ends .core (log.map Analyzed.item) (.named spec.name []) (.name spec.name) :=
    .name rfl hunaliased
  have hself := h.lookups.of_found hunaliased hf .core
  have hshown : (Terminal.name spec.name).shown? .core scope reg =
      some (reg.graph.namedRoot target) := by
    rw [Terminal.shown?, hf, Option.map_some, hself]
  have hend : t = .name spec.name := by
    rcases h.same_of_shown he hname (h.shown hplace he) hshown with heq | ⟨x, -, hknown⟩
    · exact heq
    · cases hb.symm.trans hknown
  obtain ⟨n, hhead, hsteps⟩ := he.renaming hend
  have hfirst : Renaming (log.map Analyzed.item ++ [.typeSpec doc spec]) spec.name n :=
    ⟨spec.type, mem_aliasesOf.mpr ⟨doc, spec, List.mem_append_right _ (List.mem_singleton_self _),
      halias, rfl, rfl⟩, hhead⟩
  exact hacyclic _ (.head' hfirst
    (Relation.ReflTransGen.mono (fun _ _ => Renaming.mono hsub) _ _ hsteps))

theorem rename (h : Covers scope base log reg) (hp : scope.Plain) {doc : Option Doc}
    {spec : TypeSpec} {target : RefId} (halias : spec.isAlias = true)
    (hparams : Source.declaredNames spec.typeParams = [])
    (hb : scope.found? base spec.name = none)
    (hn : spec.name ∉ declared (log.map Analyzed.item))
    (hacyclic : ∀ n, ¬Relation.TransGen
      (Renaming (log.map Analyzed.item ++ [.typeSpec doc spec])) n n)
    (hread : resolveType scope spec.type reg = .ok target mid) :
    ∃ reg' a, declareTypeSpec scope doc spec reg = .ok () reg' ∧ a.item = .typeSpec doc spec ∧
      Covers scope base (log ++ [a]) reg' := by
  obtain ⟨p, hpack⟩ := h.package
  obtain ⟨hg, hplace⟩ := h.lookups.resolveType_placed hp hpack hread
  have hmid := h.expanded hg
  obtain ⟨p', hpack'⟩ := hmid.package
  obtain ⟨reg', hrename, hr⟩ := hmid.lookups.exists_redirects hb hn hpack' hplace.hasRef
    (hmid.not_leading halias hb hn hacyclic hplace)
  have hitem : Item.alias? (.typeSpec doc spec) = some (spec.name, spec.type) := by
    rw [Item.alias?, if_pos halias]
  have hs : Sustains scope (log.map Analyzed.item) (log.map Analyzed.item ++ [.typeSpec doc spec])
      mid.Unmade mid reg' := .of_redirects hmid.lookups hb hn hr hplace.hasRef hitem
  have hok : declareTypeSpec scope doc spec reg = .ok () reg' := by
    unfold declareTypeSpec
    rw [hparams, hp.withTypeParams_nil, pure_bind, halias]
    exact declareAlias_ok hread hrename
  refine ⟨reg', ⟨.typeSpec doc spec, .renamed target, reg.graph.refCount, mid.graph.refCount⟩,
    hok, rfl, ?_⟩
  refine hmid.snoc h.lookups.refCount_le (fun b hb => (h.within b hb).2) ?_
    (hmid.lookups.redirected hitem hb hn hr) hr.package hs ?_ hr.gathers ?_
  · exact hs.refCount_le
  · exact .renamed halias hr.found (hplace.sustained hs)
  · obtain ⟨structs, interfaces, hlists, hstructs, hinterfaces⟩ := hmid.lists
    exact ⟨structs, interfaces, hr.lists.trans hlists, hstructs.snoc fun _ => rfl,
      hinterfaces.snoc fun _ => rfl⟩

theorem define (h : Covers scope base log reg) (hp : scope.Plain) {doc : Option Doc}
    {spec : TypeSpec} (halias : spec.isAlias = false)
    (hparams : Source.declaredNames spec.typeParams = [])
    (hb : scope.found? base spec.name = none)
    (hn : spec.name ∉ declared (log.map Analyzed.item))
    (hok : declareTypeSpec scope doc spec reg = .ok () reg') :
    ∃ a, a.item = .typeSpec doc spec ∧ Covers scope base (log ++ [a]) reg' := by
  rw [declareTypeSpec_eq_fill scope doc halias, hparams, hp.withTypeParams_nil, pure_bind] at hok
  let kind := kindOf ((spec.doc.or doc).getD []) spec.type
  let after := (reg.declare scope.package spec.name kind).2
  have hfill : fill scope reg.nextType spec.type after = .ok () reg' := hok
  have hnew : spec.name ∈ declared (log.map Analyzed.item ++ [.typeSpec doc spec]) :=
    List.mem_flatMap.mpr ⟨_, List.mem_append_right _ (List.mem_singleton_self _),
      List.mem_singleton_self _⟩
  obtain ⟨structs, interfaces, hlists, hstructs, hinterfaces⟩ := h.lists
  have hlistsAfter := h.lookups.lists?_declare hb hlists ((spec.doc.or doc).getD []) spec.type
  obtain ⟨p, hpack, -⟩ := Option.map_eq_some_iff.mp hlists
  obtain ⟨p', hpack', -⟩ := Option.map_eq_some_iff.mp hlistsAfter
  obtain ⟨owner, data, hl, hs, hgathers, hf, hd, hkind, howner⟩ :=
    h.lookups.declare hb hn hpack (List.subset_append_left _ _) hnew kind
  obtain ⟨hg, kind', hd', hplaced⟩ := hl.fill_placed hp hpack' hd hkind hfill
  have hread := Sustains.of_expands hl hg fun _ hm => hm
  have htotal : Sustains scope (log.map Analyzed.item)
      (log.map Analyzed.item ++ [.typeSpec doc spec]) reg.Unmade reg reg' := by
    refine hs.trans (hread.weaken ?_)
    rintro t (rfl | hfree)
    · exact Nat.lt_irrefl _
    · exact fun ht => hfree (hs.hasType ht)
  refine ⟨⟨.typeSpec doc spec, .defined owner reg.nextType, reg.graph.refCount,
    reg'.graph.refCount⟩, rfl, ?_⟩
  refine h.snoc h.lookups.refCount_le (fun b hb => (h.within b hb).2) le_rfl (hl.expanded hg)
    (hg.package hpack') htotal ?_ (hgathers.trans (hg.gathers hl.sound)) ?_
  · refine .defined halias (hread.table _ hnew _ hf) hd' (fun hdefined => ?_) ?_
    · rw [hplaced.isDefined] at hdefined
      exact howner hdefined
    · exact hplaced.widen hs.refCount_le le_rfl
  · exact ⟨_, _, hg.lists.trans hlistsAfter, hstructs.declare hn, hinterfaces.declare hn⟩

/-- One more item, which can be analyzed somewhere. -/
theorem step (h : Covers scope base log reg) (hp : scope.Plain) (hsimple : item.Simple)
    (hb : ∀ n ∈ item.typeNames, scope.found? base n = none)
    (hn : ∀ n ∈ item.typeNames, n ∉ declared (log.map Analyzed.item))
    (hacyclic : ∀ n, ¬Relation.TransGen (Renaming (log.map Analyzed.item ++ [item])) n n)
    {reg₀ : Registry} (hs : Succeeds (declareItem scope item) reg₀) :
    ∃ reg' a, declareItem scope item reg = .ok () reg' ∧ a.item = item ∧
      Covers scope base (log ++ [a]) reg' := by
  obtain ⟨p, hpack⟩ := h.package
  have hown : ∀ doc spec, item = .typeSpec doc spec → spec.name ∈ item.typeNames := by
    rintro doc spec rfl
    exact List.mem_singleton_self _
  cases item with
  | importSpec spec => exact hsimple.elim
  | typeSpec doc spec =>
    have hname := hown doc spec rfl
    cases halias : spec.isAlias with
    | true =>
      obtain ⟨target, mid, hread⟩ :=
        (declareTypeSpec_carries_alias scope doc halias reg₀ reg hs).eq_ok
      exact h.rename hp halias hsimple (hb _ hname) (hn _ hname) hacyclic hread
    | false =>
      obtain ⟨_, reg', hok⟩ := (declareTypeSpec_carries scope doc halias reg₀ reg hs).eq_ok
      obtain ⟨a, ha, hcovers⟩ := h.define hp halias hsimple (hb _ hname) (hn _ hname) hok
      exact ⟨reg', a, hok, ha, hcovers⟩
  | valueSpec kind doc spec source =>
    obtain ⟨_, reg', hok⟩ := (declareValueSpec_carries scope kind doc spec source reg₀ reg hs).eq_ok
    have hg := (expanding_declareValueSpec hp kind doc spec source reg h.lookups.sound
      (hp.sound hpack)).of_ok hok
    exact ⟨reg', _, hok, rfl, h.listed hg .value⟩
  | func decl =>
    obtain ⟨_, reg', hok⟩ := (declareFunc_carries scope decl reg₀ reg hs).eq_ok
    obtain ⟨a, ha, hcovers⟩ := h.func hp hsimple hok
    exact ⟨reg', a, hok, ha, hcovers⟩

/-- Items one after the other, each of which can be analyzed somewhere. -/
theorem run (h : Covers scope base log reg) (hp : scope.Plain) {items : List Item}
    (hsimple : ∀ item ∈ items, item.Simple)
    (hb : ∀ n ∈ declared items, scope.found? base n = none)
    (honce : (declared (log.map Analyzed.item ++ items)).Nodup)
    (hacyclic : ∀ n, ¬Relation.TransGen (Renaming (log.map Analyzed.item ++ items)) n n)
    (hs : ∀ item ∈ items, ∃ reg₀, Succeeds (declareItem scope item) reg₀) :
    ∃ reg' added, declareItems scope items reg = .ok () reg' ∧
      added.map Analyzed.item = items ∧ Covers scope base (log ++ added) reg' := by
  induction items generalizing log reg with
  | nil => exact ⟨reg, [], rfl, rfl, by rwa [List.append_nil]⟩
  | cons item rest ih =>
    obtain ⟨reg₀, hs₀⟩ := hs item List.mem_cons_self
    have hitems : log.map Analyzed.item ++ item :: rest =
        (log.map Analyzed.item ++ [item]) ++ rest := by
      rw [List.append_assoc, List.singleton_append]
    have hfirst : log.map Analyzed.item ++ [item] ⊆ log.map Analyzed.item ++ item :: rest := by
      rw [hitems]
      exact List.subset_append_left _ _
    have hfresh : ∀ n ∈ item.typeNames, n ∉ declared (log.map Analyzed.item) := by
      intro n hn hold
      rw [declared, List.flatMap_append, List.flatMap_cons] at honce
      exact (List.nodup_append.mp honce).2.2 n hold n (List.mem_append_left _ hn) rfl
    obtain ⟨mid, a, hok, rfl, hcovers⟩ := h.step hp (hsimple item List.mem_cons_self)
      (fun n hn => hb n (List.mem_flatMap.mpr ⟨item, List.mem_cons_self, hn⟩)) hfresh
      (fun n hcycle => hacyclic n
        (Relation.TransGen.mono (fun _ _ => Renaming.mono hfirst) _ _ hcycle)) hs₀
    rw [hitems, ← List.map_singleton, ← List.map_append] at honce hacyclic
    obtain ⟨reg', added, hrest, hadded, hend⟩ := ih hcovers
      (fun item hm => hsimple item (List.mem_cons_of_mem _ hm))
      (fun n hn => hb n (declared_mono (List.subset_cons_self _ _) hn)) honce hacyclic
      fun item hm => hs item (List.mem_cons_of_mem _ hm)
    refine ⟨reg', a :: added, ?_, by rw [List.map_cons, hadded], ?_⟩
    · rw [declareItems, bind_eq_of_ok hok]
      exact hrest
    · rwa [List.append_assoc, List.singleton_append] at hend

end Covers

end

end GoPackages
