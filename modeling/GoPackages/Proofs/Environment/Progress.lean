import GoPackages.Proofs.Environment.Tracks

/-!
# One item after the other

Each item of a file keeps the table of its package in step with the record, and what the item
is recorded as denotes its types by the names that the tables have afterwards.
-/
namespace GoPackages

open Source (TypeExpr TypeSpec ValueSpec FuncDecl GroupKind)
open Registry (Extends Later builtinId)

def fileScope (pkg : PackageId) (decodeTag : TagDecoder) (aliases : OrderedMap PackageId) :
    FileScope where
  package := pkg
  decodeTag
  dotImports := [builtinId]
  aliases

/-- Names that are no type parameters are those of the package or the predeclared ones. -/
def tableNames (pkg : PackageId) (reg : Registry) (params : List String) : Meaning where
  bare n r := n ∉ params → reg.ref? pkg n = some r ∨ reg.ref? builtinId n = some r
  qualified _ _ _ := True

/-- What a step adds to the record. It may declare the types `decls`. -/
structure Progress (pkg : PackageId) (names : List String) (base : Package)
    (decls : List String) (log new : List Listed) (p p' : Package) (reg reg' : Registry) :
    Prop where
  tracks : Tracks pkg names base (log ++ new) p' reg'
  later : Later reg reg'
  types : ∀ n, n ∉ decls → p'.types.get? n = p.types.get? n

section

variable {pkg : PackageId} {names decls decls' : List String} {base p mid p' : Package}
  {log new new' : List Listed} {reg regm reg' : Registry} {decodeTag : TagDecoder}
  {aliases : OrderedMap PackageId}

theorem Progress.trans (h : Progress pkg names base decls log new p mid reg regm)
    (h' : Progress pkg names base decls' (log ++ new) new' mid p' regm reg') :
    Progress pkg names base (decls ++ decls') log (new ++ new') p p' reg reg' where
  tracks := List.append_assoc log new new' ▸ h'.tracks
  later := h.later.trans h'.later
  types n hn := by
    have hd : n ∉ decls := fun h => hn (List.mem_append_left _ h)
    have hd' : n ∉ decls' := fun h => hn (List.mem_append_right _ h)
    exact (h'.types n hd').trans (h.types n hd)

theorem Progress.free (h : Progress pkg names base decls log new p p' reg reg')
    (hfree : ∀ n ∈ decls ++ decls', n ∈ names ∧ p.types.get? n = none)
    (hdisjoint : ∀ n ∈ decls, ∀ n' ∈ decls', n ≠ n') :
    ∀ n ∈ decls', n ∈ names ∧ p'.types.get? n = none := by
  intro n hn
  obtain ⟨hmem, hnone⟩ := hfree n (List.mem_append_right _ hn)
  refine ⟨hmem, (h.types n fun hd => ?_).trans hnone⟩
  exact hdisjoint n hd n hn rfl

theorem Tracks.progress_refl (h : Tracks pkg names base log p reg) :
    Progress pkg names base [] log [] p p reg reg :=
  ⟨(List.append_nil log).symm ▸ h, .refl reg, fun _ _ => rfl⟩

theorem Tracks.progress_read (h : Tracks pkg names base log p reg)
    (hx : Extends pkg reg.Unmade reg reg') :
    ∃ p', Progress pkg names base [] log [] p p' reg reg' := by
  obtain ⟨refs, h'⟩ := h.read hx
  exact ⟨{ p with refs }, (List.append_nil log).symm ▸ h', hx.later hx.keeps_all, fun _ _ => rfl⟩

theorem tableNames_later (h : Later reg reg') (params : List String) :
    (tableNames pkg reg params).Refines (tableNames pkg reg' params) where
  bare n r hr hn := (hr hn).imp (h.refs pkg n r) (h.refs builtinId n r)
  qualified _ _ _ h := h

theorem bare_of_lookup {scope : FileScope} {n : String} {r : RefId}
    (hn : n ∉ scope.typeParams.map Prod.fst) (h : (scope.meaning reg).bare n r) :
    ∃ q ∈ scope.package :: scope.dotImports, reg.ref? q n = some r := by
  have hl : scope.typeParams.lookup n = none := by
    refine List.lookup_eq_none_iff.mpr fun e he => ?_
    rw [bne_iff_ne]
    rintro rfl
    exact hn (List.mem_map_of_mem he)
  unfold FileScope.meaning at h
  dsimp only at h
  rwa [hl] at h

theorem mem_of_bare {scope : FileScope} {n : String} {r : RefId}
    (hn : n ∈ scope.typeParams.map Prod.fst) (h : (scope.meaning reg).bare n r) :
    (n, r) ∈ scope.typeParams := by
  unfold FileScope.meaning at h
  dsimp only at h
  split at h
  next s hl =>
    obtain ⟨front, back, heq, -⟩ := List.lookup_eq_some_iff.mp hl
    rw [heq, h]
    exact List.mem_append_right front List.mem_cons_self
  next hl =>
    obtain ⟨e, he, rfl⟩ := List.mem_map.mp hn
    exact absurd rfl (bne_iff_ne.mp (List.lookup_eq_none_iff.mp hl e he))

theorem meaning_tableNames (params : List (String × RefId)) :
    (FileScope.meaning { fileScope pkg decodeTag aliases with typeParams := params } reg).Refines
      (tableNames pkg reg (params.map Prod.fst)) where
  bare n r h hn := by
    obtain ⟨q, hq, hr⟩ := bare_of_lookup hn h
    rcases List.mem_cons.mp hq with rfl | hq
    · exact .inl hr
    · rw [List.mem_singleton.mp hq] at hr
      exact .inr hr
  qualified _ _ _ _ := trivial

theorem isDefined_of_kindDenotes {g : TypeGraph} {m : Meaning} {type : TypeExpr}
    {kind : TypeKind} (h : KindDenotes g m type kind) (doc : Doc) :
    kind.isDefined = (kindOf doc type).isDefined := by
  cases type with
  | struct fields =>
    obtain ⟨t, rfl, -⟩ := h
    rfl
  | interface elems =>
    obtain ⟨t, methods, rfl, -⟩ := h
    rfl
  | _ => exact congrArg TypeKind.isDefined h

theorem typeSpec_progress (h : Tracks pkg names base log p reg)
    (hs : (fileScope pkg decodeTag aliases).Sound reg) {doc : Option Doc} {spec : TypeSpec}
    (ha : spec.isAlias = false) (hn : spec.name ∈ names)
    (hfree : p.types.get? spec.name = none)
    (hok : declareTypeSpec (fileScope pkg decodeTag aliases) doc spec reg = .ok () reg') :
    ∃ ty kind p', Progress pkg names base [spec.name] log [.type spec ty] p p' reg reg' ∧
      reg'.graph.kind? ty = some kind ∧
      KindDenotes reg'.graph (tableNames pkg reg' (Source.declaredNames spec.typeParams))
        spec.type kind := by
  obtain ⟨mid, ⟨hbefore, hafter⟩, data, params, kind, hd, hd', hparams, hkind⟩ :=
    (declareTypeSpec_defines h.sound hs doc ha).of_ok hok
  obtain ⟨refs, hmid⟩ := h.read hbefore
  obtain ⟨hlater, p₁, hdecl, htypes⟩ :=
    hmid.declare ((spec.doc.or doc).getD []) hn hfree
  have hmade := Registry.declare_typeAt? mid pkg spec.name
    (kindOf ((spec.doc.or doc).getD []) spec.type)
  obtain ⟨refs', htracks⟩ := hdecl.extended hafter fun t data' ht => by
    by_cases htn : t = mid.nextType
    · subst htn
      obtain rfl : data = data' := Option.some.inj (hd.symm.trans ht)
      refine ⟨kind, hd', ?_⟩
      obtain rfl := Option.some.inj (hd.symm.trans hmade)
      exact isDefined_of_kindDenotes hkind _
    · refine ⟨data'.kind, hafter.types t data' ?_ ht, rfl⟩
      rintro (heq | hun)
      · exact htn heq
      · exact hun (TypeGraph.hasType_of_typeAt? ht)
  refine ⟨mid.nextType, kind, _, ⟨htracks, ?_, fun n hd => ?_⟩, Registry.kind?_of_typeAt? hd', ?_⟩
  · refine ((hbefore.later hbefore.keeps_all).trans hlater).then_extends hafter ?_
    rintro t ht (rfl | hun)
    · exact Nat.lt_irrefl _ (hbefore.hasType ht)
    · exact hun (hlater.hasType (hbefore.hasType ht))
  · have hne : spec.name ≠ n := fun heq => hd (List.mem_singleton.mpr heq.symm)
    exact (congrArg (·.get? n) htypes).trans (DeclList.get?_declare_of_ne hne _ _)
  · rw [← hparams]
    exact hkind.mono (.refl 0 _) (meaning_tableNames params)

theorem Tracks.progress_value (h : Tracks pkg names base log p reg)
    (hx : Extends pkg reg.Unmade reg reg') (kind : GroupKind) (v : Variable) :
    ∃ p', Progress pkg names base [] log [.value kind v] p p' reg (listValue reg' pkg kind v) := by
  obtain ⟨refs, hread⟩ := h.read hx
  have htypes : (Listed.record { p with refs } (.value kind v)).types = p.types := by
    by_cases hk : kind = .consts <;> simp only [Listed.record, hk] <;> rfl
  have hlist := hread.list (l := .value kind v) (listValue_refs kind v) htypes
    (fun _ _ heq => by cases heq) fun _ => rfl
  refine ⟨_, hlist, (hx.later hx.keeps_all).trans ?_, fun n _ => by rw [htypes]⟩
  refine Registry.later_modifyPackage reg' pkg fun p => ?_
  split <;> exact ⟨rfl, rfl, rfl⟩

theorem valuesRead_progress {kind : GroupKind} {vs : List Variable}
    (hv : ValuesRead pkg kind reg vs reg') (h : Tracks pkg names base log p reg) :
    ∃ p', Progress pkg names base [] log (vs.map (.value kind)) p p' reg reg' := by
  induction hv generalizing log p with
  | nil reg => exact ⟨p, h.progress_refl⟩
  | @cons reg mid reg' v vs hx _ ih =>
    obtain ⟨p₁, h₁⟩ := h.progress_value hx kind v
    obtain ⟨p₂, h₂⟩ := ih h₁.tracks
    exact ⟨p₂, h₁.trans h₂⟩

theorem valueSpec_progress (h : Tracks pkg names base log p reg)
    (hs : (fileScope pkg decodeTag aliases).Sound reg) {kind : GroupKind} {doc : Option Doc}
    {spec source : ValueSpec}
    (hok : declareValueSpec (fileScope pkg decodeTag aliases) kind doc spec source reg =
      .ok () reg') :
    ∃ vs p', Progress pkg names base [] log (vs.map (.value kind)) p p' reg reg' ∧
      List.Forall₂ (PlaceDenotes reg'.graph (tableNames pkg reg' []))
        (placesFrom source 0 spec.names) vs := by
  obtain ⟨mid, vs, hx, hvs, hplaces⟩ :=
    (declareValueSpec_reads h.sound hs kind doc spec source).of_ok hok
  obtain ⟨p₁, h₁⟩ := h.progress_read hx
  obtain ⟨p₂, h₂⟩ := valuesRead_progress hvs h₁.tracks
  refine ⟨vs, p₂, h₁.trans h₂, hplaces.imp fun place v hp => ?_⟩
  exact hp.mono (.refl 0 _) (meaning_tableNames [])

section

variable (h : Tracks pkg names base log p reg) {params : List (String × RefId)} {type : TypeExpr}
  {s r : RefId} {n : String}

include h

theorem unwritten_ne_root {lo : Nat} (hover : reg.graph.Over s r)
    (hs : reg.graph.Unwritten lo s) (hn : n ∈ names)
    (hold : ∀ n ∈ names, ∀ ty, p.types.get? n = some ty → ty.index < lo) :
    reg.ref? pkg n ≠ some (reg.graph.namedRoot r) := by
  rcases hs with rfl | ⟨e, ty, he, ht, hlo⟩
  · obtain ⟨e, he, he'⟩ := h.bottom
    exact h.ref?_ne_root hover he he'
  · rw [hover.namedRoot he]
    intro hr
    obtain ⟨-, -, hown⟩ := h.own_entry hr he
    exact absurd hlo (Nat.not_le_of_lt (hold n hn ty ((hown hn).1.symm.trans ht)))

theorem ownerName_bare_iff {k : String} (hw : writtenName? type = some (none, k))
    (hpkg : builtinId ≠ pkg) (hmade : TypeParamsMade reg params) (hover : reg.graph.Over s r)
    (hstands : (FileScope.meaning
      { fileScope pkg decodeTag aliases with typeParams := params } reg).bare k s)
    (hbuiltin : reg.ref? builtinId n = none) :
    ownerName pkg aliases (params.map Prod.fst) type = some n ↔
      reg.ref? pkg n = some (reg.graph.namedRoot r) := by
  rw [ownerName_bare hw]
  by_cases hk : k ∈ params.map Prod.fst
  · rw [if_pos hk]
    obtain ⟨⟨e, he⟩, htable⟩ := hmade k s (mem_of_bare hk hstands)
    rw [hover.namedRoot he]
    exact ⟨fun heq => (by cases heq), fun hr => absurd hr (htable pkg n)⟩
  · rw [if_neg hk, Option.some.injEq]
    obtain ⟨q, hq, hr⟩ := bare_of_lookup hk hstands
    rcases List.mem_cons.mp hq with rfl | hq
    · exact h.ref?_eq_root_iff hover hr
    · rw [List.mem_singleton.mp hq] at hr
      obtain ⟨e, he, he'⟩ := h.foreign builtinId k s hpkg hr
      refine ⟨?_, fun hr' => absurd hr' (h.ref?_ne_root hover he he')⟩
      rintro rfl
      cases hbuiltin.symm.trans hr

theorem ownerName_qualified_iff {qualifier k : String} {q : PackageId}
    (hw : writtenName? type = some (some (.ident qualifier), k))
    (hq : aliases.get? qualifier = some q) (hover : reg.graph.Over s r)
    (hs : reg.ref? q k = some s) :
    ownerName pkg aliases (params.map Prod.fst) type = some n ↔
      reg.ref? pkg n = some (reg.graph.namedRoot r) := by
  rw [ownerName_qualified hw]
  by_cases hqp : q = pkg
  · subst hqp
    rw [if_pos hq, Option.some.injEq]
    exact h.ref?_eq_root_iff hover hs
  · have hne : aliases.get? qualifier ≠ some pkg := fun heq =>
      hqp (Option.some.inj (hq.symm.trans heq))
    rw [if_neg hne]
    obtain ⟨e, he, he'⟩ := h.foreign q k s hqp hs
    exact ⟨fun heq => (by cases heq), fun hr => absurd hr (h.ref?_ne_root hover he he')⟩

/-- The name of a receiver is recorded where its reference leads to that name. -/
theorem ownerName_iff {lo : Nat} (hpkg : builtinId ≠ pkg)
    (hold : ∀ n ∈ names, ∀ ty, p.types.get? n = some ty → ty.index < lo)
    (hmade : TypeParamsMade reg params)
    (hd : Denotes reg.graph lo (FileScope.meaning
      { fileScope pkg decodeTag aliases with typeParams := params } reg) type r) :
    ∀ n ∈ names, reg.ref? builtinId n = none →
      (ownerName pkg aliases (params.map Prod.fst) type = some n ↔
        reg.ref? pkg n = some (reg.graph.namedRoot r)) := by
  intro n hn hbuiltin
  obtain ⟨s, hover, hwritten, hunwritten⟩ := hd.core
  cases hw : writtenName? type with
  | none =>
    rw [ownerName_unwritten hw]
    have hne := unwritten_ne_root h hover (hunwritten hw) hn hold
    exact ⟨fun heq => (by cases heq), fun hr => absurd hr hne⟩
  | some written =>
    have hstands := hwritten written hw
    obtain ⟨qualifier, k⟩ := written
    cases qualifier with
    | none => exact ownerName_bare_iff h hw hpkg hmade hover hstands hbuiltin
    | some base =>
      obtain ⟨qualifier, q, rfl, hq, hs⟩ := hstands
      exact ownerName_qualified_iff h hw hq hover hs

omit h

end

theorem func_progress (h : Tracks pkg names base log p reg)
    (hs : (fileScope pkg decodeTag aliases).Sound reg) {decl : FuncDecl}
    (hpkg : builtinId ≠ pkg)
    (hok : declareFunc (fileScope pkg decodeTag aliases) decl reg = .ok () reg') :
    ∃ ty p', Progress pkg names base [] log [listedFunc pkg aliases decl ty] p p' reg reg' ∧
      FuncDenotes reg'.graph (tableNames pkg reg' (typeParamNames decl)) decl ty := by
  obtain ⟨mid, params, ty, t, hf, rfl⟩ := (declareFunc_reads h.sound hs decl).of_ok hok
  have hx : Extends pkg reg.Unmade reg mid := hf.read
  obtain ⟨refs, hmid⟩ := h.read hx
  obtain ⟨data, hd, hname⟩ := hf.named
  have hlater := hx.later hx.keeps_all
  have hkind : mid.graph.kind? ty = some (.method t) := hf.signature.kind
  have hdenotes : ∀ reg', Later mid reg' →
      FuncDenotes reg'.graph (tableNames pkg reg' (typeParamNames decl)) decl ty := by
    intro reg' hl
    have hfunc : FuncDenotes mid.graph (tableNames pkg mid (typeParamNames decl)) decl ty := by
      rw [← hf.names]
      refine ⟨t, ?_, ?_⟩
      · exact hf.receiver.mono (.refl _ _) (Nat.zero_le _) (meaning_tableNames params)
      · exact hf.signature.mono (.refl _ _) (Nat.zero_le _) (meaning_tableNames params)
    exact hfunc.mono hl.keeps (tableNames_later hl _)
  have hreceiver := hf.receiver
  cases hdecl : decl.receiver with
  | none =>
    rw [hdecl] at hreceiver
    have hnone : t.receiver = none := hreceiver
    have hlist := hmid.list (l := .function decl.name ty) (fun _ => rfl) rfl
      (fun _ _ heq => by cases heq) fun _ => rfl
    have hl := Registry.later_modifyPackage mid pkg (f := (·.declareFunction decl.name ty))
      fun _ => ⟨rfl, rfl, rfl⟩
    simp only [hnone, attach, listedFunc, hdecl]
    exact ⟨ty, _, ⟨hlist, hlater.trans hl, fun _ _ => rfl⟩, hdenotes _ hl⟩
  | some field =>
    rw [hdecl] at hreceiver
    obtain ⟨r, ho, hr⟩ := hreceiver
    simp only [ho, attach]
    have howner := ownerName_iff hmid hpkg h.declared_lt hf.made hr
    have hattached := hmid.attached (hf.owner _ ho) hd howner
    have hl : Later mid (mid.withGraph fun g => (g.addMethod r ty).2) :=
      Registry.later_withGraph (TypeGraph.keeps_addMethod mid.graph r ty)
    rw [hf.names, hname] at hattached
    simp only [listedFunc, hdecl]
    exact ⟨ty, _, ⟨hattached, hlater.trans hl, fun _ _ => rfl⟩, hdenotes _ hl⟩

end

end GoPackages
