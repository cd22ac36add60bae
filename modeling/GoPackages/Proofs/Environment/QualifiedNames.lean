import GoPackages.Proofs.Environment.Gains
import GoPackages.Proofs.Environment.Quiet

/-!
# Qualified names in the items of a file

The items of a file beside what they were recorded as, where a qualified name stands for a
reference that leads to the entry its package has for the name. The qualifiers change from one
item to the next. Whatever is declared later, here or in other packages, the records stay valid.
-/
namespace GoPackages

open Source (ImportSpec TypeSpec ValueSpec FuncDecl TypeExpr GroupKind)
open Registry (Adds Course Leads Meant Naming Once Tabled builtinId)

/-- What qualified names stand for where `aliases` are the qualifiers. -/
def qualifiedNames (reg : Registry) (aliases : OrderedMap PackageId) : Meaning where
  bare _ _ := True
  qualified base n r := ∃ qualifier q, base = .ident qualifier ∧
    aliases.get? qualifier = some q ∧ reg.graph.HasRef r ∧ reg.LeadsTo q n r

/-- What an item is recorded as, and the qualifiers before and after it. -/
inductive ItemRecorded (locate : String → Except Error PackageInfo) (reg : Registry)
    (pkg : PackageId) (declares : String → Meant → Prop) :
    OrderedMap PackageId → Item → List Listed → OrderedMap PackageId → Prop where
  | importSpec {aliases aliases' spec} : Imported locate reg spec aliases aliases' →
      ItemRecorded locate reg pkg declares aliases (.importSpec spec) [] aliases'
  | defined {aliases doc spec ty kind} : spec.isAlias = false → declares spec.name (.type ty) →
      reg.graph.kind? ty = some kind →
      KindDenotes reg.graph (qualifiedNames reg aliases) spec.type kind →
      ItemRecorded locate reg pkg declares aliases (.typeSpec doc spec) [.type spec ty] aliases
  | renamed {aliases doc spec target} : spec.isAlias = true →
      declares spec.name (.alias target) →
      Denotes reg.graph 0 (qualifiedNames reg aliases) spec.type target →
      ItemRecorded locate reg pkg declares aliases (.typeSpec doc spec) [] aliases
  | valueSpec {aliases kind doc spec source vs} :
      List.Forall₂ (PlaceDenotes reg.graph (qualifiedNames reg aliases))
        (placesFrom source 0 spec.names) vs →
      ItemRecorded locate reg pkg declares aliases (.valueSpec kind doc spec source)
        (vs.map (.value kind)) aliases
  | func {aliases decl ty} : FuncDenotes reg.graph (qualifiedNames reg aliases) decl ty →
      ItemRecorded locate reg pkg declares aliases (.func decl) [listedFunc pkg aliases decl ty]
        aliases

inductive BodyRecorded (locate : String → Except Error PackageInfo) (reg : Registry)
    (pkg : PackageId) (declares : String → Meant → Prop) :
    OrderedMap PackageId → List Item → List Listed → Prop where
  | nil (aliases : OrderedMap PackageId) : BodyRecorded locate reg pkg declares aliases [] []
  | cons {aliases aliases' item rest log log'} :
      ItemRecorded locate reg pkg declares aliases item log aliases' →
      BodyRecorded locate reg pkg declares aliases' rest log' →
      BodyRecorded locate reg pkg declares aliases (item :: rest) (log ++ log')

namespace Registry

/-- What the records rely on: what was read stays, and what was one name stays one. -/
structure Lasting (reg reg' : Registry) : Prop where
  keeps : TypeGraph.Keeps 0 reg.graph reg'.graph
  leads : Leads reg reg'

variable {reg reg' : Registry}

theorem Lasting.refl (hr : reg.Sound) : Lasting reg reg := ⟨.refl 0 _, .refl hr⟩

theorem Lasting.trans {mid : Registry} (h : Lasting reg mid) (h' : Lasting mid reg')
    (hr : reg.Sound) : Lasting reg reg' :=
  ⟨h.keeps.trans h'.keeps, h.leads.trans h'.leads hr⟩

end Registry

open Registry (Lasting)

section Later

variable {locate : String → Except Error PackageInfo} {reg reg' : Registry} {pkg : PackageId}
  {declares declares' : String → Meant → Prop} {aliases aliases' : OrderedMap PackageId}

theorem qualifiedNames_later (hr : reg.Sound) (hl : Leads reg reg')
    (aliases : OrderedMap PackageId) :
    (qualifiedNames reg aliases).Refines (qualifiedNames reg' aliases) where
  bare _ _ h := h
  qualified _ _ r := fun ⟨qualifier, q, hb, hq, hhas, hleads⟩ =>
    ⟨qualifier, q, hb, hq, hl.refs r hhas, hleads.later hr hhas hl⟩

theorem meaning_qualifiedNames (hr : reg.Sound) (scope : FileScope) :
    (scope.meaning reg).Refines (qualifiedNames reg scope.aliases) where
  bare _ _ _ := trivial
  qualified _ n r := fun ⟨qualifier, q, hb, hq, href⟩ =>
    ⟨qualifier, q, hb, hq, hr.refs q n r href, r, href, rfl⟩

theorem ItemRecorded.mono {item : Item} {log : List Listed}
    (h : ItemRecorded locate reg pkg declares aliases item log aliases') (hr : reg.Sound)
    (hl : Lasting reg reg') (hd : ∀ n m, declares n m → declares' n m) :
    ItemRecorded locate reg' pkg declares' aliases item log aliases' := by
  have hm := fun aliases => qualifiedNames_later hr hl.leads aliases
  cases h with
  | importSpec hi =>
    obtain ⟨info, q, p, hlocate, hpath, hp, ha⟩ := hi
    obtain ⟨p', hp', hname, -⟩ := hl.leads.identity q p hp
    refine .importSpec ⟨info, q, p', hlocate, ?_, hp', hname ▸ ha⟩
    refine Registry.byPath?_mono (fun q p hp => ?_) hpath
    obtain ⟨p', hp', -, hpath⟩ := hl.leads.identity q p hp
    exact ⟨p', hp', hpath⟩
  | defined ha hdecl hkind hdenotes =>
    exact .defined ha (hd _ _ hdecl) (hl.keeps.kinds _ _ (Nat.zero_le _) hkind)
      (hdenotes.mono hl.keeps (hm _))
  | renamed ha hdecl hdenotes =>
    exact .renamed ha (hd _ _ hdecl) (hdenotes.mono hl.keeps le_rfl (hm _))
  | valueSpec hplaces => exact .valueSpec (hplaces.imp fun _ _ hp => hp.mono hl.keeps (hm _))
  | func hf => exact .func (hf.mono hl.keeps (hm _))

theorem BodyRecorded.mono {items : List Item} {log : List Listed}
    (h : BodyRecorded locate reg pkg declares aliases items log) (hr : reg.Sound)
    (hl : Lasting reg reg') (hd : ∀ n m, declares n m → declares' n m) :
    BodyRecorded locate reg' pkg declares' aliases items log := by
  induction h with
  | nil aliases => exact .nil aliases
  | cons hi _ ih => exact .cons (hi.mono hr hl hd) ih

/-- As long as no name is declared twice, a step in the analysis of a package invalidates no
record. -/
theorem Gains.lasting {named new : List Naming} {log : List Listed}
    (h : Gains pkg new log reg reg') (ht : Tabled named reg) (honce : Once (named ++ new))
    (hpkg : pkg ≠ builtinId) : Lasting reg reg' where
  keeps := {
    decorated := (h.course.leads ht.sound).decorated
    bound := h.course.bound ht honce fun d hd => h.own d hd ▸ hpkg
    kinds := fun ty kind _ => h.kinds ty kind }
  leads := h.course.leads ht.sound

theorem Gains.lasting_of_nil {log : List Listed} (h : Gains pkg [] log reg reg')
    (hr : reg.Sound) : Lasting reg reg' where
  keeps := {
    decorated := (h.course.leads hr).decorated
    bound := fun r e ty he hty => by
      obtain ⟨methods, he'⟩ := h.course.adds_of_nil.spares.names r e he
      exact ⟨_, he', hty⟩
    kinds := fun ty kind _ => h.kinds ty kind }
  leads := h.course.leads hr

end Later

section Declarations

variable {scope : FileScope} {reg reg' : Registry} {doc : Option Doc} {spec : TypeSpec}

theorem defined_gains (hr : reg.Sound) (hs : scope.Sound reg) (ha : spec.isAlias = false)
    (hok : declareTypeSpec scope doc spec reg = .ok () reg') : ∃ ty kind,
      Gains scope.package [⟨scope.package, spec.name, .type ty⟩] [.type spec ty] reg reg' ∧
      reg'.graph.kind? ty = some kind ∧
      KindDenotes reg'.graph (qualifiedNames reg' scope.aliases) spec.type kind := by
  obtain ⟨mid, ⟨hbefore, hafter⟩, data, params, kind, -, hd, -, hkind⟩ :=
    (declareTypeSpec_defines hr hs doc ha).of_ok hok
  have hread := Gains.of_extends hbefore
  have hmade := hread.trans
    (.of_declare (hread.registered hs.package) spec ((spec.doc.or doc).getD [])) hs.package
  have hgains := hmade.then_extends hafter fun ty ht hfree => by
    rcases hfree with rfl | hunmade
    · exact Nat.lt_irrefl _ (hbefore.hasType ht)
    · exact hunmade (hmade.hasType ht)
  have hr' := (hgains.course.leads hr).sound
  refine ⟨mid.nextType, kind, hgains, Registry.kind?_of_typeAt? hd, ?_⟩
  exact hkind.mono (.refl 0 _)
    (meaning_qualifiedNames hr' { scope with typeParams := params })

theorem renamed_gains (hr : reg.Sound) (hs : scope.Sound reg) (hpkg : scope.package ≠ builtinId)
    (ha : spec.isAlias = true) (hok : declareTypeSpec scope doc spec reg = .ok () reg') :
    ∃ target, Gains scope.package [⟨scope.package, spec.name, .alias target⟩] [] reg reg' ∧
      ∀ named, Tabled named reg →
        Once (named ++ [⟨scope.package, spec.name, .alias target⟩]) →
        Denotes reg'.graph 0 (qualifiedNames reg' scope.aliases) spec.type target := by
  unfold declareTypeSpec at hok
  simp only [ha, if_true] at hok
  obtain ⟨inner, opened, hopen, hok⟩ := bind_ok hok
  obtain ⟨hx, hsi, params, rfl, -⟩ := (withTypeParams_total hr hs _).of_ok hopen
  obtain ⟨target, read, hread, hrename⟩ := Registry.rename?_of_declareAlias hok
  obtain ⟨hx', htarget, hdenotes⟩ := (resolveType_reads (hx.sound hr) hsi spec.type).of_ok hread
  have hbefore := (Gains.of_extends hx).trans (.of_extends hx') hs.package
  have hsound := hx'.sound (hx.sound hr)
  have hrenamed := Gains.of_rename hsound (hbefore.registered hs.package) htarget hrename
  refine ⟨target, hbefore.trans hrenamed hs.package, fun named ht honce => ?_⟩
  have htabled : Tabled named read := (ht.adds (.of_extends hx)).adds (.of_extends hx')
  have hlasting := hrenamed.lasting htabled honce hpkg
  have hqualified := hdenotes.mono (.refl _ _) (Nat.zero_le _)
    (meaning_qualifiedNames hsound { scope with typeParams := params })
  exact hqualified.mono hlasting.keeps le_rfl (qualifiedNames_later hsound hlasting.leads _)

theorem valueSpec_gains (hr : reg.Sound) (hs : scope.Sound reg) {kind : GroupKind}
    {spec source : ValueSpec}
    (hok : declareValueSpec scope kind doc spec source reg = .ok () reg') : ∃ vs,
      Gains scope.package [] (vs.map (.value kind)) reg reg' ∧
      List.Forall₂ (PlaceDenotes reg'.graph (qualifiedNames reg' scope.aliases))
        (placesFrom source 0 spec.names) vs := by
  obtain ⟨mid, vs, hx, hvs, hplaces⟩ :=
    (declareValueSpec_reads hr hs kind doc spec source).of_ok hok
  have hread := Gains.of_extends hx
  have hgains := hread.trans (.of_values hvs (hread.registered hs.package)) hs.package
  have hr' := (hgains.course.leads hr).sound
  exact ⟨vs, hgains, hplaces.imp fun _ _ hp =>
    hp.mono (.refl 0 _) (meaning_qualifiedNames hr' scope)⟩

theorem func_gains (hr : reg.Sound) (hs : scope.Sound reg) {decl : FuncDecl}
    (hok : declareFunc scope decl reg = .ok () reg') : ∃ ty,
      Gains scope.package [] [listedFunc scope.package scope.aliases decl ty] reg reg' ∧
      FuncDenotes reg'.graph (qualifiedNames reg' scope.aliases) decl ty := by
  obtain ⟨mid, params, ty, t, hf, rfl⟩ := (declareFunc_reads hr hs decl).of_ok hok
  obtain ⟨data, hd, -⟩ := hf.named
  have hmid := hf.read.sound hr
  have hread := Gains.of_extends hf.read
  have hreceiver := hf.receiver
  have hattach : Gains scope.package [] [listedFunc scope.package scope.aliases decl ty] mid
      (attach scope.package decl.name ty t.receiver mid) := by
    refine .of_attach hf.owner (TypeGraph.hasType_of_typeAt? hd) fun p => ?_
    unfold listedFunc
    cases hdecl : decl.receiver with
    | none =>
      rw [hdecl] at hreceiver
      rw [show t.receiver = none from hreceiver]
      rfl
    | some field =>
      rw [hdecl] at hreceiver
      obtain ⟨r, ho, -⟩ := hreceiver
      rw [ho]
      rfl
  have hlasting := hattach.lasting_of_nil hmid
  have hm := (meaning_qualifiedNames hmid { scope with typeParams := params })
  have hfunc : FuncDenotes mid.graph (qualifiedNames mid scope.aliases) decl ty :=
    ⟨t, hf.receiver.mono (.refl _ _) (Nat.zero_le _) hm,
      hf.signature.mono (.refl _ _) (Nat.zero_le _) hm⟩
  exact ⟨ty, hread.trans hattach hs.package,
    hfunc.mono hlasting.keeps (qualifiedNames_later hmid hlasting.leads _)⟩

end Declarations

def declaredIn (pkg : PackageId) (named : List Naming) (n : String) (m : Meant) : Prop :=
  ⟨pkg, n, m⟩ ∈ named

/-- What a task in the analysis of `pkg` comes to. The records hold where no name is declared
twice. -/
structure Advances (pkg : PackageId) (names : List String)
    (Records : (String → Meant → Prop) → List Listed → Prop) (new : List Naming)
    (log : List Listed) (reg reg' : Registry) : Prop where
  gains : Gains pkg new log reg reg'
  names : (new.map Naming.name).Sublist names
  records : ∀ named, Tabled named reg → Once (named ++ new) →
    Records (declaredIn pkg (named ++ new)) log

section Items

variable {pkg : PackageId} {names names' : List String} {new new' : List Naming}
  {log log' : List Listed} {reg mid reg' : Registry}
  {Records Records' Records'' : (String → Meant → Prop) → List Listed → Prop}

theorem Advances.trans (h : Advances pkg names Records new log reg mid)
    (h' : Advances pkg names' Records' new' log' mid reg') (hpkg : reg.Registered pkg)
    (hb : pkg ≠ builtinId)
    (hjoin : ∀ declares declares' : String → Meant → Prop, mid.Sound → Lasting mid reg' →
      (∀ n m, declares n m → declares' n m) → Records declares log → Records' declares' log' →
      Records'' declares' (log ++ log')) :
    Advances pkg (names ++ names') Records'' (new ++ new') (log ++ log') reg reg' where
  gains := h.gains.trans h'.gains hpkg
  names := by
    rw [List.map_append]
    exact h.names.append h'.names
  records named ht honce := by
    rw [← List.append_assoc] at honce ⊢
    have hmid := h.gains.course.tabled ht honce.of_append_left
    exact hjoin _ _ hmid.sound (h'.gains.lasting hmid honce hb)
      (fun _ _ hm => List.mem_append_left _ hm) (h.records named ht honce.of_append_left)
      (h'.records _ hmid honce)

variable {env env' : Environment} {enter : PackageId → Session Unit} {scope scope' : FileScope}

theorem ensurePackage_gains {info : PackageInfo} {q : PackageId}
    (h : Session.ensurePackage info env = .ok q env') (pkg : PackageId) :
    Gains pkg [] [] env.registry env'.registry ∧
      env'.registry.byPath? info.importPath = some q := by
  obtain ⟨reg, hensure, rfl⟩ := Session.ensurePackage_ok h
  obtain ⟨hpath, hgrown⟩ := Registry.ensurePackage_ok hensure
  refine ⟨?_, hpath⟩
  rcases hgrown with rfl | happend
  · exact .refl _ _
  · exact .of_append _ happend

theorem importSpec_recorded {spec : ImportSpec} (hdot : spec.name ≠ some .dot)
    (hok : importSpec enter scope spec env = .ok scope' env') :
    Gains scope.package [] [] env.registry env'.registry ∧
      Imported env.locate env'.registry spec scope.aliases scope'.aliases := by
  obtain ⟨info, env₁, h₁, hok⟩ := bind_ok hok
  obtain ⟨hlocate, hreg₁, -⟩ := Session.locate_ok h₁
  obtain ⟨q, env₂, h₂, hok⟩ := bind_ok hok
  obtain ⟨hgains, hpath⟩ := ensurePackage_gains h₂ scope.package
  rw [hreg₁] at hgains
  obtain ⟨⟨found, hfound, -⟩, -⟩ := Registry.byPath?_eq_some_iff.mp hpath
  suffices hscope : env' = env₂ ∧
      scope'.aliases = qualifiersAfter scope.aliases q found.name spec.name by
    obtain ⟨rfl, ha⟩ := hscope
    exact ⟨hgains, info, q, found, hlocate, hpath, hfound, ha⟩
  cases hname : spec.name with
  | none =>
    rw [hname] at hok
    have hdefault : ((env₂.registry.package? q).map (·.name)).getD info.name = found.name := by
      rw [hfound]
      rfl
    cases hok
    exact ⟨rfl, by rw [hdefault]; rfl⟩
  | some name =>
    rw [hname] at hok hdot
    cases name with
    | dot => exact absurd rfl hdot
    | blank | named => cases hok; exact ⟨rfl, rfl⟩

theorem item_recorded (hr : env.registry.Sound) (hs : scope.Sound env.registry)
    (hpkg : scope.package ≠ builtinId) {item : Item}
    (hdot : ∀ spec, item = .importSpec spec → spec.name ≠ some .dot)
    (hok : analyzeItem enter scope item env = .ok scope' env') : ∃ new log,
      Advances scope.package item.typeNames (fun declares log => ItemRecorded env.locate
        env'.registry scope.package declares scope.aliases item log scope'.aliases) new log
        env.registry env'.registry := by
  cases item with
  | importSpec spec =>
    obtain ⟨hgains, himported⟩ := importSpec_recorded (hdot spec rfl) hok
    exact ⟨[], [], hgains, .refl _, fun _ _ _ => .importSpec himported⟩
  | typeSpec doc spec =>
    obtain ⟨rfl, _, reg, hdecl, rfl⟩ := Session.analyze_pure_ok hok
    cases ha : spec.isAlias with
    | false =>
      obtain ⟨ty, kind, hgains, hkind, hdenotes⟩ := defined_gains hr hs ha hdecl
      refine ⟨_, _, hgains, .refl _, fun named _ _ => .defined ha ?_ hkind hdenotes⟩
      exact List.mem_append_right _ (List.mem_singleton_self _)
    | true =>
      obtain ⟨target, hgains, hdenotes⟩ := renamed_gains hr hs hpkg ha hdecl
      refine ⟨_, _, hgains, .refl _, fun named ht honce => .renamed ha ?_ (hdenotes named ht honce)⟩
      exact List.mem_append_right _ (List.mem_singleton_self _)
  | valueSpec kind doc spec source =>
    obtain ⟨rfl, _, reg, hdecl, rfl⟩ := Session.analyze_pure_ok hok
    obtain ⟨vs, hgains, hplaces⟩ := valueSpec_gains hr hs hdecl
    exact ⟨_, _, hgains, .refl _, fun _ _ _ => .valueSpec hplaces⟩
  | func decl =>
    obtain ⟨rfl, _, reg, hdecl, rfl⟩ := Session.analyze_pure_ok hok
    obtain ⟨ty, hgains, hdenotes⟩ := func_gains hr hs hdecl
    exact ⟨_, _, hgains, .refl _, fun _ _ _ => .func hdenotes⟩

theorem body_recorded {items : List Item}
    (hdots : ∀ spec, .importSpec spec ∈ items → spec.name ≠ some .dot) :
    ∀ {scope : FileScope} {env env' : Environment} {entries : List Entry},
      env.registry.WellFormed → env.registry.Sound → scope.Sound env.registry →
      scope.package ≠ builtinId → Visit (.body scope items) env entries env' → ∃ new log,
        Advances scope.package (items.flatMap Item.typeNames) (fun declares log => BodyRecorded
          env.locate env'.registry scope.package declares scope.aliases items log) new log
          env.registry env'.registry := by
  induction items with
  | nil =>
    intro scope env env' entries _ _ _ _ hv
    cases hv
    exact ⟨[], [], .refl _ _, .refl _, fun _ _ _ => .nil _⟩
  | cons item rest ih =>
    intro scope env env' entries hw hr hs hpkg hv
    cases hv with
    | dotImport hdot => exact absurd hdot (hdots _ List.mem_cons_self)
    | @item _ mid _ _ scope' _ _ _ _ hplain hitem hrest =>
      obtain ⟨hquiet, hs', hsame⟩ := analyzeItem_quiet hw hs hplain hitem
      obtain ⟨new, log, hadvances⟩ := item_recorded hr hs hpkg hplain hitem
      obtain ⟨new', log', hadvances'⟩ := ih (fun spec hm => hdots spec (List.mem_cons_of_mem _ hm))
        hquiet.grows.wellFormed (hadvances.gains.course.leads hr).sound hs' (hsame ▸ hpkg) hrest
      rw [hsame, hquiet.grows.setup.locate] at hadvances'
      refine ⟨_, _, hadvances.trans hadvances' hs.package hpkg ?_⟩
      exact fun _ _ hmid hl hd hi hb => .cons (hi.mono hmid hl hd) hb

end Items

end GoPackages
