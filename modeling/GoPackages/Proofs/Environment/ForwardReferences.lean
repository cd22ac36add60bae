import GoPackages.Proofs.Environment.Files
import GoPackages.Proofs.Environment.Isolation

/-!
# Forward references

The files of one package, without aliases and dotted imports, each type declared once. In the
end every place that a declared name was written at leads to the entry of the declaration,
and the type has the methods that were declared for its name, whatever came first.
-/
namespace GoPackages

open Source (TypeExpr TypeSpec Expr SourceFile ImportSpec FuncDecl)
open Registry (Later builtinId)

def analyzeFiles (depth : Nat) (info : PackageInfo) (files : List SourceFile) :
    Session PackageId := do
  let pkg ← Session.append (.ofInfo info)
  files.forM (analyzeFile depth pkg)
  return pkg

/-- A reference that leads to the name `n` of the package and to the type declared for it. -/
def StandsFor (reg : Registry) (pkg : PackageId) (p : Package) (n : String) (r : RefId) : Prop :=
  ∃ root ty, reg.ref? pkg n = some root ∧ p.types.get? n = some ty ∧
    reg.graph.namedRoot r = root ∧ reg.graph.resolved? r = some ty

/-- A declared name that is no type parameter is the one in the table, with its type. -/
def ownNames (reg : Registry) (pkg : PackageId) (p : Package) (names params : List String) :
    Meaning where
  bare n r := n ∉ params → n ∈ names →
    ∃ ty, reg.ref? pkg n = some r ∧ p.types.get? n = some ty ∧ reg.graph.resolved? r = some ty
  qualified _ _ _ := True

def literalType? : Expr → Option TypeExpr
  | .composite (some type) => some (type ())
  | .unary op operand =>
    if op = .address ∨ op.keepsType then literalType? (operand ()) else none
  | .paren inner => literalType? (inner ())
  | .composite none | .ident _ | .literal _ _ | .selector _ _ | .call _ | .other _ | .bad => none

/-- What the files of a package have come to: `log` is what they were recorded as. -/
structure Settled (locate : String → Except Error PackageInfo) (reg : Registry)
    (pkg : PackageId) (base : Package) (names : List String) (files : List SourceFile)
    (p : Package) (log : List Listed) : Prop where
  package : reg.package? pkg = some p
  contents : p.contents = log.foldl Listed.record base
  recorded : FilesRecorded locate reg pkg (ownNames reg pkg p names) files log
  types : ∀ spec ty, Listed.type spec ty ∈ log → p.types.get? spec.name = some ty
  places : ∀ params type r n, Denotes reg.graph 0 (ownNames reg pkg p names params) type r →
    writtenName? type = some (none, n) → n ∉ params → n ∈ names → StandsFor reg pkg p n r
  literals : ∀ params e o type n,
    InitDenotes reg.graph 0 (ownNames reg pkg p names params) e o →
    literalType? e = some type → writtenName? type = some (none, n) → n ∉ params → n ∈ names →
    ∃ r, o = some r ∧ StandsFor reg pkg p n r
  methods : ∀ n ∈ names, ∃ ty data, p.types.get? n = some ty ∧
    reg.graph.typeAt? ty = some data ∧ (data.kind.isDefined = true →
      reg.graph.methodsOf? ty = some (({} : MethodSet).insertAll (methodsNamed log n)))

section

variable {locate : String → Except Error PackageInfo} {reg : Registry} {pkg : PackageId}
  {m : List String → Meaning} {names : List String} {base p : Package} {log : List Listed}

theorem Recorded.declares {aliases : OrderedMap PackageId} {items : List Item}
    (h : Recorded locate reg pkg m aliases items log) {n : String}
    (hn : n ∈ items.flatMap Item.typeNames) : ∃ spec ty, spec.name = n ∧ .type spec ty ∈ log := by
  induction h with
  | nil aliases => cases hn
  | importSpec _ _ ih => exact ih hn
  | @typeSpec aliases doc spec ty kind rest log _ _ _ ih =>
    rcases List.mem_append.mp hn with hn | hn
    · exact ⟨spec, ty, (List.mem_singleton.mp hn).symm, List.mem_cons_self⟩
    · obtain ⟨spec', ty', hname, hm⟩ := ih hn
      exact ⟨spec', ty', hname, List.mem_cons_of_mem _ hm⟩
  | valueSpec _ _ ih =>
    obtain ⟨spec, ty, hname, hm⟩ := ih hn
    exact ⟨spec, ty, hname, List.mem_append_right _ hm⟩
  | func _ _ ih =>
    obtain ⟨spec, ty, hname, hm⟩ := ih hn
    exact ⟨spec, ty, hname, List.mem_cons_of_mem _ hm⟩

theorem FilesRecorded.declares {files : List SourceFile}
    (h : FilesRecorded locate reg pkg m files log) {n : String}
    (hn : n ∈ files.flatMap typeNames) : ∃ spec ty, spec.name = n ∧ .type spec ty ∈ log := by
  induction h with
  | nil => cases hn
  | cons hf _ ih =>
    rcases List.mem_append.mp hn with hn | hn
    · obtain ⟨spec, ty, hname, hm⟩ := hf.declares hn
      exact ⟨spec, ty, hname, List.mem_append_left _ hm⟩
    · obtain ⟨spec, ty, hname, hm⟩ := ih hn
      exact ⟨spec, ty, hname, List.mem_append_right _ hm⟩

/-- The reference of an initializer made of a composite literal is that of the type of the
literal, or a pointer to it. -/
theorem InitDenotes.literal {g : TypeGraph} {lo : Nat} {m : Meaning} (e : Expr) (o : Option RefId)
    (h : InitDenotes g lo m e o) {type : TypeExpr} (ht : literalType? e = some type) :
    ∃ inner r, o = some r ∧ Denotes g lo m type inner ∧ g.Over inner r := by
  cases e with
  | composite literal =>
    cases literal with
    | none => cases ht
    | some literal =>
      obtain ⟨r, rfl, hd⟩ := h
      obtain rfl := Option.some.inj ht
      exact ⟨r, r, rfl, hd, .refl g r⟩
  | paren inner => exact InitDenotes.literal (inner ()) o h ht
  | unary op operand =>
    unfold InitDenotes at h
    rw [literalType?] at ht
    by_cases hop : op = .address
    · rw [if_pos hop] at h
      rw [if_pos (.inl hop)] at ht
      obtain ⟨value, hv, haddress⟩ := h
      obtain ⟨inner, r, rfl, hd, hover⟩ := InitDenotes.literal (operand ()) value hv ht
      cases o with
      | none => exact haddress.elim
      | some s => exact ⟨inner, s, rfl, hd, hover.decorated haddress⟩
    · rw [if_neg hop] at h
      by_cases hkeeps : op.keepsType
      · rw [if_pos hkeeps] at h
        rw [if_pos (.inr hkeeps)] at ht
        exact InitDenotes.literal (operand ()) o h ht
      · rw [if_neg (by simp [hop, hkeeps])] at ht
        cases ht
  | ident | literal | selector | call | other | bad => cases ht
termination_by structural e

variable (h : Tracks pkg names base log p reg)

include h

theorem Tracks.ownNames (hbuiltin : ∀ n ∈ names, reg.ref? builtinId n = none)
    (hdeclared : ∀ n ∈ names, ∃ ty, p.types.get? n = some ty) (params : List String) :
    (tableNames pkg reg params).Refines (ownNames reg pkg p names params) where
  bare n r hr hp hn := by
    rcases hr hp with hr | hr
    · obtain ⟨ty, hty⟩ := hdeclared n hn
      obtain ⟨e, he, -, -, hown⟩ := h.own n r hr
      refine ⟨ty, hr, hty, ?_⟩
      rw [(TypeGraph.Over.refl reg.graph r).resolved? he, (hown hn).1, hty]
    · cases (hbuiltin n hn).symm.trans hr
  qualified _ _ _ h := h

theorem Tracks.standsFor {params : List String} {type : TypeExpr} {inner r : RefId} {n : String}
    (hd : Denotes reg.graph 0 (GoPackages.ownNames reg pkg p names params) type inner)
    (hover : reg.graph.Over inner r) (hw : writtenName? type = some (none, n))
    (hp : n ∉ params) (hn : n ∈ names) : StandsFor reg pkg p n r := by
  obtain ⟨s, hs, hwritten, -⟩ := hd.core
  obtain ⟨ty, hr, hty, hres⟩ := hwritten _ hw hp hn
  obtain ⟨e, he, -⟩ := h.own n s hr
  have hsr := hs.trans hover
  refine ⟨s, ty, hr, hty, hsr.namedRoot he, ?_⟩
  rw [hsr.resolved? he, ← hres, (TypeGraph.Over.refl reg.graph s).resolved? he]

theorem Tracks.methods (hbuiltin : ∀ n ∈ names, reg.ref? builtinId n = none)
    (hdeclared : ∀ n ∈ names, ∃ ty, p.types.get? n = some ty) :
    ∀ n ∈ names, ∃ ty data, p.types.get? n = some ty ∧ reg.graph.typeAt? ty = some data ∧
      (data.kind.isDefined = true → reg.graph.methodsOf? ty =
        some (({} : MethodSet).insertAll (methodsNamed log n))) := by
  intro n hn
  obtain ⟨ty, hty⟩ := hdeclared n hn
  obtain ⟨data, r, hd, hr, howner⟩ := h.declared n hn ty hty
  refine ⟨ty, data, hty, hd, fun hdef => ?_⟩
  obtain ⟨e, he, -, -, hown⟩ := h.own n r hr
  have hset : reg.graph.refMethods r = e.methods := by
    rw [TypeGraph.refMethods, (TypeGraph.Path.named he).named?_eq he]
    rfl
  rw [← (hown hn).2 (hbuiltin n hn), ← hset, TypeGraph.methodsOf?, hd]
  have hmap : data.declaredBy.map reg.graph.refMethods = some (reg.graph.refMethods r) := by
    rw [howner hdef]
    rfl
  cases hk : data.kind with
  | base | struct => rw [Option.bind_some, hk]; exact hmap
  | interface | method | map => rw [hk] at hdef; cases hdef

omit h

end

theorem ref?_of_single {start reg : Registry} (hone : start.packages.size = 1)
    {info : PackageInfo} {pkg q : PackageId} {n : String} {r : RefId}
    (ha : start.append (.ofInfo info) = .ok (pkg, reg)) (hr : reg.ref? q n = some r) :
    q = builtinId ∧ start.ref? q n = some r := by
  rw [Registry.ref?_append ha] at hr
  obtain ⟨p, hp, -⟩ := Option.bind_eq_some_iff.mp hr
  obtain ⟨hlt, -⟩ := Array.getElem?_eq_some_iff.mp hp
  obtain ⟨i⟩ := q
  obtain rfl : i = 0 := Nat.lt_one_iff.mp (hone ▸ hlt)
  exact ⟨rfl, hr⟩

theorem tracks_start {start reg : Registry} (hs : start.Sound) (hp : start.Predeclares)
    (hone : start.packages.size = 1)
    (hbottom : ∃ e, start.graph.entryAt? TypeGraph.emptyInterface = some (.named e) ∧
      e.package = none) {info : PackageInfo} {pkg : PackageId}
    (ha : start.append (.ofInfo info) = .ok (pkg, reg)) (names : List String) :
    builtinId ≠ pkg ∧ ∃ p, Tracks pkg names (.ofInfo info) [] p reg ∧
      ∀ n, p.types.get? n = none := by
  obtain ⟨-, rfl, hg, -, hall⟩ := Registry.append_ok ha
  have hid := hall ⟨start.packages.size⟩
  rw [if_pos rfl] at hid
  obtain ⟨p, hpackage, hu⟩ := Option.map_eq_some_iff.mp hid
  have hnew : builtinId ≠ ⟨start.packages.size⟩ := by
    rw [hone]
    decide
  have hplace : ∀ q n r, reg.ref? q n = some r → q = builtinId ∧ start.ref? q n = some r :=
    fun _ _ _ => ref?_of_single hone ha
  have htypes : ∀ n, p.types.get? n = none := by
    intro n
    rw [types_of_unlinked hu]
    rfl
  have hcontents : p.contents = .ofInfo info := contents_of_unlinked hu
  refine ⟨hnew, p, ?_, htypes⟩
  constructor
  case sound => exact (Registry.spares_append ha).sound hs
  case package => exact hpackage
  case contents => exact hcontents
  case listed =>
    intro spec ty hm
    cases hm
  case bottom =>
    obtain ⟨e, he, hnone⟩ := hbottom
    refine ⟨e, hg ▸ he, ?_⟩
    rw [hnone]
    exact fun heq => by cases heq
  case foreign =>
    intro q n r _ hr
    obtain ⟨rfl, hr⟩ := hplace q n r hr
    obtain ⟨e, he, howner, -⟩ := hp.names n r hr
    refine ⟨e, hg ▸ he, ?_⟩
    rcases howner with hnone | hbuiltin
    · rw [hnone]
      exact fun heq => by cases heq
    · rw [hbuiltin]
      exact fun heq => hnew (Option.some.inj heq)
  case own =>
    intro n r hr
    exact absurd (hplace _ n r hr).1.symm hnew
  case unknown =>
    intro n _ _
    exact ⟨htypes n, fun _ => rfl⟩
  case declared =>
    intro n _ ty ht
    rw [htypes] at ht
    cases ht

theorem new_size : Registry.new.packages.size = 1 := by decide +kernel

theorem new_emptyInterface : Registry.new.graph.entryAt? TypeGraph.emptyInterface = some (.named
    { name := TypeGraph.emptyInterfaceName, package := none, type := some ⟨0⟩ }) := by
  decide +kernel

/-- Where all files of the package are analyzed, every place of a declared name leads to the
declaration, and the methods of the name are those of its receivers. -/
theorem forward_references_settle {currentDir : Option String} {locator : Locator}
    {parser : SourceParser} {tagDecoder : TagDecoder} {depth : Nat} {info : PackageInfo}
    {files : List SourceFile} {pkg : PackageId} {env : Environment}
    (hok : analyzeFiles depth info files
      ((Environment.new currentDir locator parser).setTagDecoder tagDecoder) = .ok pkg env)
    (hplain : ∀ file ∈ files, ∀ item ∈ items file, item.Plain)
    (honce : (files.flatMap typeNames).Nodup)
    (hbuiltin : ∀ n ∈ files.flatMap typeNames, env.registry.ref? builtinId n = none) :
    ∃ p log, Settled env.locate env.registry pkg (.ofInfo info) (files.flatMap typeNames) files
      p log := by
  obtain ⟨id, env₁, h₁, hok⟩ := bind_ok hok
  obtain ⟨_, env₂, h₂, hok⟩ := bind_ok hok
  cases hok
  obtain ⟨reg, happend, rfl⟩ := Session.append_ok h₁
  obtain ⟨hpkg, p₀, hstart, hfree⟩ := tracks_start Registry.new_sound Registry.new_predeclares
    new_size ⟨_, new_emptyInterface, rfl⟩ happend (files.flatMap typeNames)
  obtain ⟨log, p, hprogress, hsetup, hrecorded⟩ :=
    files_progress hpkg hplain honce hstart Registry.new_builtin?
      (fun n hn => ⟨hn, hfree n⟩) h₂
  have h : Tracks pkg (files.flatMap typeNames) (.ofInfo info) log p env.registry :=
    hprogress.tracks
  have hdeclared : ∀ n ∈ files.flatMap typeNames, ∃ ty, p.types.get? n = some ty := by
    intro n hn
    obtain ⟨spec, ty, rfl, hm⟩ := hrecorded.declares hn
    exact ⟨ty, h.listed spec ty hm⟩
  refine ⟨p, log, h.package, h.contents, ?_, h.listed, ?_, ?_, h.methods hbuiltin hdeclared⟩
  · rw [hsetup.locate]
    exact hrecorded.mono (.refl _) (h.ownNames hbuiltin hdeclared)
  · intro params type r n hd hw hp hn
    exact h.standsFor hd (.refl _ r) hw hp hn
  · intro params e o type n hi ht hw hp hn
    obtain ⟨inner, r, rfl, hd, hover⟩ := hi.literal e o ht
    exact ⟨r, rfl, h.standsFor hd hover hw hp hn⟩

def packageP : PackageInfo := ⟨"p", "p", "", []⟩

def typeOf (name : String) : Source.Delayed TypeExpr := fun _ => .named name []

def pointerTo (name : String) : Source.Delayed TypeExpr := fun _ => .pointer (typeOf name)

def emptyStruct (name : String) : Source.Spec :=
  .typeSpec { doc := none, name, typeParams := [], type := .struct [], isAlias := false }

def methodOf (receiver : Source.Delayed TypeExpr) : Source.Decl :=
  .func { doc := none, receiver := some ⟨["n"], receiver, none, none⟩, name := "M",
          typeParams := [], params := [], results := [] }

def usesFirst : List SourceFile :=
  [⟨"p", none, [methodOf (pointerTo "N"),
      .group .vars none [.valueSpec ⟨none, ["v"], none, [.unary .address fun _ =>
        .composite (some (typeOf "N"))]⟩]]⟩,
    ⟨"p", none, [.group .types none [emptyStruct "N"]]⟩]

def usedFirst : Environment :=
  stateAfter (analyzeFiles 0 packageP usesFirst)
    ((Environment.new none Environment.noPackages Environment.noFiles).setTagDecoder
      StructTag.decode)

theorem usesFirst_settle : (usesFirst.flatMap typeNames).Nodup ∧
    ∃ p log, Settled usedFirst.locate usedFirst.registry ⟨1⟩ (.ofInfo packageP)
      (usesFirst.flatMap typeNames) usesFirst p log := by
  refine ⟨by decide, forward_references_settle (eq_ok_stateAfter ?_) ?_ ?_ ?_⟩
  · decide +kernel
  · decide
  · decide
  · decide +kernel

/-- A package that imports itself may name its own types behind a qualifier. -/
def selfImporting : SourceFile :=
  ⟨"p", none, [.group .imports none [.importSpec ⟨none, none, "\"p\""⟩],
    methodOf fun _ => .selector (fun _ => .ident "p") "N" [],
    .group .types none [emptyStruct "N"]]⟩

def selfImported : Environment :=
  stateAfter (analyzeFiles 0 packageP [selfImporting])
    (Environment.new none ⟨fun _ _ => .ok packageP, fun _ => .ok packageP⟩ Environment.noFiles)

/-- The method is one of `N`, though no receiver is written with the bare name. -/
theorem qualified_receiver_is_found :
    analyzeFiles 0 packageP [selfImporting]
      (Environment.new none ⟨fun _ _ => .ok packageP, fun _ => .ok packageP⟩
        Environment.noFiles) = .ok ⟨1⟩ selfImported ∧
    (∀ item ∈ items selfImporting, item.Plain) ∧ (typeNames selfImporting).Nodup ∧
    (∀ n ∈ typeNames selfImporting, selfImported.registry.ref? builtinId n = none) ∧
    (∀ decl field, .func decl ∈ items selfImporting → decl.receiver = some field →
      writtenName? (field.type ()) ≠ some (none, "N")) ∧
    ∃ ty, (selfImported.registry.package? ⟨1⟩).bind (·.types.get? "N") = some ty ∧
      selfImported.registry.graph.methodsOf? ty = some (({} : MethodSet).insert "M" ⟨23⟩) := by
  refine ⟨eq_ok_stateAfter (by decide +kernel), by decide, by decide, by decide +kernel, ?_, ⟨24⟩,
    by decide +kernel, by decide +kernel⟩
  intro decl field hm hreceiver
  simp only [items, selfImporting, List.flatMap_cons, List.flatMap_nil, declItems, specItems,
    methodOf, emptyStruct, List.append_nil, List.cons_append, List.nil_append, List.mem_cons,
    List.not_mem_nil, or_false, reduceCtorEq, false_or, Item.func.injEq] at hm
  subst hm
  cases hreceiver
  simp [writtenName?]

end GoPackages
