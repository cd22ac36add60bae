import GoPackages.Proofs.Environment.Fresh

/-!
# The order of the declarations of a file

A file without imports and type parameters, as the first one that a session analyzes: each type
is declared once and under no predeclared name, no alias leads back to itself, and each method of
a type is declared once. In whatever order its declarations come, they are all analyzed or
none of the orders is, and its structs implement the same interfaces.
-/
namespace GoPackages

open Source (TypeExpr TypeSpec FuncDecl Decl SourceFile)
open Registry (builtinId)

theorem Session.analyze_bind {α β : Type} (m : Analysis α) (k : α → Analysis β) :
    Session.analyze (m >>= k) = (do let a ← Session.analyze m; Session.analyze (k a)) := by
  funext env
  simp only [analyze, bind, EStateM.bind]
  cases m env.registry <;> rfl

theorem Session.discard_return {α : Type} (m : Session Unit) (a : α) :
    discard (do m; return a) = m := by
  funext env
  simp only [discard, Functor.discard, Functor.mapConst, Function.comp_apply, EStateM.map, bind,
    EStateM.bind]
  cases m env <;> rfl

def startScope (env : Environment) (pkg : PackageId) : FileScope where
  package := pkg
  decodeTag := env.tagDecoder
  dotImports := if pkg = builtinId then [] else [builtinId]

theorem builtin_mem_startScope (env : Environment) (pkg : PackageId) :
    builtinId ∈ (startScope env pkg).package :: (startScope env pkg).dotImports := by
  by_cases heq : pkg = builtinId
  · exact heq ▸ List.mem_cons_self
  · simp [startScope, heq]

section

variable {enter : PackageId → Session Unit} {scope : FileScope} {env : Environment}
  {pkg : PackageId} {file : SourceFile}

theorem foldlM_analyzeItem {items : List Item} (hsimple : ∀ item ∈ items, item.Simple) :
    items.foldlM (analyzeItem enter) scope =
      (do Session.analyze (declareItems scope items); return scope) := by
  induction items with
  | nil => rfl
  | cons item rest ih =>
    have hitem : analyzeItem enter scope item =
        (do Session.analyze (declareItem scope item); return scope) := by
      cases item with
      | importSpec spec => exact (hsimple _ List.mem_cons_self).elim
      | typeSpec | valueSpec | func => rfl
    rw [List.foldlM_cons, hitem, declareItems, Session.analyze_bind, bind_assoc, bind_assoc]
    refine bind_congr fun _ => ?_
    rw [pure_bind]
    exact ih fun item hm => hsimple item (List.mem_cons_of_mem _ hm)

theorem analyzeFileWith_eq (hb : env.builtin = some builtinId)
    (hsimple : ∀ item ∈ items file, item.Simple) :
    analyzeFileWith enter pkg file env = Session.analyze (do
      modify (·.modifyPackage pkg (·.appendDoc (file.doc.getD [])))
      declareItems (startScope env pkg) (items file)) env := by
  have hget : (get : Session Environment) env = .ok env env := rfl
  have hfold : (file.decls.foldlM (analyzeDecl enter) (startScope env pkg)) =
      (do Session.analyze (declareItems (startScope env pkg) (items file))
          return startScope env pkg) :=
    (foldlM_analyzeDecl enter file.decls _).trans (foldlM_analyzeItem hsimple)
  rw [analyzeFileWith, bind_eq_of_ok hget, hb, Session.analyze_bind]
  refine congrFun (bind_congr fun _ => ?_) env
  exact (congrArg discard hfold).trans (Session.discard_return _ _)

theorem succeeds_of_declareItems {items : List Item} {reg reg' : Registry}
    (hok : declareItems scope items reg = .ok () reg') :
    ∀ item ∈ items, ∃ reg₀, Succeeds (declareItem scope item) reg₀ := by
  induction items generalizing reg with
  | nil => exact fun _ hm => by cases hm
  | cons item rest ih =>
    obtain ⟨_, mid, hitem, hrest⟩ := bind_ok hok
    intro other hm
    rcases List.mem_cons.mp hm with rfl | hm
    · exact ⟨reg, succeeds_of_ok hitem⟩
    · exact ih hrest other hm

theorem succeeds_of_analyzeFile {depth : Nat} {env' : Environment}
    (hb : env.builtin = some builtinId) (hsimple : ∀ item ∈ items file, item.Simple)
    (hok : analyzeFile depth pkg file env = .ok () env') :
    ∀ item ∈ items file, ∃ reg₀, Succeeds (declareItem (startScope env pkg) item) reg₀ := by
  rw [analyzeFile, analyzeFileWith_eq hb hsimple] at hok
  obtain ⟨reg, hreg, -⟩ := Session.analyze_ok hok
  obtain ⟨_, _, -, hitems⟩ := bind_ok hreg
  exact succeeds_of_declareItems hitems

end

section

variable {scope : FileScope} {items early : List Item}

theorem aliasesOf_early (hb : early = [] ∨ early = [errorItem]) :
    aliasesOf (early ++ items) = aliasesOf items := by
  rcases hb with rfl | rfl <;> rfl

theorem distinctMethods_early (h : DistinctMethods items)
    (hb : early = [] ∨ early = [errorItem]) : DistinctMethods (early ++ items) := by
  have hsame : ∀ n target, (n, target) ∈ aliasesOf (early ++ items) ↔
      (n, target) ∈ aliasesOf items := by
    intro n target
    rw [aliasesOf_early hb]
  have hitems : items.Pairwise fun a b => ¬SameMethod (early ++ items) a b :=
    h.imp fun hn hs => hn (hs.mono hsame)
  rcases hb with rfl | rfl
  · exact hitems
  · exact List.pairwise_cons.mpr ⟨fun _ _ hs => hs.elim, hitems⟩

theorem nodup_early (h : (declared items).Nodup) (hb : early = [] ∨ early = [errorItem])
    (herror : "error" ∉ declared items) : (declared (early ++ items)).Nodup := by
  rcases hb with rfl | rfl
  · exact h
  · exact List.nodup_cons.mpr ⟨herror, h⟩

theorem struct_of_early (hb : early = [] ∨ early = [errorItem]) {doc : Option Doc}
    {spec : TypeSpec} (hm : .typeSpec doc spec ∈ early ++ items)
    (hstruct : isStruct spec.type = true) : .typeSpec doc spec ∈ items := by
  rcases hb with rfl | rfl
  · exact hm
  · rcases List.mem_cons.mp hm with heq | hm
    · obtain ⟨-, rfl⟩ := Item.typeSpec.inj heq
      cases hstruct
    · exact hm

theorem acyclic_early (h : ∀ n, ¬Relation.TransGen (Renaming items) n n)
    (hb : early = [] ∨ early = [errorItem]) (n : String) :
    ¬Relation.TransGen (Renaming (early ++ items)) n n := by
  have hsame : Renaming (early ++ items) = Renaming items := by
    unfold Renaming
    rw [aliasesOf_early hb]
  rw [hsame]
  exact h n

end

section

variable {env env' : Environment} {pkg : PackageId} {file : SourceFile} {log : List Analyzed}
  {depth : Nat}

theorem Covers.analyzeFile (h : Covers (startScope env pkg) env.registry log env.registry)
    (depth : Nat) (file : SourceFile) (hb : env.builtin = some builtinId)
    (hsimple : ∀ item ∈ items file, item.Simple)
    (hfree : ∀ n ∈ typeNames file, (startScope env pkg).found? env.registry n = none)
    (honce : (declared (log.map Analyzed.item ++ items file)).Nodup)
    (hacyclic : ∀ n, ¬Relation.TransGen (Renaming (log.map Analyzed.item ++ items file)) n n)
    (hs : ∀ item ∈ items file, ∃ reg₀, Succeeds (declareItem (startScope env pkg) item) reg₀) :
    ∃ env' added, GoPackages.analyzeFile depth pkg file env = .ok () env' ∧
      (log ++ added).map Analyzed.item = log.map Analyzed.item ++ items file ∧
      Covers (startScope env pkg) env.registry (log ++ added) env'.registry := by
  have hplain : (startScope env pkg).Plain := ⟨fun _ => rfl, rfl⟩
  let documented := env.registry.modifyPackage pkg (·.appendDoc (file.doc.getD []))
  have hdocumented : Covers (startScope env pkg) env.registry log documented :=
    h.expanded (.of_listing (fun _ => rfl) (fun _ => rfl) fun _ => rfl)
  obtain ⟨reg, added, hok, hadded, hcovers⟩ :=
    hdocumented.run hplain hsimple hfree honce hacyclic hs
  refine ⟨{ env with registry := reg }, added, ?_, by rw [List.map_append, hadded], hcovers⟩
  have hsteps : (do
      modify (·.modifyPackage pkg (·.appendDoc (file.doc.getD [])))
      declareItems (startScope env pkg) (items file) : Analysis Unit) env.registry =
        .ok () reg := hok
  rw [GoPackages.analyzeFile, analyzeFileWith_eq hb hsimple, Session.analyze, hsteps]

theorem items_perm {decls : List Decl} (h : file.decls.Perm decls) :
    (items file).Perm (items { file with decls }) :=
  h.flatMap_right _

/-- The declarations of a file, and those of its groups, may come in any order. -/
theorem declaration_order_irrelevant {file' : SourceFile} (hfresh : env.Fresh)
    (hpack : ∃ p, env.registry.package? pkg = some p)
    (hok : analyzeFile depth pkg file env = .ok () env')
    (hperm : (items file).Perm (items file')) (hsimple : ∀ item ∈ items file, item.Simple)
    (honce : (typeNames file).Nodup)
    (hbuiltin : ∀ n ∈ typeNames file, env.registry.ref? builtinId n = none)
    (hacyclic : ∀ n, ¬Relation.TransGen (Renaming (items file)) n n)
    (hmethods : DistinctMethods (items file)) :
    ∃ env'', analyzeFile depth pkg file' env = .ok () env'' ∧ ∀ struct iface,
      env''.registry.implements? pkg struct iface = env'.registry.implements? pkg struct iface := by
  obtain ⟨hblank, hb⟩ := hfresh.blank
  obtain ⟨p, hp⟩ := hpack
  have hfree : ∀ n ∈ typeNames file, (startScope env pkg).found? env.registry n = none :=
    fun n hn => hblank.found?_none _ (hbuiltin n hn)
  have herror : "error" ∉ typeNames file := fun hm => by
    cases (hbuiltin "error" hm).symm.trans hblank.ref?_error
  have hs := succeeds_of_analyzeFile hb hsimple hok
  obtain ⟨log, hcovers, hearly⟩ := hblank.covers (builtin_mem_startScope env pkg) hp
  have hdistinct := distinctMethods_early hmethods hearly
  have hnocycle := acyclic_early hacyclic hearly
  have honce' := nodup_early honce hearly herror
  have hperm' := hperm.append_left (log.map Analyzed.item)
  obtain ⟨env₁, added, hok₁, hitems, hend⟩ :=
    hcovers.analyzeFile depth file hb hsimple hfree honce' hnocycle hs
  obtain ⟨env₂, added', hok₂, hitems', hend'⟩ :=
    hcovers.analyzeFile depth file' hb (fun item hm => hsimple item (hperm.symm.subset hm))
      (fun n hn => hfree n ((declared_perm hperm).symm.subset hn))
      ((declared_perm hperm').nodup honce') (acyclic_perm hnocycle hperm')
      fun item hm => hs item (hperm.symm.subset hm)
  obtain rfl : env₁ = env' := by
    rw [hok] at hok₁
    cases hok₁
    rfl
  refine ⟨env₂, hok₂, fun struct iface => Eq.symm ?_⟩
  refine Covers.implements?_eq ?_ ?_ ?_ ?_ ?_ hend hend' struct iface
  · rw [hitems, hitems']
    exact hperm'
  · rwa [hitems]
  · rwa [hitems]
  · rwa [hitems]
  · rw [hitems]
    intro doc spec hm hstruct
    have hown := struct_of_early hearly hm hstruct
    exact hfree _ (List.mem_flatMap.mpr ⟨_, hown, List.mem_singleton_self _⟩)

end

def typeDecl (name : String) (isAlias : Bool) (type : TypeExpr) : Decl :=
  .group .types none [.typeSpec { doc := none, name, typeParams := [], type, isAlias }]

/-- The method comes first. Its receiver and its parameter are written with later aliases. -/
def methodFirst : SourceFile where
  packageName := "p"
  doc := none
  decls := [
    .func { doc := none, name := "M", typeParams := [],
            receiver := some ⟨["s"], fun _ => .pointer fun _ => .named "A" [], none, none⟩,
            params := [⟨["t"], fun _ => .named "B" [], none, none⟩], results := [] },
    typeDecl "A" true (.named "S" []),
    typeDecl "B" true (.named "T" []),
    typeDecl "S" false (.struct []),
    typeDecl "T" false (.named "int" []),
    typeDecl "I" false
      (.interface [.method "M" [⟨[], fun _ => .named "T" [], none, none⟩] []])]

def methodLast : SourceFile := { methodFirst with decls := methodFirst.decls.reverse }

def afterMethodFirst : Environment :=
  stateAfter (analyzeFile 0 ⟨1⟩ methodFirst) Environment.onePackage

theorem methodFirst_renaming {a b : String} (h : Renaming (items methodFirst) a b) :
    a = "A" ∧ b = "S" ∨ a = "B" ∧ b = "T" := by
  obtain ⟨target, hm, hhead⟩ := h
  have haliases : aliasesOf (items methodFirst) =
      [("A", .named "S" []), ("B", .named "T" [])] := rfl
  simp only [haliases, List.mem_cons, Prod.mk.injEq, List.not_mem_nil, or_false] at hm
  rcases hm with ⟨rfl, rfl⟩ | ⟨rfl, rfl⟩
  · exact .inl ⟨rfl, (Head.name.inj hhead).symm⟩
  · exact .inr ⟨rfl, (Head.name.inj hhead).symm⟩

theorem methodFirst_acyclic (n : String) :
    ¬Relation.TransGen (Renaming (items methodFirst)) n n := by
  intro hcycle
  obtain ⟨_, hfirst, -⟩ := Relation.TransGen.head'_iff.mp hcycle
  obtain ⟨_, -, hlast⟩ := Relation.TransGen.tail'_iff.mp hcycle
  rcases methodFirst_renaming hfirst with ⟨rfl, -⟩ | ⟨rfl, -⟩ <;>
    rcases methodFirst_renaming hlast with ⟨-, heq⟩ | ⟨-, heq⟩ <;>
    exact absurd heq (by decide)

theorem methodFirst_distinct : DistinctMethods (items methodFirst) := by
  simp [DistinctMethods, items, methodFirst, typeDecl, declItems, specItems, SameMethod]

theorem methodFirst_in_reverse :
    analyzeFile 0 ⟨1⟩ methodFirst Environment.onePackage = .ok () afterMethodFirst ∧
    afterMethodFirst.registry.implements? ⟨1⟩ "S" "I" = some true ∧
    ∃ env, analyzeFile 0 ⟨1⟩ methodLast Environment.onePackage = .ok () env ∧
      env.registry.implements? ⟨1⟩ "S" "I" = some true := by
  have hok : analyzeFile 0 ⟨1⟩ methodFirst Environment.onePackage = .ok () afterMethodFirst :=
    eq_ok_stateAfter (by decide +kernel)
  have hanswer : afterMethodFirst.registry.implements? ⟨1⟩ "S" "I" = some true := by
    decide +kernel
  obtain ⟨env, hlast, hsame⟩ := declaration_order_irrelevant
    (.append _ (.new none Environment.noPackages Environment.noFiles))
    (Option.isSome_iff_exists.mp (by decide +kernel)) hok
    (items_perm methodFirst.decls.reverse_perm.symm) (by decide) (by decide) (by decide +kernel)
    methodFirst_acyclic methodFirst_distinct
  exact ⟨hok, hanswer, env, hlast, (hsame "S" "I").trans hanswer⟩

end GoPackages
