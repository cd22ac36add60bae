import GoPackages.Proofs.Environment.Progress

/-!
# Whole files

The items of a file, and the files of a package, keep the table of the package in step with
the record. The qualifiers of a file are those of its imports so far.
-/
namespace GoPackages

open Source (ImportSpec ImportName SourceFile)
open Registry (Later builtinId)

namespace Environment

def locate (env : Environment) (importPath : String) : Except Error PackageInfo :=
  env.locator.locate importPath env.importRoot

/-- Analysis leaves the locator and the place of the predeclared names alone. -/
structure SameSetup (env env' : Environment) : Prop where
  locate : env'.locate = env.locate
  builtin : env'.builtin = env.builtin

theorem SameSetup.refl (env : Environment) : SameSetup env env := ⟨rfl, rfl⟩

theorem SameSetup.trans {env mid env' : Environment} (h : SameSetup env mid)
    (h' : SameSetup mid env') : SameSetup env env' :=
  ⟨h'.locate.trans h.locate, h'.builtin.trans h.builtin⟩

end Environment

open Environment (SameSetup)

namespace Session

variable {env env' : Environment}

theorem analyze_ok {α : Type} {step : Analysis α} {a : α}
    (h : Session.analyze step env = .ok a env') :
    ∃ reg, step env.registry = .ok a reg ∧ env' = { env with registry := reg } := by
  unfold analyze at h
  cases hs : step env.registry with
  | ok b reg =>
    rw [hs] at h
    cases h
    exact ⟨reg, rfl, rfl⟩
  | error e reg => rw [hs] at h; cases h

theorem analyze_pure_ok {α β : Type} {step : Analysis α} {b b' : β}
    (h : (Session.analyze step >>= fun _ => pure b) env = .ok b' env') :
    b' = b ∧ ∃ a reg, step env.registry = .ok a reg ∧ env' = { env with registry := reg } := by
  obtain ⟨a, mid, h₁, h⟩ := bind_ok h
  obtain ⟨reg, hstep, rfl⟩ := analyze_ok h₁
  cases h
  exact ⟨rfl, a, reg, hstep, rfl⟩

theorem locate_ok {path : String} {info : PackageInfo}
    (h : Session.locate path env = .ok info env') :
    env.locate path = .ok info ∧ env'.registry = env.registry ∧ SameSetup env env' := by
  change Session.ofExcept (env.locate path) _ = _ at h
  cases hl : env.locate path with
  | ok a =>
    rw [hl] at h
    cases h
    exact ⟨rfl, rfl, rfl, rfl⟩
  | error e => rw [hl] at h; cases h

theorem append_ok {p : Package} {q : PackageId} (h : Session.append p env = .ok q env') :
    ∃ reg, env.registry.append p = .ok (q, reg) ∧ env' = { env with registry := reg } := by
  unfold append at h
  obtain ⟨env₀, _, h₀, h⟩ := bind_ok h
  cases h₀
  cases ha : env.registry.append p with
  | ok result =>
    rw [ha] at h
    cases h
    exact ⟨_, rfl, rfl⟩
  | error e => rw [ha] at h; cases h

theorem ensurePackage_ok {info : PackageInfo} {q : PackageId}
    (h : Session.ensurePackage info env = .ok q env') :
    ∃ reg, env.registry.ensurePackage info = .ok (q, reg) ∧
      env' = { env with registry := reg } := by
  unfold ensurePackage at h
  obtain ⟨env₀, _, h₀, h⟩ := bind_ok h
  cases h₀
  cases he : env.registry.ensurePackage info with
  | ok result =>
    rw [he] at h
    cases h
    exact ⟨_, rfl, rfl⟩
  | error e => rw [he] at h; cases h

end Session

section

variable {pkg : PackageId} {names : List String} {base p : Package} {log : List Listed}
  {env env' : Environment} {decodeTag : TagDecoder} {aliases : OrderedMap PackageId}
  {enter : PackageId → Session Unit} {scope : FileScope}

theorem FileScope.Sound.qualifiersAfter {reg : Registry}
    (hs : (fileScope pkg decodeTag aliases).Sound reg) {q : PackageId} {found : Package}
    (hq : reg.package? q = some found) (name : Option ImportName) :
    (fileScope pkg decodeTag (qualifiersAfter aliases q found.name name)).Sound reg := by
  cases name with
  | none => exact hs.insert_alias ⟨found, hq⟩ found.name
  | some name =>
    cases name with
    | dot | blank => exact hs
    | named name => exact hs.insert_alias ⟨found, hq⟩ name

theorem importSpec_progress (h : Tracks pkg names base log p env.registry)
    (hs : (fileScope pkg decodeTag aliases).Sound env.registry) {spec : ImportSpec}
    (hdot : spec.name ≠ some .dot)
    (hok : importSpec enter (fileScope pkg decodeTag aliases) spec env = .ok scope env') :
    ∃ aliases' p', scope = fileScope pkg decodeTag aliases' ∧ scope.Sound env'.registry ∧
      Imported env.locate env'.registry spec aliases aliases' ∧
      Progress pkg names base [] log [] p p' env.registry env'.registry ∧ SameSetup env env' := by
  unfold importSpec at hok
  obtain ⟨info, env₁, h₁, hok⟩ := bind_ok hok
  obtain ⟨hlocate, hreg₁, hsame⟩ := Session.locate_ok h₁
  obtain ⟨q, env₂, h₂, hok⟩ := bind_ok hok
  obtain ⟨reg, hensure, rfl⟩ := Session.ensurePackage_ok h₂
  rw [hreg₁] at hensure
  obtain ⟨hpath, hgrown⟩ := Registry.ensurePackage_ok hensure
  obtain ⟨⟨found, hfound, -⟩, -⟩ := Registry.byPath?_eq_some_iff.mp hpath
  obtain ⟨p', hprogress⟩ : ∃ p', Progress pkg names base [] log [] p p' env.registry reg := by
    rcases hgrown with rfl | happend
    · exact ⟨p, h.progress_refl⟩
    · obtain ⟨p', htracks, htypes⟩ := h.appended happend
      refine ⟨p', (List.append_nil log).symm ▸ htracks, Registry.later_append happend, ?_⟩
      intro n _
      rw [htypes]
  have hfinish : scope = fileScope pkg decodeTag
      (qualifiersAfter aliases q found.name spec.name) ∧ env' = { env₁ with registry := reg } := by
    cases hname : spec.name with
    | none =>
      rw [hname] at hok
      have hdefault : ((reg.package? q).map (·.name)).getD info.name = found.name := by
        rw [hfound]
        rfl
      cases hok
      rw [hdefault]
      exact ⟨rfl, rfl⟩
    | some name =>
      rw [hname] at hok hdot
      cases name with
      | dot => exact absurd rfl hdot
      | blank | named => cases hok; exact ⟨rfl, rfl⟩
  obtain ⟨rfl, rfl⟩ := hfinish
  exact ⟨_, p', rfl, (hs.later hprogress.later rfl).qualifiersAfter hfound spec.name,
    ⟨info, q, found, hlocate, hpath, hfound, rfl⟩, hprogress, hsame.locate, hsame.builtin⟩

/-- What the record of the items from here on is made of. -/
def Continues (locate : String → Except Error PackageInfo) (reg : Registry) (pkg : PackageId)
    (aliases aliases' : OrderedMap PackageId) (item : Item) (new : List Listed) : Prop :=
  ∀ reg' rest log, Later reg reg' →
    Recorded locate reg' pkg (tableNames pkg reg') aliases' rest log →
    Recorded locate reg' pkg (tableNames pkg reg') aliases (item :: rest) (new ++ log)

theorem item_progress (h : Tracks pkg names base log p env.registry)
    (hs : (fileScope pkg decodeTag aliases).Sound env.registry) (hpkg : builtinId ≠ pkg)
    {item : Item} (hplain : item.Plain)
    (hfree : ∀ n ∈ item.typeNames, n ∈ names ∧ p.types.get? n = none)
    (hok : analyzeItem enter (fileScope pkg decodeTag aliases) item env = .ok scope env') :
    ∃ aliases' new p', scope = fileScope pkg decodeTag aliases' ∧ scope.Sound env'.registry ∧
      Progress pkg names base item.typeNames log new p p' env.registry env'.registry ∧
      SameSetup env env' ∧ Continues env.locate env'.registry pkg aliases aliases' item new := by
  cases item with
  | importSpec spec =>
    obtain ⟨aliases', p', hscope, hsound, himported, hprogress, hsetup⟩ :=
      importSpec_progress h hs hplain hok
    refine ⟨aliases', [], p', hscope, hsound, hprogress, hsetup, fun reg rest log' hl hrest => ?_⟩
    exact .importSpec (himported.later hl) hrest
  | typeSpec doc spec =>
    obtain ⟨rfl, _, reg, hdecl, rfl⟩ := Session.analyze_pure_ok hok
    obtain ⟨hn, hnone⟩ := hfree spec.name (List.mem_singleton_self _)
    obtain ⟨ty, kind, p', hprogress, hkind, hd⟩ :=
      typeSpec_progress h hs hplain hn hnone hdecl
    refine ⟨aliases, _, p', rfl, hs.later hprogress.later rfl, hprogress, ⟨rfl, rfl⟩,
      fun reg' rest log' hl hrest => ?_⟩
    have hkind' := hl.keeps.kinds ty kind (Nat.zero_le _) hkind
    exact .typeSpec hkind' (hd.mono hl.keeps (tableNames_later hl _)) hrest
  | valueSpec kind doc spec source =>
    obtain ⟨rfl, _, reg, hdecl, rfl⟩ := Session.analyze_pure_ok hok
    obtain ⟨vs, p', hprogress, hplaces⟩ := valueSpec_progress h hs hdecl
    refine ⟨aliases, _, p', rfl, hs.later hprogress.later rfl, hprogress, ⟨rfl, rfl⟩,
      fun reg' rest log' hl hrest => .valueSpec ?_ hrest⟩
    exact hplaces.imp fun place v hp => hp.mono hl.keeps (tableNames_later hl [])
  | func decl =>
    obtain ⟨rfl, _, reg, hdecl, rfl⟩ := Session.analyze_pure_ok hok
    obtain ⟨ty, p', hprogress, hd⟩ := func_progress h hs hpkg hdecl
    refine ⟨aliases, _, p', rfl, hs.later hprogress.later rfl, hprogress, ⟨rfl, rfl⟩,
      fun reg' rest log' hl hrest => ?_⟩
    exact .func (hd.mono hl.keeps (tableNames_later hl _)) hrest

theorem items_progress (hpkg : builtinId ≠ pkg) {items : List Item}
    (hplain : ∀ item ∈ items, item.Plain) (honce : (items.flatMap Item.typeNames).Nodup) :
    ∀ {log p env aliases}, Tracks pkg names base log p env.registry →
      (fileScope pkg decodeTag aliases).Sound env.registry →
      (∀ n ∈ items.flatMap Item.typeNames, n ∈ names ∧ p.types.get? n = none) →
      ∀ {scope env'}, items.foldlM (analyzeItem enter) (fileScope pkg decodeTag aliases) env =
          .ok scope env' →
        ∃ new p', Progress pkg names base (items.flatMap Item.typeNames) log new p p'
            env.registry env'.registry ∧
          SameSetup env env' ∧
          Recorded env.locate env'.registry pkg (tableNames pkg env'.registry) aliases items
            new := by
  induction items with
  | nil =>
    intro log p env aliases h hs hfree scope env' hok
    cases hok
    exact ⟨[], p, h.progress_refl, .refl env, .nil aliases⟩
  | cons item rest ih =>
    intro log p env aliases h hs hfree scope env' hok
    rw [List.foldlM_cons] at hok
    obtain ⟨scope₁, env₁, h₁, hok⟩ := bind_ok hok
    rw [List.flatMap_cons] at honce hfree
    obtain ⟨-, honce', hdisjoint⟩ := List.nodup_append.mp honce
    obtain ⟨aliases', new, p₁, rfl, hs₁, hprogress, hsetup, hcontinues⟩ :=
      item_progress h hs hpkg (hplain item List.mem_cons_self)
        (fun n hn => hfree n (List.mem_append_left _ hn)) h₁
    obtain ⟨new', p₂, hprogress', hsetup', hrecorded⟩ :=
      ih (fun item hm => hplain item (List.mem_cons_of_mem _ hm)) honce' hprogress.tracks hs₁
        (hprogress.free hfree hdisjoint) hok
    rw [hsetup.locate] at hrecorded
    exact ⟨new ++ new', p₂, hprogress.trans hprogress', hsetup.trans hsetup',
      hcontinues _ rest new' hprogress'.later hrecorded⟩

theorem fileScope_sound (h : Tracks pkg names base log p env.registry) (decodeTag : TagDecoder) :
    (fileScope pkg decodeTag {}).Sound env.registry where
  package := ⟨p, h.package⟩
  aliases _ _ hq := by cases hq
  typeParams _ _ hr := by cases hr

theorem file_progress (h : Tracks pkg names base log p env.registry) (hpkg : builtinId ≠ pkg)
    (hbuiltin : env.builtin = some builtinId) {file : SourceFile}
    (hplain : ∀ item ∈ items file, item.Plain) (honce : (typeNames file).Nodup)
    (hfree : ∀ n ∈ typeNames file, n ∈ names ∧ p.types.get? n = none)
    (hok : analyzeFileWith enter pkg file env = .ok () env') :
    ∃ new p', Progress pkg names base (typeNames file) log new p p' env.registry env'.registry ∧
      SameSetup env env' ∧
      Recorded env.locate env'.registry pkg (tableNames pkg env'.registry) {} (items file) new := by
  unfold analyzeFileWith at hok
  obtain ⟨env₀, _, h₀, hok⟩ := bind_ok hok
  cases h₀
  rw [hbuiltin] at hok
  obtain ⟨_, env₁, h₁, hok⟩ := bind_ok hok
  obtain ⟨reg, hdoc, rfl⟩ := Session.analyze_ok h₁
  cases hdoc
  have hdots : (if pkg = builtinId then [] else [builtinId]) = [builtinId] :=
    if_neg fun heq => hpkg heq.symm
  rw [hdots] at hok
  obtain ⟨scope, hok⟩ := discard_ok hok
  rw [foldlM_analyzeDecl] at hok
  have hdoc := h.documented (file.doc.getD [])
  have hlater := Registry.later_modifyPackage env.registry pkg
    (f := (·.appendDoc (file.doc.getD []))) fun _ => ⟨rfl, rfl, rfl⟩
  have hfree' : ∀ n ∈ typeNames file, n ∈ names ∧
      (p.appendDoc (file.doc.getD [])).types.get? n = none := hfree
  obtain ⟨new, p', hprogress, hsetup, hrecorded⟩ :=
    items_progress hpkg hplain honce hdoc (fileScope_sound hdoc _) hfree' hok
  refine ⟨new, p', ⟨hprogress.tracks, hlater.trans hprogress.later, hprogress.types⟩, ?_, hrecorded⟩
  exact ⟨hsetup.locate, hsetup.builtin⟩

theorem files_progress (hpkg : builtinId ≠ pkg) {depth : Nat} {files : List SourceFile}
    (hplain : ∀ file ∈ files, ∀ item ∈ items file, item.Plain)
    (honce : (files.flatMap typeNames).Nodup) :
    ∀ {log p env}, Tracks pkg names base log p env.registry → env.builtin = some builtinId →
      (∀ n ∈ files.flatMap typeNames, n ∈ names ∧ p.types.get? n = none) →
      ∀ {env'}, files.forM (analyzeFile depth pkg) env = .ok ⟨⟩ env' →
        ∃ new p', Progress pkg names base (files.flatMap typeNames) log new p p'
            env.registry env'.registry ∧
          SameSetup env env' ∧
          FilesRecorded env.locate env'.registry pkg (tableNames pkg env'.registry) files new := by
  induction files with
  | nil =>
    intro log p env h _ _ env' hok
    cases hok
    exact ⟨[], p, h.progress_refl, .refl env, .nil⟩
  | cons file rest ih =>
    intro log p env h hbuiltin hfree env' hok
    change (analyzeFile depth pkg file >>= fun _ => rest.forM (analyzeFile depth pkg)) env = _
      at hok
    obtain ⟨_, env₁, h₁, hok⟩ := bind_ok hok
    rw [List.flatMap_cons] at honce hfree
    obtain ⟨hfile, hrest, hdisjoint⟩ := List.nodup_append.mp honce
    obtain ⟨new, p₁, hprogress, hsetup, hrecorded⟩ :=
      file_progress h hpkg hbuiltin (hplain file List.mem_cons_self) hfile
        (fun n hn => hfree n (List.mem_append_left _ hn)) h₁
    obtain ⟨new', p₂, hprogress', hsetup', hrecorded'⟩ :=
      ih (fun file hm => hplain file (List.mem_cons_of_mem _ hm)) hrest hprogress.tracks
        (hsetup.builtin.trans hbuiltin) (hprogress.free hfree hdisjoint) hok
    rw [hsetup.locate] at hrecorded'
    refine ⟨new ++ new', p₂, hprogress.trans hprogress', hsetup.trans hsetup', .cons ?_ hrecorded'⟩
    exact hrecorded.mono hprogress'.later (tableNames_later hprogress'.later)

end

end GoPackages
