import GoPackages.Proofs.Environment.ForwardReferences
import GoPackages.Proofs.Environment.PackageRecords

/-!
# References to names of other packages

Packages are asked for one after the other, in any order, and import each other with qualifiers.
A name of another package gets its entry at its first use, wherever that is, and the entry is the
one that the package declares when its own files are analyzed.
-/
namespace GoPackages

open Source (TypeExpr Expr SourceFile)
open Registry (Meant Naming Once Tabled Lasting builtinId)
open Environment (Grows Quiet)

def Registry.Means (reg : Registry) (q : PackageId) (n : String) : Meant → Prop
  | .type ty => reg.listed? q n = some ty
  | .alias target => reg.ref? q n = some target

/-- What an explored package has come to: `log` is what its files were recorded as. -/
structure PackageSettled (env : Environment) (q : PackageId) (p : Package) (log : List Listed) :
    Prop where
  package : env.registry.package? q = some p
  contents : p.contents = log.foldl Listed.record p.blank
  recorded : PathsRecorded env q (env.registry.Means q) p.files log
  types : ∀ spec ty, Listed.type spec ty ∈ log → env.registry.listed? q spec.name = some ty

/-- Qualified names in explored packages, whatever packages they are of. -/
structure QualifiedNamesSettle (env : Environment) : Prop where
  packages : ∀ q, q ≠ builtinId → env.explored q = true → ∃ p log, PackageSettled env q p log
  places : ∀ aliases type r qualifier n q,
    Denotes env.registry.graph 0 (qualifiedNames env.registry aliases) type r →
    writtenName? type = some (some (.ident qualifier), n) → aliases.get? qualifier = some q →
    env.registry.LeadsTo q n r
  literals : ∀ aliases e o type qualifier n q,
    InitDenotes env.registry.graph 0 (qualifiedNames env.registry aliases) e o →
    literalType? e = some type → writtenName? type = some (some (.ident qualifier), n) →
    aliases.get? qualifier = some q → ∃ r, o = some r ∧ env.registry.LeadsTo q n r
  resolved : ∀ q n r ty, env.registry.LeadsTo q n r → env.registry.listed? q n = some ty →
    env.registry.graph.resolved? r = some ty

section

variable {env mid env' : Environment} {named : List Naming} {q : PackageId} {entries : List Entry}

theorem PackageCall.Finds.gains {call : PackageCall} (h : call.Finds env q mid) :
    Gains builtinId [] [] env.registry mid.registry := by
  cases h with
  | known | package => exact .refl _ _
  | path hlocate hensure =>
    obtain ⟨-, hsame, -⟩ := Session.locate_ok hlocate
    exact hsame ▸ (ensurePackage_gains hensure builtinId).1
  | dir hlocate hensure =>
    obtain ⟨_, _, hget, hlocate⟩ := bind_ok hlocate
    cases hget
    obtain ⟨_, _, hrecord, hlocate⟩ := bind_ok hlocate
    cases hrecord
    obtain ⟨-, rfl⟩ := ofExcept_ok hlocate
    exact (ensurePackage_gains hensure builtinId).1

theorem Visit.package_grows (h : Visit (.package q) env entries env')
    (hr : env.registry.WellFormed) : Grows env env' := by
  by_cases hq : env.registry.Registered q
  · exact h.grows hr hq
  · obtain ⟨-, rfl⟩ := h.of_unregistered hq
    exact .refl hr

theorem Visits.grows {calls : List PackageCall} (h : Visits calls env entries env') :
    env.registry.WellFormed → Grows env env' := by
  induction h with
  | nil => exact fun hr => .refl hr
  | cons hfinds hvisit _ ih =>
    intro hr
    have hfound := (hfinds.quiet hr).grows
    have hentered := hvisit.package_grows hfound.wellFormed
    exact (hfound.trans hentered).trans (ih hentered.wellFormed)

theorem Survey.visited (h : Survey env named) (hdot : env.DotFree)
    (hv : Visit (.package q) env entries env') (honce : env'.DeclaresOnce) :
    ∃ named', Survey env' named' := by
  by_cases hq : env.registry.Registered q
  · cases hv with
    | known _ => exact ⟨named, h⟩
    | package hex hfiles =>
      obtain ⟨new, hnew⟩ := h.entered hq hex hdot hfiles honce
      exact ⟨_, hnew⟩
  · obtain ⟨-, rfl⟩ := hv.of_unregistered hq
    exact ⟨named, h⟩

theorem Visits.surveyed {calls : List PackageCall} (h : Visits calls env entries env') :
    ∀ {named}, Survey env named → env.DotFree → env'.DeclaresOnce →
      ∃ named', Survey env' named' := by
  induction h with
  | nil => exact fun hs _ _ => ⟨_, hs⟩
  | cons hfinds hvisit hrest ih =>
    intro named hs hdot honce
    have hfound := (hfinds.quiet hs.wellFormed).grows
    have hsurvey := hs.found hfound hfinds.gains
    have hentered := hvisit.package_grows hfound.wellFormed
    obtain ⟨named₁, hvisited⟩ := hsurvey.visited (hdot.later hfound) hvisit
      (honce.earlier (hrest.grows hentered.wellFormed))
    exact ih hvisited (hdot.later (hfound.trans hentered)) honce

theorem ItemRecorded.types {locate : String → Except Error PackageInfo} {reg : Registry}
    {declares : String → Meant → Prop} {aliases aliases' : OrderedMap PackageId} {item : Item}
    {log : List Listed} (h : ItemRecorded locate reg q declares aliases item log aliases')
    {spec : Source.TypeSpec} {ty : TypeId} (hm : .type spec ty ∈ log) :
    declares spec.name (.type ty) := by
  cases h with
  | importSpec | renamed => cases hm
  | defined _ hdecl =>
    cases List.mem_singleton.mp hm
    exact hdecl
  | valueSpec =>
    obtain ⟨v, -, hv⟩ := List.mem_map.mp hm
    cases hv
  | @func _ decl =>
    have hl := List.mem_singleton.mp hm
    unfold listedFunc at hl
    split at hl <;> cases hl

theorem BodyRecorded.types {locate : String → Except Error PackageInfo} {reg : Registry}
    {declares : String → Meant → Prop} {aliases : OrderedMap PackageId} {items : List Item}
    {log : List Listed} (h : BodyRecorded locate reg q declares aliases items log)
    {spec : Source.TypeSpec} {ty : TypeId} (hm : .type spec ty ∈ log) :
    declares spec.name (.type ty) := by
  induction h with
  | nil => cases hm
  | cons hi _ ih => exact (List.mem_append.mp hm).elim hi.types ih

theorem PathsRecorded.types {declares : String → Meant → Prop} {paths : List String}
    {log : List Listed} (h : PathsRecorded env q declares paths log) {spec : Source.TypeSpec}
    {ty : TypeId} (hm : .type spec ty ∈ log) : declares spec.name (.type ty) := by
  induction h with
  | nil => cases hm
  | skip _ _ ih => exact ih hm
  | read _ hbody _ ih => exact (List.mem_append.mp hm).elim hbody.types ih

/-- A type that is written with a qualified name, and what is decorated further. -/
theorem leadsTo_of_written {reg : Registry} (hr : reg.Sound) {aliases : OrderedMap PackageId}
    {type : TypeExpr} {inner r : RefId} {qualifier n : String}
    (hd : Denotes reg.graph 0 (qualifiedNames reg aliases) type inner)
    (hover : reg.graph.Over inner r)
    (hw : writtenName? type = some (some (.ident qualifier), n))
    (hq : aliases.get? qualifier = some q) : reg.LeadsTo q n r := by
  obtain ⟨s, hs, hwritten, -⟩ := hd.core
  obtain ⟨_, q', hb, hq', hhas, slot, hslot, hroot⟩ := hwritten _ hw
  cases hb
  obtain rfl := Option.some.inj (hq.symm.trans hq')
  have hg := TypeGraph.reachable_grounded hr.graph
  exact ⟨slot, hslot, ((hs.trans hover).namedRoot_eq hg hhas).trans hroot⟩

theorem Survey.means (h : Survey env named) (n : String) (m : Meant)
    (hm : declaredIn q named n m) : env.registry.Means q n m := by
  rcases m with ty | target
  · exact h.tabled.types q n ty hm
  · exact h.tabled.aliases q n target hm

theorem Survey.settled (h : Survey env named) (hq : q ≠ builtinId) (hex : env.explored q = true) :
    ∃ p log, PackageSettled env q p log := by
  obtain ⟨p, hp⟩ := Environment.registered_of_explored hex
  rw [Environment.explored, hp] at hex
  cases h.packages q p hq hp with
  | unseen hold => cases hold.symm.trans hex
  | @explored log _ hlog hpaths =>
    have hmeans := hpaths.mono (.refl h.wellFormed) h.tabled.sound (.refl h.tabled.sound)
      h.means
    exact ⟨p, log, hp, hlog, hmeans, fun _ _ hm => hmeans.types hm⟩

theorem Survey.resolved (h : Survey env named) (honce : Once named) {n : String} {r : RefId}
    {ty : TypeId} (hleads : env.registry.LeadsTo q n r)
    (hty : env.registry.listed? q n = some ty) : env.registry.graph.resolved? r = some ty := by
  obtain ⟨s, hs, hroot⟩ := hleads
  have hn : ¬Registry.Aliased named q n := by
    rintro ⟨target, hm⟩
    rcases h.tabled.listed q n ty hty with rfl | hdecl
    · exact h.foreign _ hm rfl
    · exact honce.not_aliased hdecl ⟨target, hm⟩
  have hslot := h.tabled.resolved?_slot hn hs hty
  rwa [TypeGraph.resolved?, TypeGraph.named?, hroot]

/-- After requests that all succeed, in whatever order, every reference that was read for a
qualified name leads to the entry that the package of the name has for it, whichever of the two
packages came first. Once the package declares the name as a type, the reference has that type. -/
theorem qualified_names_settle (hnew : env.registry = .new) (hdot : env.DotFree)
    {calls : List PackageCall} (hok : calls.forM PackageCall.run env = .ok () env')
    (honce : env'.DeclaresOnce) : QualifiedNamesSettle env' := by
  obtain ⟨entries, hvisits⟩ := visits_of_ok calls hok
  obtain ⟨named, h⟩ := hvisits.surveyed (.of_new hnew) hdot honce
  have hr := h.tabled.sound
  refine ⟨fun q hq hex => h.settled hq hex, ?_, ?_, ?_⟩
  · exact fun aliases type r _ n q hd hw hq => leadsTo_of_written hr hd (.refl _ r) hw hq
  · intro aliases e o type _ n q hi ht hw hq
    obtain ⟨inner, r, rfl, hd, hover⟩ := hi.literal e o ht
    exact ⟨r, rfl, leadsTo_of_written hr hd hover hw hq⟩
  · exact fun q n r ty => h.resolved (once_of_names honce h.names)

end

def pointsAcross : List (String × SourceFile) :=
  [("p", ⟨"p", none, [.group .imports none [.importSpec ⟨none, none, "\"q\""⟩],
      .group .vars none [.valueSpec ⟨none, ["v"], some (.pointer fun _ =>
        .selector (fun _ => .ident "q") "N" []), []⟩]]⟩),
    ("q", ⟨"q", none, [.group .types none [emptyStruct "N"]]⟩)]

def pointsAcrossCalls : List PackageCall := [.importPackage 1 "p", .importPackage 1 "q"]

def pointsAcrossStart : Environment :=
  Environment.new none (packagesOf pointsAcross) (filesOf pointsAcross)

def pointedAcross : Environment :=
  stateAfter (pointsAcrossCalls.forM PackageCall.run) pointsAcrossStart

theorem pointsAcross_settles :
    pointsAcrossCalls.forM PackageCall.run pointsAcrossStart = .ok () pointedAcross ∧
    pointsAcrossStart.DotFree ∧ pointedAcross.DeclaresOnce ∧
    ∃ r ty, (pointedAcross.registry.package? ⟨1⟩).bind (·.vars.get? "v") = some ⟨"v", some r, []⟩ ∧
      pointedAcross.registry.LeadsTo ⟨2⟩ "N" r ∧
      pointedAcross.registry.listed? ⟨2⟩ "N" = some ty ∧
      pointedAcross.registry.graph.resolved? r = some ty := by
  have hok : pointsAcrossCalls.forM PackageCall.run pointsAcrossStart = .ok () pointedAcross :=
    eq_ok_stateAfter (by decide +kernel)
  have hdot : pointsAcrossStart.DotFree := by
    have hall : ∀ file ∈ pointsAcross, ∀ item ∈ items file.2, item.Plain := by decide
    intro path file spec hparse hspec
    change filesOf pointsAcross path = _ at hparse
    unfold filesOf at hparse
    split at hparse
    next hfile =>
      cases hparse
      obtain ⟨front, back, heq, -⟩ := List.lookup_eq_some_iff.mp hfile
      exact hall (path, file) (heq ▸ by simp) _ hspec
    next => cases hparse
  have honce : pointedAcross.DeclaresOnce := by
    have hall : ∀ p ∈ pointedAcross.registry.packages.toList,
        (p.files.flatMap pointedAcross.typesRead).Nodup := by decide +kernel
    intro q
    unfold Environment.files
    cases hp : pointedAcross.registry.package? q with
    | none => exact List.nodup_nil
    | some p => exact hall p (Array.mem_toList_iff.mpr (Array.mem_of_getElem? hp))
  have hnew : pointsAcrossStart.registry = .new := rfl
  have hsettle := qualified_names_settle hnew hdot hok honce
  have hleads : pointedAcross.registry.LeadsTo ⟨2⟩ "N" ⟨23⟩ :=
    ⟨⟨22⟩, by decide +kernel, by decide +kernel⟩
  have hlisted : pointedAcross.registry.listed? ⟨2⟩ "N" = some ⟨23⟩ := by decide +kernel
  exact ⟨hok, hdot, honce, ⟨23⟩, ⟨23⟩, by decide +kernel, hleads, hlisted,
    hsettle.resolved ⟨2⟩ "N" ⟨23⟩ ⟨23⟩ hleads hlisted⟩

end GoPackages
