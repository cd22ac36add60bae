import GoPackages.Proofs.Package.DeclLists

/-!
# Types under headings

A package lists structs and interfaces under headings of their own, and every declared type among
its types. A declaration replaces what its name stood for under its own heading and among the
types, not under the other heading. So the lists agree as long as no name changes its heading, and
only as long as none does.
-/
namespace GoPackages

inductive Heading where
  | struct
  | interface
  | other
  deriving DecidableEq, Repr

structure TypeDecl where
  heading : Heading
  name : String
  type : TypeId
  deriving DecidableEq, Repr

namespace Package

def list (p : Package) (d : TypeDecl) : Package :=
  match d.heading with
  | .struct => p.declareStruct d.name d.type
  | .interface => p.declareInterface d.name d.type
  | .other => p.declareType d.name d.type

def listAll (p : Package) (ds : List TypeDecl) : Package := ds.foldl list p

structure Untyped (p : Package) : Prop where
  structs : p.structs = {}
  interfaces : p.interfaces = {}
  types : p.types = {}

theorem untyped_ofInfo (info : PackageInfo) : (ofInfo info).Untyped := ⟨rfl, rfl, rfl⟩

end Package

namespace TypeDecl

variable {ds : List TypeDecl} {d : TypeDecl} {name : String}

def rows (ds : List TypeDecl) : List (String × TypeId) := ds.map fun d => (d.name, d.type)

def under (h : Heading) (ds : List TypeDecl) : List TypeDecl := ds.filter (·.heading = h)

def last? (name : String) (ds : List TypeDecl) : Option TypeDecl :=
  (ds.filter (·.name = name)).getLast?

theorem getLast?_rows (ds : List TypeDecl) (name : String) :
    ((rows ds).filter (·.1 = name)).getLast?.map Prod.snd = (last? name ds).map TypeDecl.type := by
  rw [rows, List.filter_map, List.getLast?_map, Option.map_map]
  rfl

theorem mem_of_last? (h : last? name ds = some d) : d ∈ ds ∧ d.name = name := by
  have hmem := List.mem_of_getLast? h
  simpa using hmem

theorem mem_under {h : Heading} : d ∈ under h ds ↔ d ∈ ds ∧ d.heading = h := by
  simp [under]

theorem exists_last? (h : d ∈ ds) : ∃ e, last? d.name ds = some e := by
  have hmem : d ∈ ds.filter (·.name = d.name) := by simpa using h
  have hne : ds.filter (·.name = d.name) ≠ [] := List.ne_nil_of_mem hmem
  exact ⟨_, List.getLast?_eq_some_getLast hne⟩

theorem last?_under (h : last? name ds = some d) : last? name (under d.heading ds) = some d := by
  unfold last? under at *
  obtain ⟨front, hfront⟩ := List.getLast?_eq_some_iff.mp h
  rw [List.filter_comm, hfront, List.filter_append, List.filter_singleton]
  simp

/-- The name is declared again afterwards. -/
def Superseded (ds : List TypeDecl) (d : TypeDecl) : Prop :=
  ∃ pre post, ds = pre ++ d :: post ∧ ∃ e ∈ post, e.name = d.name

theorem Superseded.last?_ne (h : Superseded ds d) (hn : ds.Nodup) : last? d.name ds ≠ some d := by
  obtain ⟨pre, post, rfl, e, he, hname⟩ := h
  intro hlast
  have hmem : e ∈ post.filter (·.name = d.name) := by simpa [he] using hname
  have hpost : last? d.name post = some d := by
    rw [last?, List.filter_append, List.filter_cons_of_pos (by simp)] at hlast
    rw [last?, ← hlast, List.getLast?_append_cons, List.getLast?_cons_of_ne_nil]
    exact List.ne_nil_of_mem hmem
  exact (List.nodup_cons.mp (List.nodup_append.mp hn).2.1).1 (mem_of_last? hpost).1

end TypeDecl

open TypeDecl

variable {p : Package} {ds : List TypeDecl}

theorem structs_listAll (p : Package) (ds : List TypeDecl) :
    (p.listAll ds).structs = p.structs.declareAll (rows (under .struct ds)) := by
  induction ds generalizing p with
  | nil => rfl
  | cons d rest ih =>
    refine (ih (p.list d)).trans ?_
    obtain ⟨heading, name, ty⟩ := d
    cases heading <;> rfl

theorem interfaces_listAll (p : Package) (ds : List TypeDecl) :
    (p.listAll ds).interfaces = p.interfaces.declareAll (rows (under .interface ds)) := by
  induction ds generalizing p with
  | nil => rfl
  | cons d rest ih =>
    refine (ih (p.list d)).trans ?_
    obtain ⟨heading, name, ty⟩ := d
    cases heading <;> rfl

theorem types_listAll (p : Package) (ds : List TypeDecl) :
    (p.listAll ds).types = p.types.declareAll (rows ds) := by
  induction ds generalizing p with
  | nil => rfl
  | cons d rest ih =>
    refine (ih (p.list d)).trans ?_
    obtain ⟨heading, name, ty⟩ := d
    cases heading <;> rfl

/-- A list that holds, under each name, the last of its declarations. -/
structure Lists (d : DeclList) (ds : List TypeDecl) : Prop where
  get? : ∀ name, d.get? name = (last? name ds).map TypeDecl.type
  mem_ids : ∀ ty, ty ∈ d.ids ↔ ∃ name, d.get? name = some ty

theorem lists_declareAll (ds : List TypeDecl) :
    Lists (({} : DeclList).declareAll (rows ds)) ds where
  get? name := (DeclList.get?_declareAll (rows ds) name).trans (getLast?_rows ds name)
  mem_ids _ := (DeclList.slots_empty.declareAll (rows ds)).mem_ids_iff

/-- A declaration is listed under a heading if it is the last of its name there. -/
theorem Lists.mem_ids_iff {list : DeclList} {es : List TypeDecl} (h : Lists list es)
    (hsub : ∀ e ∈ es, e ∈ ds) (hn : (ds.map TypeDecl.type).Nodup) {d : TypeDecl} (hd : d ∈ ds) :
    d.type ∈ list.ids ↔ last? d.name es = some d := by
  rw [h.mem_ids]
  constructor
  · rintro ⟨name, hget⟩
    obtain ⟨e, hlast, htype⟩ := Option.map_eq_some_iff.mp ((h.get? name).symm.trans hget)
    obtain ⟨hmem, hname⟩ := mem_of_last? hlast
    obtain rfl := List.inj_on_of_nodup_map hn (hsub e hmem) hd htype
    rwa [hname]
  · intro hlast
    exact ⟨d.name, by rw [h.get?, hlast]; rfl⟩

theorem Lists.exists_of_mem {list : DeclList} (h : Lists list ds) {ty : TypeId}
    (hty : ty ∈ list.ids) : ∃ d ∈ ds, d.type = ty ∧ last? d.name ds = some d := by
  obtain ⟨name, hget⟩ := (h.mem_ids ty).mp hty
  obtain ⟨d, hlast, htype⟩ := Option.map_eq_some_iff.mp ((h.get? name).symm.trans hget)
  obtain ⟨hmem, hname⟩ := mem_of_last? hlast
  exact ⟨d, hmem, htype, hname ▸ hlast⟩

/-- A name that was declared as a struct or an interface was last declared as one. -/
def KeepsHeading (ds : List TypeDecl) : Prop :=
  ∀ d ∈ ds, d.heading ≠ .other → ∀ e ∈ last? d.name ds, e.heading = d.heading

instance (ds : List TypeDecl) : Decidable (KeepsHeading ds) :=
  inferInstanceAs (Decidable (∀ d ∈ ds, _))

/-- No name is both a struct and an interface, structs and interfaces are types and different ones,
and what a later declaration replaced is not listed. -/
structure ListsAgree (p : Package) (ds : List TypeDecl) : Prop where
  one : ∀ name, p.structs.get? name = none ∨ p.interfaces.get? name = none
  structs : ∀ ty ∈ p.structs.ids, ty ∈ p.types.ids
  interfaces : ∀ ty ∈ p.interfaces.ids, ty ∈ p.types.ids
  disjoint : ∀ ty ∈ p.structs.ids, ty ∉ p.interfaces.ids
  replaced : ∀ d, Superseded ds d →
    d.type ∉ p.structs.ids ∧ d.type ∉ p.interfaces.ids ∧ d.type ∉ p.types.ids

theorem KeepsHeading.last?_eq (h : KeepsHeading ds) {heading : Heading} (hh : heading ≠ .other)
    {name : String} {d : TypeDecl} (hd : last? name (under heading ds) = some d) :
    last? name ds = some d := by
  obtain ⟨hunder, rfl⟩ := mem_of_last? hd
  obtain ⟨hds, rfl⟩ := mem_under.mp hunder
  obtain ⟨e, he⟩ := exists_last? hds
  have hlast := last?_under he
  rw [h d hds hh e he] at hlast
  rw [he, ← hlast, hd]

section Agreement

variable {q : Package} (hn : (ds.map TypeDecl.type).Nodup)
  (hs : Lists q.structs (under .struct ds)) (hi : Lists q.interfaces (under .interface ds))
  (ht : Lists q.types ds)
include hn hs hi

theorem structs_interfaces_disjoint {ty : TypeId} (hty : ty ∈ q.structs.ids) :
    ty ∉ q.interfaces.ids := by
  intro hty'
  obtain ⟨d, hd, rfl, -⟩ := hs.exists_of_mem hty
  obtain ⟨e, he, htype, -⟩ := hi.exists_of_mem hty'
  obtain ⟨hd, hheading⟩ := mem_under.mp hd
  obtain ⟨he, hheading'⟩ := mem_under.mp he
  obtain rfl := List.inj_on_of_nodup_map hn he hd htype
  rw [hheading] at hheading'
  cases hheading'

include ht

theorem KeepsHeading.listsAgree (h : KeepsHeading ds) : ListsAgree q ds := by
  have hsub : ∀ heading, ∀ e ∈ under heading ds, e ∈ ds := fun heading e he =>
    (mem_under.mp he).1
  have htypes : ∀ (heading : Heading) (list : DeclList), heading ≠ .other →
      Lists list (under heading ds) → ∀ ty ∈ list.ids, ty ∈ q.types.ids := by
    intro heading list hh hl ty hty
    obtain ⟨d, hd, rfl, hlast⟩ := hl.exists_of_mem hty
    exact (ht.mem_ids_iff (fun _ he => he) hn (hsub heading d hd)).mpr (h.last?_eq hh hlast)
  have hgone : ∀ d, Superseded ds d → d.type ∉ q.types.ids := by
    intro d hsup hmem
    have hd : d ∈ ds := by
      obtain ⟨pre, post, rfl, -⟩ := hsup
      simp
    exact hsup.last?_ne hn.of_map ((ht.mem_ids_iff (fun _ he => he) hn hd).mp hmem)
  constructor
  case one =>
    intro name
    rw [hs.get?, hi.get?]
    cases hls : last? name (under .struct ds) with
    | none => exact .inl rfl
    | some d =>
      cases hli : last? name (under .interface ds) with
      | none => exact .inr rfl
      | some e =>
        have heq := (h.last?_eq (by decide) hls).symm.trans (h.last?_eq (by decide) hli)
        obtain rfl := Option.some.inj heq
        have hstruct := (mem_under.mp (mem_of_last? hls).1).2
        have hinterface := (mem_under.mp (mem_of_last? hli).1).2
        rw [hstruct] at hinterface
        cases hinterface
  case structs => exact htypes .struct q.structs (by decide) hs
  case interfaces => exact htypes .interface q.interfaces (by decide) hi
  case disjoint => exact fun ty => structs_interfaces_disjoint hn hs hi
  case replaced =>
    intro d hsup
    refine ⟨fun hmem => hgone d hsup ?_, fun hmem => hgone d hsup ?_, hgone d hsup⟩
    · exact htypes .struct q.structs (by decide) hs _ hmem
    · exact htypes .interface q.interfaces (by decide) hi _ hmem

theorem ListsAgree.keepsHeading (h : ListsAgree q ds) : KeepsHeading ds := by
  have hkeeps : ∀ (heading : Heading) (list : DeclList), Lists list (under heading ds) →
      (∀ ty ∈ list.ids, ty ∈ q.types.ids) → ∀ d ∈ under heading ds, ∀ e ∈ last? d.name ds,
        e.heading = heading := by
    intro heading list hl hsub d hd e he
    -- The last declaration under the heading is among the types, so it is the last of all.
    obtain ⟨f, hf⟩ := exists_last? hd
    obtain ⟨hfmem, hname⟩ := mem_of_last? hf
    obtain ⟨hfmem, hheading⟩ := mem_under.mp hfmem
    have hlisted : f.type ∈ q.types.ids := by
      refine hsub f.type ((hl.mem_ids f.type).mpr ⟨d.name, ?_⟩)
      rw [hl.get?, hf]
      rfl
    have hlast := (ht.mem_ids_iff (fun _ he => he) hn hfmem).mp hlisted
    rw [hname] at hlast
    obtain rfl := Option.some.inj (he.symm.trans hlast)
    exact hheading
  intro d hd hother e he
  cases hheading : d.heading with
  | struct => exact hkeeps .struct _ hs h.structs d (mem_under.mpr ⟨hd, hheading⟩) e he
  | interface => exact hkeeps .interface _ hi h.interfaces d (mem_under.mpr ⟨hd, hheading⟩) e he
  | other => exact absurd hheading hother

end Agreement

/-- Whatever is declared, every list has the last declaration of each name under its heading, and
no type is both a struct and an interface. The lists agree with each other if and only if every
name of a struct or an interface is one in the end. -/
theorem lists_agree_iff_keepsHeading (hp : p.Untyped) (hn : (ds.map TypeDecl.type).Nodup) :
    Lists (p.listAll ds).structs (under .struct ds) ∧
    Lists (p.listAll ds).interfaces (under .interface ds) ∧
    Lists (p.listAll ds).types ds ∧
    (∀ ty ∈ (p.listAll ds).structs.ids, ty ∉ (p.listAll ds).interfaces.ids) ∧
    (ListsAgree (p.listAll ds) ds ↔ KeepsHeading ds) := by
  have hs : Lists (p.listAll ds).structs (under .struct ds) := by
    rw [structs_listAll, hp.structs]
    exact lists_declareAll _
  have hi : Lists (p.listAll ds).interfaces (under .interface ds) := by
    rw [interfaces_listAll, hp.interfaces]
    exact lists_declareAll _
  have ht : Lists (p.listAll ds).types ds := by
    rw [types_listAll, hp.types]
    exact lists_declareAll _
  refine ⟨hs, hi, ht, fun ty => structs_interfaces_disjoint hn hs hi, ?_⟩
  exact ⟨ListsAgree.keepsHeading hn hs hi ht, KeepsHeading.listsAgree hn hs hi ht⟩

def redeclaredStruct : List TypeDecl :=
  [⟨.other, "A", ⟨0⟩⟩, ⟨.struct, "A", ⟨1⟩⟩, ⟨.interface, "B", ⟨2⟩⟩, ⟨.struct, "A", ⟨3⟩⟩]

theorem redeclaredStruct_agrees :
    ListsAgree ((Package.ofInfo ⟨"p", "p", "", []⟩).listAll redeclaredStruct) redeclaredStruct ∧
    ((Package.ofInfo ⟨"p", "p", "", []⟩).listAll redeclaredStruct).types.ids = [⟨3⟩, ⟨2⟩] := by
  have hfresh : (redeclaredStruct.map TypeDecl.type).Nodup := by decide
  obtain ⟨-, -, -, -, hagree⟩ :=
    lists_agree_iff_keepsHeading (Package.untyped_ofInfo ⟨"p", "p", "", []⟩) hfresh
  exact ⟨hagree.mpr (by decide), by decide⟩

def structThenInterface : List TypeDecl := [⟨.struct, "A", ⟨1⟩⟩, ⟨.interface, "A", ⟨2⟩⟩]

/-- The struct stays listed under the name, although the interface has taken its slot among the
types. -/
theorem struct_outlives_its_type :
    (structThenInterface.map TypeDecl.type).Nodup ∧
    ¬ListsAgree ((Package.ofInfo ⟨"p", "p", "", []⟩).listAll structThenInterface)
      structThenInterface ∧
    ((Package.ofInfo ⟨"p", "p", "", []⟩).listAll structThenInterface).structs.ids = [⟨1⟩] ∧
    ((Package.ofInfo ⟨"p", "p", "", []⟩).listAll structThenInterface).types.ids = [⟨2⟩] := by
  refine ⟨by decide, ?_, by decide, by decide⟩
  intro h
  have hlisted := h.structs ⟨1⟩ (by decide)
  revert hlisted
  decide

end GoPackages
