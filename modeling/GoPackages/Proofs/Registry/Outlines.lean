import GoPackages.Proofs.Registry.Edits
import GoPackages.Proofs.Registry.Later

/-!
# Packages that come in

Declarations leave alone what is known of packages before their files are read. A package
that is registered comes with empty lists, and the links of the tree are to packages that
are there.
-/
namespace GoPackages

/-- A package but for what its files declare. -/
def Package.undeclared (p : Package) : Package where
  name := p.name
  importPath := p.importPath
  dir := p.dir
  files := p.files
  doc := p.doc
  parent := p.parent
  subpackages := p.subpackages
  explored := p.explored

/-- What is known of a package before its files are read, and whether they were. -/
def Package.outline (p : Package) : String × List String × Bool :=
  (p.importPath, p.files, p.explored)

namespace Registry

variable {reg reg' : Registry}

theorem Edit.undeclared (h : Edit reg reg') (q : PackageId) :
    (reg'.package? q).map Package.undeclared = (reg.package? q).map Package.undeclared := by
  cases h with
  | @ensureRef p hp name =>
    cases href : reg.ref? p name with
    | some r => rw [ensureRef_of_some href]
    | none =>
      rw [Registry.ensureRef, href]
      exact map_modifyPackage (f := (·.register name _)) (fun _ => rfl) _ p q
  | addType | fresh | decorate | addFields | addInterfaceMethod | bind | addMethod | aliasTo => rfl
  | @register r hr p name =>
    exact map_modifyPackage (f := (·.register name r)) (fun _ => rfl) reg p q
  | @listType ty kind ht p name =>
    refine map_modifyPackage (fun _ => ?_) reg p q
    cases kind <;> rfl
  | @listFunction ty ht p name =>
    exact map_modifyPackage (f := (·.declareFunction name ty)) (fun _ => rfl) reg p q
  | listValue hv p kind =>
    refine map_modifyPackage (fun _ => ?_) reg p q
    split <;> rfl

theorem Edits.undeclared (h : Edits reg reg') (q : PackageId) :
    (reg'.package? q).map Package.undeclared = (reg.package? q).map Package.undeclared := by
  induction h with
  | refl => rfl
  | tail _ h ih => exact (h.undeclared q).trans ih

theorem Edits.outline (h : Edits reg reg') (q : PackageId) :
    (reg'.package? q).map Package.outline = (reg.package? q).map Package.outline := by
  have houtline : ∀ reg : Registry, (reg.package? q).map Package.outline =
      ((reg.package? q).map Package.undeclared).map Package.outline := fun reg => by
    rw [Option.map_map]
    rfl
  rw [houtline, houtline, h.undeclared]

theorem registered_of_mem_ids {q : PackageId} (h : q ∈ reg.ids) : reg.Registered q := by
  obtain ⟨i, hi, rfl⟩ := List.mem_map.mp h
  exact ⟨_, Array.getElem?_eq_getElem (List.mem_range.mp hi)⟩

theorem retains_adopt (reg : Registry) (parent child : PackageId) :
    Retains reg (reg.adopt parent child) :=
  (retains_modifyPackage reg child _).trans (retains_modifyPackage _ parent _)

theorem WellFormed.adopt (hr : reg.WellFormed) {parent child : PackageId}
    (hparent : reg.Registered parent) (hchild : reg.Registered child) :
    (reg.adopt parent child).WellFormed := by
  have hbelow := hr.modifyPackage child (f := fun p => { p with parent := some parent })
    fun p hp => { hp with parent := fun q hq => Option.some.inj hq ▸ hparent }
  have hchild' :=
    (retains_modifyPackage reg child fun p => { p with parent := some parent }).packages
    child hchild
  refine hbelow.modifyPackage parent fun p hp => { hp with subpackages := fun q hq => ?_ }
  rcases List.mem_append.mp hq with hq | hq
  · exact hp.subpackages q hq
  · exact List.mem_singleton.mp hq ▸ hchild'

theorem adopts_wellFormed {parent : PackageId} (children : List PackageId) {reg : Registry}
    (hr : reg.WellFormed) (hparent : reg.Registered parent)
    (hchildren : ∀ child ∈ children, reg.Registered child) :
    Retains reg (children.foldl (fun reg child => reg.adopt parent child) reg) ∧
      (children.foldl (fun reg child => reg.adopt parent child) reg).WellFormed := by
  induction children generalizing reg with
  | nil => exact ⟨.refl reg, hr⟩
  | cons child rest ih =>
    have hkeep := retains_adopt reg parent child
    obtain ⟨hrest, hwell⟩ := ih (hr.adopt hparent (hchildren child List.mem_cons_self))
      (hkeep.packages parent hparent)
      fun c hc => hkeep.packages c (hchildren c (List.mem_cons_of_mem child hc))
    exact ⟨hkeep.trans hrest, hwell⟩

theorem retains_push (reg : Registry) (p : Package) :
    Retains reg { reg with packages := reg.packages.push p } where
  refs _ h := h
  types _ data h := ⟨data, h, rfl, rfl⟩
  packages q hq := by
    rw [Registered, package?_push]
    split
    · exact ⟨p, rfl⟩
    · exact hq

theorem packageFits_ofInfo (reg : Registry) (info : PackageInfo) :
    reg.PackageFits (.ofInfo info) where
  functions := ⟨fun _ h => (by cases h), fun _ _ h => (by cases h)⟩
  structs := ⟨fun _ h => (by cases h), fun _ _ h => (by cases h)⟩
  interfaces := ⟨fun _ h => (by cases h), fun _ _ h => (by cases h)⟩
  types := ⟨fun _ h => (by cases h), fun _ _ h => (by cases h)⟩
  vars _ _ h := by cases h
  consts _ _ h := by cases h
  refs _ _ h := by cases h
  parent _ h := by cases h
  subpackages _ h := by cases h

theorem WellFormed.push (hr : reg.WellFormed) {p : Package} (hp : reg.PackageFits p) :
    WellFormed { reg with packages := reg.packages.push p } := by
  have h := retains_push reg p
  refine hr.of_changes h (fun _ _ he => .inl he) (fun _ _ hd => .inl hd) fun q p' hp' => ?_
  rw [package?_push] at hp'
  split at hp'
  · exact .inr (h.packageFits (Option.some.inj hp' ▸ hp))
  · exact .inl hp'

theorem append_wellFormed (hr : reg.WellFormed) {p : Package} (hp : reg.PackageFits p)
    {id : PackageId} (h : reg.append p = .ok (id, reg')) : Retains reg reg' ∧ reg'.WellFormed := by
  unfold append at h
  split at h
  · cases h
  dsimp only at h
  obtain ⟨rfl, rfl⟩ := Prod.mk.inj (Except.ok.inj h)
  let added : Registry := { reg with packages := reg.packages.push p }
  have hself : added.Registered ⟨reg.packages.size⟩ := by
    rw [Registered, package?_push, if_pos rfl]
    exact ⟨p, rfl⟩
  have hadded := retains_push reg p
  have hwell := hr.push hp
  have hlinked : ∀ below : Registry, Retains added below → below.WellFormed →
      let linked := (below.orphansOf p.importPath).foldl
        (fun r child => r.adopt ⟨reg.packages.size⟩ child) below
      Retains reg linked ∧ linked.WellFormed := by
    intro below hkeep hb
    obtain ⟨hfold, hlinked⟩ := adopts_wellFormed (below.orphansOf p.importPath) hb
      (hkeep.packages _ hself) fun child hc => registered_of_mem_ids (List.mem_of_mem_filter hc)
    exact ⟨(hadded.trans hkeep).trans hfold, hlinked⟩
  split
  next parent hparent =>
    obtain ⟨path, -, hpath⟩ := Option.bind_eq_some_iff.mp hparent
    obtain ⟨⟨q, hq, -⟩, -⟩ := byPath?_eq_some_iff.mp hpath
    refine hlinked (added.adopt parent _) (retains_adopt added parent _) ?_
    exact hwell.adopt (hadded.packages parent ⟨q, hq⟩) hself
  next => exact hlinked added (.refl added) hwell

end Registry

end GoPackages
