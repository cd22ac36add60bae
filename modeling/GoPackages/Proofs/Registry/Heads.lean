import GoPackages.Proofs.Analysis.Closure
import GoPackages.Proofs.Analysis.Written
import GoPackages.Proofs.Registry.Lookup
import GoPackages.Proofs.TypeGraph.Bound

/-!
# The name at the head of a type

Reading a type with a written name under its decorators looks that name up first, and the type leads
to what was found. Any other type leads to an entry that no table has. Whatever reading fails with,
it never is a recursive alias: that is for the declaration to find out.
-/
namespace GoPackages

open Source (TypeExpr TypeSpec Expr)
open Registry (Adds Extends)

/-- A step that fails with other errors than that of a recursive alias, if it fails. -/
def SeesNoCycle {α : Type} (m : Analysis α) : Prop :=
  ∀ reg e reg', m reg = .error e reg' → e ≠ .unsupported .recursiveAlias

section SeesNoCycle

variable {α β : Type} {scope : FileScope}

theorem seesNoCycle_pure (a : α) : SeesNoCycle (pure a : Analysis α) := nofun

theorem seesNoCycle_throw {e : Error} (h : e ≠ .unsupported .recursiveAlias) :
    SeesNoCycle (throw e : Analysis α) := by
  intro reg e' reg' he
  cases he
  exact h

theorem SeesNoCycle.bind {m : Analysis α} {k : α → Analysis β} (h : SeesNoCycle m)
    (hk : ∀ a, SeesNoCycle (k a)) : SeesNoCycle (m >>= k) := by
  intro reg e reg' he
  simp only [Bind.bind, EStateM.bind] at he
  cases hm : m reg with
  | ok a mid => rw [hm] at he; exact hk a mid e reg' he
  | error e' mid => rw [hm] at he; cases he; exact h reg _ _ hm

theorem seesNoCycle_ofGraph (f : TypeGraph → α × TypeGraph) : SeesNoCycle (Analysis.ofGraph f) :=
  nofun

theorem resolveName_seesNoCycle (name : String) : SeesNoCycle (scope.resolveName name) := by
  unfold FileScope.resolveName
  split
  · exact seesNoCycle_throw nofun
  · refine SeesNoCycle.bind nofun fun reg => ?_
    split
    · exact seesNoCycle_pure _
    · exact SeesNoCycle.bind nofun fun _ => seesNoCycle_pure _

theorem resolveQualified_seesNoCycle (base : Expr) (name : String) :
    SeesNoCycle (scope.resolveQualified base name) := by
  unfold FileScope.resolveQualified
  split
  · split
    · exact SeesNoCycle.bind nofun fun _ => seesNoCycle_pure _
    · exact seesNoCycle_throw nofun
  · exact seesNoCycle_throw nofun

theorem readTag_seesNoCycle (tag : Option String) : SeesNoCycle (scope.readTag tag) := by
  unfold FileScope.readTag
  split
  · exact seesNoCycle_pure _
  · dsimp only
    split
    · exact seesNoCycle_pure _
    · exact seesNoCycle_throw nofun

theorem reading_seesNoCycle (scope : FileScope) : ReadingClosed scope SeesNoCycle where
  pure := seesNoCycle_pure
  bind h hk := h.bind hk
  bad := seesNoCycle_throw nofun
  name := resolveName_seesNoCycle
  qualified := resolveQualified_seesNoCycle
  tag := readTag_seesNoCycle
  decorate _ _ := seesNoCycle_ofGraph _
  fresh _ _ _ := seesNoCycle_ofGraph _
  addType _ := seesNoCycle_ofGraph _
  mapOf _ _ _ := seesNoCycle_ofGraph _
  addFields _ _ := nofun

end SeesNoCycle

/-- A name of a package. -/
abbrev Slot := PackageId × String

namespace FileScope

def resolveWritten (scope : FileScope) : Option Expr × String → Analysis RefId
  | (none, name) => scope.resolveName name
  | (some base, name) => scope.resolveQualified base name

/-- The slot that a written name is looked up in. A bare name that no package in scope has is one
of the file's own package. -/
def slotOf? (scope : FileScope) (reg : Registry) (params : List String) :
    Option Expr × String → Option Slot
  | (none, name) =>
    if name ∈ params then none
    else
      let found := (scope.package :: scope.dotImports).find? fun q => (reg.ref? q name).isSome
      some (found.getD scope.package, name)
  | (some (.ident qualifier), name) => (scope.aliases.get? qualifier).map fun q => (q, name)
  | (some _, _) => none

end FileScope

theorem mem_keys_iff_lookup {β : Type} (params : List (String × β)) (name : String) :
    name ∈ params.map Prod.fst ↔ (params.lookup name).isSome := by
  induction params with
  | nil => simp
  | cons param rest ih =>
    by_cases h : name = param.1
    · simp [h]
    · simp [h, ih]

section Slots

variable {scope : FileScope} {reg reg' : Registry} {written : Option Expr × String}
  {name : String} {r s : RefId}

theorem resolveName_param (hl : scope.typeParams.lookup name = some s)
    (h : scope.resolveName name reg = .ok r reg') : r = s ∧ reg' = reg := by
  unfold FileScope.resolveName at h
  split at h
  · cases h
  · obtain ⟨_, _, hget, h⟩ := bind_ok h
    cases hget
    have hknown : scope.known? reg name = some s := by rw [FileScope.known?, hl]
    rw [hknown] at h
    cases h
    exact ⟨rfl, rfl⟩

theorem resolveName_slot (hs : scope.Sound reg) (hl : scope.typeParams.lookup name = none)
    (h : scope.resolveName name reg = .ok r reg') :
    reg.Obtained (((scope.package :: scope.dotImports).find? fun q =>
      (reg.ref? q name).isSome).getD scope.package) name r reg' := by
  rcases resolveName_ok hl h with ⟨hfound, rfl⟩ | ⟨hnone, rfl, rfl⟩
  · obtain ⟨front, q, back, hq, hslot, hfront⟩ := List.findSome?_eq_some_iff.mp hfound
    have hfind : (scope.package :: scope.dotImports).find? (fun q => (reg'.ref? q name).isSome) =
        some q := by
      rw [List.find?_eq_some_iff_append]
      refine ⟨by rw [hslot]; rfl, front, back, hq, fun p hp => ?_⟩
      rw [hfront p hp]
      rfl
    rw [hfind]
    exact ⟨.refl _, hslot⟩
  · have hfind : (scope.package :: scope.dotImports).find? (fun q => (reg.ref? q name).isSome) =
        none := by
      rw [List.find?_eq_none]
      intro q hq
      rw [hnone q hq]
      exact Bool.false_ne_true
    rw [hfind]
    exact Registry.obtained_ensureRef hs.package name

theorem resolveWritten_ok (hs : scope.Sound reg)
    (h : scope.resolveWritten written reg = .ok r reg') :
    (∃ slot, scope.slotOf? reg (scope.typeParams.map Prod.fst) written = some slot ∧
        reg.Obtained slot.1 slot.2 r reg') ∨
      scope.slotOf? reg (scope.typeParams.map Prod.fst) written = none ∧ reg' = reg ∧
        scope.typeParams.lookup written.2 = some r := by
  obtain ⟨base, name⟩ := written
  cases base with
  | none =>
    have hparam := mem_keys_iff_lookup scope.typeParams name
    cases hl : scope.typeParams.lookup name with
    | some s =>
      rw [hl] at hparam
      obtain ⟨rfl, rfl⟩ := resolveName_param hl h
      exact .inr ⟨if_pos (hparam.mpr rfl), rfl, rfl⟩
    | none =>
      rw [hl] at hparam
      have hnot : name ∉ scope.typeParams.map Prod.fst := fun hm => nomatch hparam.mp hm
      exact .inl ⟨_, if_neg hnot, resolveName_slot hs hl h⟩
  | some base =>
    change scope.resolveQualified base name reg = _ at h
    cases base with
    | ident qualifier =>
      cases hq : scope.aliases.get? qualifier with
      | some q =>
        refine .inl ⟨(q, name), ?_, resolveQualified_ok hs hq h⟩
        change (scope.aliases.get? qualifier).map _ = _
        rw [hq]
        rfl
      | none =>
        unfold FileScope.resolveQualified at h
        dsimp only at h
        rw [hq] at h
        cases h
    | _ => cases h

end Slots

/-- A reference leads to the entry of a type that was written in place, or of a type parameter: no
table has it, unless it is the one of all interfaces. -/
def Registry.Nameless (reg : Registry) (r : RefId) : Prop :=
  reg.graph.namedRoot r = reg.graph.namedRoot TypeGraph.emptyInterface ∨
    ∀ q n, reg.ref? q n ≠ some (reg.graph.namedRoot r)

/-- What is behind a type that was read: the entry behind the slot at its head, or one without
a name. -/
def Registry.HeadedBy (reg : Registry) (r : RefId) : Option Slot → Prop
  | some slot => reg.LeadsTo slot.1 slot.2 r
  | none => reg.Nameless r

section Heads

variable {scope : FileScope} {reg reg' : Registry} {r : RefId}

theorem ofGraph_decorate_ok {mid : Registry} (hr : mid.Sound) {d : Decorator} {inner : RefId}
    (hinner : mid.graph.HasRef inner)
    (h : (Analysis.ofGraph (·.decorate d inner) : Analysis RefId) mid = .ok r reg') :
    Adds mid reg' ∧ reg'.graph.namedRoot r = mid.graph.namedRoot inner ∧
      ∀ x, mid.graph.HasRef x → reg'.graph.namedRoot x = mid.graph.namedRoot x := by
  have hx : Extends ⟨0⟩ (fun _ => False) mid (mid.onGraph (·.decorate d inner)).2 :=
    Registry.extends_decorate mid d hinner
  have hadds := Adds.of_extends hx
  have hg' := TypeGraph.reachable_grounded (hx.sound hr).graph
  have hkept : ∀ x, mid.graph.HasRef x → _ := fun x => View.core.of_kept
    (TypeGraph.reachable_grounded hr.graph) hg' hadds.keepsEdges
  have hentry := TypeGraph.entryAt?_addRef_self mid.graph (.decorated d inner)
  cases h
  exact ⟨hadds, (View.core_of_decorated hg' hentry).trans (hkept inner hinner), hkept⟩

theorem resolveType_written (hr : reg.Sound) (hs : scope.Sound reg) (type : TypeExpr)
    {written : Option Expr × String} {r : RefId} {reg' : Registry}
    (hw : writtenName? type = some written) (h : resolveType scope type reg = .ok r reg') :
    ∃ s mid, scope.resolveWritten written reg = .ok s mid ∧ mid.graph.HasRef s ∧ Adds mid reg' ∧
      reg'.graph.namedRoot r = reg'.graph.namedRoot s := by
  cases type with
  | named | selector =>
    obtain ⟨-, hhas, -⟩ := (resolveType_reads hr hs _).of_ok h
    cases hw
    exact ⟨r, reg', h, hhas, .refl _, rfl⟩
  | pointer elem | array _ elem | slice elem | chan _ elem | ellipsis elem =>
    obtain ⟨inner, mid', hinner, h⟩ := bind_ok h
    obtain ⟨s, mid, hlook, hhas, hadds, hroot⟩ := resolveType_written hr hs (elem ()) hw hinner
    obtain ⟨hx, hinner, -⟩ := (resolveType_reads hr hs (elem ())).of_ok hinner
    obtain ⟨hdecorated, hcore, hkept⟩ := ofGraph_decorate_ok (hx.sound hr) hinner h
    have hs' : mid'.graph.HasRef s := Nat.lt_of_lt_of_le hhas hadds.spares.refCount
    exact ⟨s, mid, hlook, hhas, hadds.trans hdecorated,
      hcore.trans (hroot.trans (hkept s hs').symm)⟩
  | paren inner => exact resolveType_written hr hs (inner ()) hw h
  | map | func | struct | interface | bad => cases hw
termination_by structural type

theorem resolveType_unwritten (hr : reg.Sound) (hs : scope.Sound reg) {type : TypeExpr}
    (hw : writtenName? type = none) (h : resolveType scope type reg = .ok r reg') :
    reg'.Nameless r := by
  obtain ⟨hx, -, hd⟩ := (resolveType_reads hr hs type).of_ok h
  obtain ⟨s, hover, -, hunwritten⟩ := hd.core
  rcases hunwritten hw with rfl | ⟨e, ty, he, hty, hlo⟩
  · have hreg' := hx.sound hr
    exact .inl (hover.namedRoot_eq (TypeGraph.reachable_grounded hreg'.graph) hreg'.emptyInterface)
  · refine .inr fun q n hslot => ?_
    rw [hover.namedRoot he] at hslot
    rcases hx.placed q n s hslot with hold | ⟨-, hplaced⟩
    · obtain ⟨e', he'⟩ := (hr.refs q n s hold).entry
      obtain rfl := Option.some.inj ((hx.entries s e' he').symm.trans he)
      exact Nat.not_lt_of_le hlo (TypeGraph.reachable_boundExist hr.graph s e ty he' hty)
    · obtain rfl : e = _ := by simpa [he] using hplaced
      cases hty

theorem resolveType_head (hr : reg.Sound) (hs : scope.Sound reg)
    (hparams : TypeParamsMade reg scope.typeParams) {type : TypeExpr}
    (h : resolveType scope type reg = .ok r reg') :
    reg'.HeadedBy r
      ((writtenName? type).bind (scope.slotOf? reg (scope.typeParams.map Prod.fst))) := by
  cases hw : writtenName? type with
  | none => exact resolveType_unwritten hr hs hw h
  | some written =>
    obtain ⟨s, mid, hlook, hhas, hadds, hroot⟩ := resolveType_written hr hs type hw h
    rw [Option.bind_some]
    rcases resolveWritten_ok hs hlook with ⟨slot, hslot, hobtained⟩ | ⟨hnone, rfl, hl⟩
    · rw [hslot]
      exact ⟨s, hadds.spares.refs _ _ _ hobtained.slot, hroot⟩
    · rw [hnone]
      obtain ⟨front, back, heq, -⟩ := List.lookup_eq_some_iff.mp hl
      obtain ⟨⟨e, he⟩, htable⟩ := hparams _ s (heq ▸ List.mem_append_right front List.mem_cons_self)
      obtain ⟨methods, he'⟩ := hadds.spares.names s e he
      refine .inr fun q m hslot => ?_
      rw [hroot, TypeGraph.namedRoot_of_named he'] at hslot
      rcases hadds.placed q m s hslot with hold | ⟨hnew, -⟩
      · exact htable q m hold
      · exact hnew hhas

end Heads

def FileScope.head? (scope : FileScope) (reg : Registry) (spec : TypeSpec) : Option Slot :=
  (writtenName? spec.type).bind (scope.slotOf? reg (Source.declaredNames spec.typeParams))

/-- The type of a declaration was read, in the scope of its type parameters. -/
def FileScope.ReadsType (scope : FileScope) (reg : Registry) (spec : TypeSpec) (target : RefId)
    (read : Registry) : Prop :=
  ∃ inner opened, scope.withTypeParams (Source.declaredNames spec.typeParams) reg =
    .ok inner opened ∧ resolveType inner spec.type opened = .ok target read

section Aliases

variable {scope : FileScope} {reg read : Registry} {spec : TypeSpec} {target : RefId}

theorem newTypeParams_packages (scope : FileScope) (names : List String) :
    ∀ {reg mid : Registry} {params : List (String × RefId)},
      scope.newTypeParams names reg = .ok params mid → mid.packages = reg.packages := by
  induction names with
  | nil =>
    intro reg mid params h
    cases h
    rfl
  | cons name names ih =>
    intro reg mid params h
    obtain ⟨_, _, hty, h⟩ := bind_ok h
    obtain ⟨_, _, hfresh, h⟩ := bind_ok h
    obtain ⟨_, _, hrest, h⟩ := bind_ok h
    cases h
    cases hfresh
    cases hty
    exact (ih hrest).trans rfl

theorem slotOf?_opened {inner : FileScope} {opened : Registry} {names : List String}
    (h : scope.withTypeParams names reg = .ok inner opened) (params : List String) :
    inner.slotOf? opened params = scope.slotOf? reg params := by
  obtain ⟨_, _, hparams, h⟩ := bind_ok h
  have hpackages := newTypeParams_packages scope names hparams
  cases h
  have href : ∀ q n, opened.ref? q n = reg.ref? q n := fun q n => by
    rw [Registry.ref?, Registry.package?, hpackages]
    rfl
  funext written
  obtain ⟨base, name⟩ := written
  cases base with
  | none => simp only [FileScope.slotOf?, href]
  | some base => cases base <;> rfl

theorem FileScope.ReadsType.head (h : scope.ReadsType reg spec target read) (hr : reg.Sound)
    (hs : scope.Sound reg) :
    Adds reg read ∧ read.graph.HasRef target ∧ read.HeadedBy target (scope.head? reg spec) := by
  obtain ⟨inner, opened, hopen, hread⟩ := h
  obtain ⟨hx, hsi, params, rfl, hnames, hmade⟩ := (withTypeParams_total hr hs _).of_ok hopen
  obtain ⟨hx', htarget, -⟩ := (resolveType_reads (hx.sound hr) hsi spec.type).of_ok hread
  have hhead := resolveType_head (hx.sound hr) hsi hmade hread
  refine ⟨(Adds.of_extends hx).trans (.of_extends hx'), htarget, ?_⟩
  rw [slotOf?_opened hopen] at hhead
  rwa [FileScope.head?, ← hnames]

theorem FileScope.ReadsType.declares (h : scope.ReadsType reg spec target read)
    (doc : Option Doc) (ha : spec.isAlias = true) : declareTypeSpec scope doc spec reg =
      match read.rename? scope.package spec.name target with
      | some reg' => .ok () reg'
      | none => .error (.unsupported .recursiveAlias) read := by
  obtain ⟨inner, opened, hopen, hread⟩ := h
  have hpkg : inner.package = scope.package := by
    obtain ⟨_, _, -, h⟩ := bind_ok hopen
    cases h
    rfl
  unfold declareTypeSpec
  rw [ha]
  refine (bind_eq_of_ok hopen).trans ?_
  rw [← hpkg]
  exact Registry.declareAlias_of_read hread

theorem declareTypeSpec_unread (doc : Option Doc) (hr : reg.Sound) (hs : scope.Sound reg)
    (ha : spec.isAlias = true) (h : ∀ target read, ¬scope.ReadsType reg spec target read) :
    ∃ e reg', declareTypeSpec scope doc spec reg = .error e reg' ∧
      e ≠ .unsupported .recursiveAlias ∧ Adds reg reg' := by
  cases hopen : scope.withTypeParams (Source.declaredNames spec.typeParams) reg with
  | error e opened => exact ((withTypeParams_total hr hs _).of_error hopen).elim
  | ok inner opened =>
    obtain ⟨hx, hsi, -⟩ := (withTypeParams_total hr hs _).of_ok hopen
    cases hread : resolveType inner spec.type opened with
    | ok target read => exact (h target read ⟨inner, opened, hopen, hread⟩).elim
    | error e reg' =>
      have hx' := (resolveType_reads (hx.sound hr) hsi spec.type).of_error hread
      exact ⟨e, reg', declareTypeSpec_eq_error doc ha hopen hread,
        (reading_seesNoCycle inner).ofType spec.type opened e reg' hread,
        (Adds.of_extends hx).trans (.of_extends hx')⟩

end Aliases

end GoPackages
