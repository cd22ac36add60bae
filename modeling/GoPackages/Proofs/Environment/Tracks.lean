import GoPackages.Proofs.Environment.Recorded
import GoPackages.Proofs.Registry.Builtins

/-!
# The table of a package while its files are read

Without aliases every reference of a table is that of a name itself. The invariant ties the
name's type and methods to what was recorded so far, and a name that the table does not have
yet to nothing at all.
-/
namespace GoPackages

open Source (TypeExpr TypeSpec)
open Registry (Extends Later builtinId)

/-- The registry while files of `pkg` are read, after `log` was recorded. The files may
declare the types `names`. -/
structure Tracks (pkg : PackageId) (names : List String) (base : Package) (log : List Listed)
    (p : Package) (reg : Registry) : Prop where
  sound : reg.Sound
  package : reg.package? pkg = some p
  contents : p.contents = log.foldl Listed.record base
  listed : ∀ spec ty, Listed.type spec ty ∈ log → p.types.get? spec.name = some ty
  bottom : ∃ e, reg.graph.entryAt? TypeGraph.emptyInterface = some (.named e) ∧
    e.package ≠ some pkg
  foreign : ∀ q n r, q ≠ pkg → reg.ref? q n = some r →
    ∃ e, reg.graph.entryAt? r = some (.named e) ∧ e.package ≠ some pkg
  own : ∀ n r, reg.ref? pkg n = some r → ∃ e, reg.graph.entryAt? r = some (.named e) ∧
    e.name = n ∧ e.package = some pkg ∧ (n ∈ names → e.type = p.types.get? n ∧
      (reg.ref? builtinId n = none →
        e.methods = ({} : MethodSet).insertAll (methodsNamed log n)))
  unknown : ∀ n ∈ names, reg.ref? pkg n = none → p.types.get? n = none ∧
    (reg.ref? builtinId n = none → methodsNamed log n = [])
  declared : ∀ n ∈ names, ∀ ty, p.types.get? n = some ty → ∃ data r,
    reg.graph.typeAt? ty = some data ∧ reg.ref? pkg n = some r ∧
      (data.kind.isDefined = true → data.declaredBy = some r)

theorem declareKind_kindOf (p : Package) (name : String) (ty : TypeId) (doc : Doc)
    (type : TypeExpr) : p.declareKind name ty (kindOf doc type) =
      p.declareKind name ty (kindOf [] type) := by
  cases type <;> rfl

namespace Tracks

variable {pkg : PackageId} {names : List String} {base p p' : Package} {log log' : List Listed}
  {reg reg' : Registry}

theorem own_entry (h : Tracks pkg names base log p reg) {n : String} {r : RefId} {e : NamedRef}
    (hr : reg.ref? pkg n = some r) (he : reg.graph.entryAt? r = some (.named e)) :
    e.name = n ∧ e.package = some pkg ∧ (n ∈ names → e.type = p.types.get? n ∧
      (reg.ref? builtinId n = none →
        e.methods = ({} : MethodSet).insertAll (methodsNamed log n))) := by
  obtain ⟨e', he', hown⟩ := h.own n r hr
  obtain rfl : e = e' := by simpa [he] using he'
  exact hown

theorem declared_lt (h : Tracks pkg names base log p reg) :
    ∀ n ∈ names, ∀ ty, p.types.get? n = some ty → ty.index < reg.graph.typeCount := by
  intro n hn ty ht
  obtain ⟨data, r, hd, -⟩ := h.declared n hn ty ht
  exact TypeGraph.hasType_of_typeAt? hd

theorem nextType_new (h : Tracks pkg names base log p reg) :
    ∀ n ∈ names, p.types.get? n ≠ some reg.nextType :=
  fun n hn ht => Nat.lt_irrefl _ (h.declared_lt n hn _ ht)

theorem extended (h : Tracks pkg names base log p reg) {free : TypeId → Prop}
    (hx : Extends pkg free reg reg')
    (hty : ∀ ty data, reg.graph.typeAt? ty = some data → ∃ kind,
      reg'.graph.typeAt? ty = some { data with kind } ∧ kind.isDefined = data.kind.isDefined) :
    ∃ refs, Tracks pkg names base log { p with refs } reg' := by
  obtain ⟨refs, hp⟩ := hx.packages pkg p h.package
  refine ⟨refs, ?_⟩
  constructor
  case sound => exact hx.sound h.sound
  case package => exact hp
  case contents => exact h.contents
  case listed => exact h.listed
  case bottom =>
    obtain ⟨e, he, hpkg⟩ := h.bottom
    exact ⟨e, hx.entries _ _ he, hpkg⟩
  case foreign =>
    intro q n r hq hr
    rcases hx.placed q n r hr with hold | ⟨-, he⟩
    · obtain ⟨e, he, hpkg⟩ := h.foreign q n r hq hold
      exact ⟨e, hx.entries _ _ he, hpkg⟩
    · exact ⟨_, he, fun heq => hq (Option.some.inj heq)⟩
  case own =>
    intro n r hr
    rcases hx.placed pkg n r hr with hold | ⟨hnew, he⟩
    · obtain ⟨e, he, hname, hpkg, hown⟩ := h.own n r hold
      refine ⟨e, hx.entries _ _ he, hname, hpkg, fun hn => ⟨(hown hn).1, fun hb => ?_⟩⟩
      exact (hown hn).2 (hx.none hb)
    · refine ⟨_, he, rfl, rfl, fun hn => ?_⟩
      have hnone : reg.ref? pkg n = none := by
        cases hold : reg.ref? pkg n with
        | none => rfl
        | some s =>
          obtain rfl := Option.some.inj (hr.symm.trans (hx.refs _ _ _ hold))
          exact absurd (h.sound.refs _ _ _ hold) hnew
      obtain ⟨htype, hmethods⟩ := h.unknown n hn hnone
      exact ⟨htype.symm, fun hb => by rw [hmethods (hx.none hb)]; rfl⟩
  case unknown =>
    intro n hn hnone
    obtain ⟨htype, hmethods⟩ := h.unknown n hn (hx.none hnone)
    exact ⟨htype, fun hb => hmethods (hx.none hb)⟩
  case declared =>
    intro n hn ty ht
    obtain ⟨data, r, hd, hr, howner⟩ := h.declared n hn ty ht
    obtain ⟨kind, hd', hkind⟩ := hty ty data hd
    exact ⟨_, r, hd', hx.refs _ _ _ hr, fun hdef => howner (hkind ▸ hdef)⟩

theorem read (h : Tracks pkg names base log p reg) (hx : Extends pkg reg.Unmade reg reg') :
    ∃ refs, Tracks pkg names base log { p with refs } reg' := by
  refine h.extended hx fun ty data hd => ⟨data.kind, ?_, rfl⟩
  exact hx.types ty data (fun hn => hn (TypeGraph.hasType_of_typeAt? hd)) hd

theorem relisted (h : Tracks pkg names base log p reg) (hg : reg'.graph = reg.graph)
    (href : ∀ q n, reg'.ref? q n = reg.ref? q n) (hp : reg'.package? pkg = some p')
    (htypes : p'.types = p.types) (hcontents : p'.contents = log'.foldl Listed.record base)
    (hlisted : ∀ spec ty, Listed.type spec ty ∈ log' → Listed.type spec ty ∈ log)
    (hmethods : ∀ n, methodsNamed log' n = methodsNamed log n) :
    Tracks pkg names base log' p' reg' := by
  constructor
  case sound =>
    refine ⟨hg ▸ h.sound.graph, fun q n r hr => ?_⟩
    rw [hg]
    exact h.sound.refs q n r (href q n ▸ hr)
  case package => exact hp
  case contents => exact hcontents
  case listed =>
    intro spec ty hm
    rw [htypes]
    exact h.listed spec ty (hlisted spec ty hm)
  case bottom => exact hg ▸ h.bottom
  case foreign =>
    intro q n r hq hr
    rw [hg]
    exact h.foreign q n r hq (href q n ▸ hr)
  case own =>
    intro n r hr
    rw [hg, htypes, hmethods, href]
    exact h.own n r (href pkg n ▸ hr)
  case unknown =>
    intro n hn hnone
    rw [htypes, hmethods, href]
    exact h.unknown n hn (href pkg n ▸ hnone)
  case declared =>
    intro n hn ty ht
    rw [hg, href]
    exact h.declared n hn ty (htypes ▸ ht)

theorem contents_snoc (h : Tracks pkg names base log p reg) (l : Listed) :
    (l.record p).contents = (log ++ [l]).foldl Listed.record base := by
  rw [contents_record, h.contents, List.foldl_append]
  rfl

theorem list (h : Tracks pkg names base log p reg) {l : Listed}
    (hrefs : ∀ p, (l.record p).refs = p.refs) (htypes : (l.record p).types = p.types)
    (hl : ∀ spec ty, l ≠ .type spec ty) (hmethods : ∀ n, l.methodOf? n = none) :
    Tracks pkg names base (log ++ [l]) (l.record p)
      (reg.modifyPackage pkg (Listed.record · l)) := by
  refine h.relisted rfl (fun q n => Registry.ref?_modifyPackage hrefs q n) ?_ htypes
    (h.contents_snoc l) ?_ ?_
  · exact Registry.package?_modifyPackage_self h.package _
  · intro spec ty hm
    rcases List.mem_append.mp hm with hm | hm
    · exact hm
    · exact absurd (List.mem_singleton.mp hm).symm (hl spec ty)
  · intro n
    rw [methodsNamed_append]
    simp [methodsNamed, hmethods]

theorem documented (h : Tracks pkg names base log p reg) (lines : Doc) :
    Tracks pkg names base log (p.appendDoc lines) (reg.modifyPackage pkg (·.appendDoc lines)) := by
  have href : ∀ q n, (reg.modifyPackage pkg (·.appendDoc lines)).ref? q n = reg.ref? q n :=
    Registry.ref?_modifyPackage (f := (·.appendDoc lines)) fun _ => rfl
  refine h.relisted rfl href ?_ rfl h.contents (fun _ _ hm => hm) fun _ => rfl
  exact Registry.package?_modifyPackage_self h.package _

theorem appended (h : Tracks pkg names base log p reg) {info : PackageInfo} {id : PackageId}
    (ha : reg.append (.ofInfo info) = .ok (id, reg')) :
    ∃ p', Tracks pkg names base log p' reg' ∧ p'.types = p.types := by
  obtain ⟨p', hp', hu⟩ := Registry.package?_append ha h.package
  refine ⟨p', ?_, types_of_unlinked hu⟩
  exact h.relisted (Registry.append_ok ha).2.2.1 (Registry.ref?_append ha) hp'
    (types_of_unlinked hu) ((contents_of_unlinked hu).trans h.contents) (fun _ _ hm => hm)
    fun _ => rfl

theorem attached (h : Tracks pkg names base log p reg) {r : RefId} {ty : TypeId}
    {data : TypeData} {owner : Option String} (hr : reg.graph.HasRef r)
    (hd : reg.graph.typeAt? ty = some data)
    (howner : ∀ n ∈ names, reg.ref? builtinId n = none →
      (owner = some n ↔ reg.ref? pkg n = some (reg.graph.namedRoot r))) :
    Tracks pkg names base (log ++ [.method owner data.name ty]) p
      (reg.withGraph fun g => (g.addMethod r ty).2) := by
  have hmethods : ∀ n, methodsNamed (log ++ [.method owner data.name ty]) n =
      methodsNamed log n ++ if owner = some n then [(data.name, ty)] else [] := by
    intro n
    rw [methodsNamed_append]
    cases owner with
    | none => rfl
    | some o => by_cases ho : o = n <;> simp [methodsNamed, Listed.methodOf?, ho]
  have hforeign : ∀ s e, reg.graph.entryAt? s = some (.named e) → e.package ≠ some pkg →
      ∃ e', (reg.graph.addMethod r ty).2.entryAt? s = some (.named e') ∧ e'.package ≠ some pkg := by
    intro s e he hpkg
    refine ⟨_, TypeGraph.entryAt?_addMethod he hd, ?_⟩
    split <;> exact hpkg
  constructor
  case sound => exact h.sound.step (.addMethod r ty) ⟨hr, TypeGraph.hasType_of_typeAt? hd⟩
  case package => exact h.package
  case contents => exact h.contents_snoc (.method owner data.name ty)
  case listed =>
    intro spec t hm
    rcases List.mem_append.mp hm with hm | hm
    · exact h.listed spec t hm
    · cases List.mem_singleton.mp hm
  case bottom =>
    obtain ⟨e, he, hpkg⟩ := h.bottom
    exact hforeign _ e he hpkg
  case foreign =>
    intro q n s hq hs
    obtain ⟨e, he, hpkg⟩ := h.foreign q n s hq hs
    exact hforeign s e he hpkg
  case own =>
    intro n s hs
    obtain ⟨e, he, hname, hpkg, hown⟩ := h.own n s hs
    refine ⟨_, TypeGraph.entryAt?_addMethod he hd, ?_⟩
    by_cases hroot : reg.graph.namedRoot r = s
    · rw [if_pos hroot]
      refine ⟨hname, hpkg, fun hn => ⟨(hown hn).1, fun hb => ?_⟩⟩
      have ho : owner = some n := (howner n hn hb).mpr (hroot ▸ hs)
      rw [hmethods, if_pos ho, (hown hn).2 hb, OrderedMap.insertAll, OrderedMap.insertAll,
        List.foldl_append]
      rfl
    · rw [if_neg hroot]
      refine ⟨hname, hpkg, fun hn => ⟨(hown hn).1, fun hb => ?_⟩⟩
      have ho : owner ≠ some n := fun ho => hroot (Option.some.inj
        (((howner n hn hb).mp ho).symm.trans hs))
      rw [hmethods, if_neg ho, List.append_nil]
      exact (hown hn).2 hb
  case unknown =>
    intro n hn hnone
    obtain ⟨htype, hnil⟩ := h.unknown n hn hnone
    refine ⟨htype, fun hb => ?_⟩
    have ho : owner ≠ some n := fun ho => by
      have hs := (howner n hn hb).mp ho
      cases hs.symm.trans hnone
    rw [hmethods, if_neg ho, List.append_nil]
    exact hnil hb
  case declared =>
    intro n hn t ht
    obtain ⟨data', s, hd', hs, hdef⟩ := h.declared n hn t ht
    refine ⟨data', s, ?_, hs, hdef⟩
    rw [TypeGraph.typeAt?, Registry.withGraph, TypeGraph.types_addMethod]
    exact hd'

section

variable {name : String} {r : RefId} {ty : TypeId}

theorem bind_foreign (h : Tracks pkg names base log p reg) (hr : reg.ref? pkg name = some r)
    {x : RefId} {e : NamedRef} (he : reg.graph.entryAt? x = some (.named e))
    (hpkg : e.package ≠ some pkg) :
    (reg.graph.bind r ty).2.entryAt? x = some (.named e) := by
  obtain ⟨bound, hbound, -, howner, -⟩ := h.own name r hr
  refine (TypeGraph.entryAt?_bind_other hbound ?_ ty).trans he
  rintro rfl
  obtain rfl : bound = e := by simpa [hbound] using he
  exact hpkg howner

theorem bind_own (h : Tracks pkg names base log p reg) (hr : reg.ref? pkg name = some r)
    {n : String} {s : RefId} (hs : reg.ref? pkg n = some s) :
    ∃ e, (reg.graph.bind r ty).2.entryAt? s = some (.named e) ∧ e.name = n ∧
      e.package = some pkg ∧ (n ∈ names → e.type = (p.types.declare name ty).get? n ∧
        (reg.ref? builtinId n = none →
          e.methods = ({} : MethodSet).insertAll (methodsNamed log n))) := by
  obtain ⟨e, he, hname, hpkg, hown⟩ := h.own n s hs
  obtain ⟨bound, hbound, -⟩ := h.own name r hr
  by_cases hsr : r = s
  · subst hsr
    obtain rfl : name = n := (h.own_entry hr he).1.symm.trans hname
    refine ⟨_, TypeGraph.entryAt?_bind_named he ty, hname, hpkg, fun hn => ⟨?_, (hown hn).2⟩⟩
    exact (DeclList.get?_declare_self _ _ _).symm
  · refine ⟨e, (TypeGraph.entryAt?_bind_other hbound hsr ty).trans he, hname, hpkg, fun hn => ?_⟩
    have hne : name ≠ n := by
      rintro rfl
      exact hsr (Option.some.inj (hr.symm.trans hs))
    rw [DeclList.get?_declare_of_ne hne]
    exact hown hn

theorem bind_declared (h : Tracks pkg names base log p reg) (hr : reg.ref? pkg name = some r)
    {data : TypeData} (hd : reg.graph.typeAt? ty = some data)
    (hnew : ∀ n ∈ names, p.types.get? n ≠ some ty) {n : String} (hn : n ∈ names) {t : TypeId}
    (ht : (p.types.declare name ty).get? n = some t) :
    ∃ data r', (reg.graph.bind r ty).2.typeAt? t = some data ∧ reg.ref? pkg n = some r' ∧
      (data.kind.isDefined = true → data.declaredBy = some r') := by
  by_cases hname : name = n
  · subst hname
    obtain rfl : ty = t := by simpa using ht
    obtain ⟨e, he, -⟩ := h.own name r hr
    refine ⟨_, r, TypeGraph.typeAt?_bind_self hd r, hr, ?_⟩
    split
    · intro _
      exact congrArg some (TypeGraph.namedRoot_of_named he)
    next hdef => exact fun hdef' => absurd hdef' hdef
  · rw [DeclList.get?_declare_of_ne hname] at ht
    obtain ⟨data', s, hd', hs, hdef⟩ := h.declared n hn t ht
    refine ⟨data', s, ?_, hs, hdef⟩
    have hty : ty ≠ t := by
      rintro rfl
      exact hnew n hn ht
    exact (TypeGraph.typeAt?_bind_of_ne hty r).trans hd'

end

theorem bound (h : Tracks pkg names base log p reg) {spec : TypeSpec} {doc : Doc} {r : RefId}
    {ty : TypeId} {data : TypeData} (hfree : p.types.get? spec.name = none)
    (hr : reg.ref? pkg spec.name = some r) (hd : reg.graph.typeAt? ty = some data)
    (hnew : ∀ n ∈ names, p.types.get? n ≠ some ty) :
    Tracks pkg names base (log ++ [.type spec ty])
      (p.declareKind spec.name ty (kindOf [] spec.type))
      ((reg.withGraph fun g => (g.bind r ty).2).modifyPackage pkg
        (·.declareKind spec.name ty (kindOf doc spec.type))) := by
  have hmethods : ∀ n, methodsNamed (log ++ [.type spec ty]) n = methodsNamed log n := by
    intro n
    rw [methodsNamed_append]
    exact List.append_nil _
  have href : ∀ q n, ((reg.withGraph fun g => (g.bind r ty).2).modifyPackage pkg
      (·.declareKind spec.name ty (kindOf doc spec.type))).ref? q n = reg.ref? q n :=
    fun q n => Registry.ref?_modifyPackage (fun p => Registry.declareKind_refs p _ ty _) q n
  have htypes : (p.declareKind spec.name ty (kindOf [] spec.type)).types =
      p.types.declare spec.name ty := declareKind_types ..
  constructor
  case sound =>
    have hstep := h.sound.step (.bind r ty)
      ⟨h.sound.refs _ _ _ hr, TypeGraph.hasType_of_typeAt? hd⟩
    exact hstep.modifyPackage fun p => Registry.declareKind_refs p _ ty _
  case package =>
    rw [← declareKind_kindOf p spec.name ty doc spec.type]
    exact Registry.package?_modifyPackage_self h.package _
  case contents => exact h.contents_snoc (.type spec ty)
  case listed =>
    intro spec' t hm
    rw [htypes]
    rcases List.mem_append.mp hm with hm | hm
    · have ht := h.listed spec' t hm
      have hne : spec.name ≠ spec'.name := by
        intro heq
        rw [← heq, hfree] at ht
        cases ht
      exact (DeclList.get?_declare_of_ne hne _ _).trans ht
    · cases List.mem_singleton.mp hm
      exact DeclList.get?_declare_self _ _ _
  case bottom =>
    obtain ⟨e, he, hpkg⟩ := h.bottom
    exact ⟨e, h.bind_foreign hr he hpkg, hpkg⟩
  case foreign =>
    intro q n s hq hs
    obtain ⟨e, he, hpkg⟩ := h.foreign q n s hq (href q n ▸ hs)
    exact ⟨e, h.bind_foreign hr he hpkg, hpkg⟩
  case own =>
    intro n s hs
    rw [hmethods, htypes, href]
    exact h.bind_own hr (href pkg n ▸ hs)
  case unknown =>
    intro n hn hnone
    rw [href] at hnone
    rw [hmethods, htypes, href]
    have hne : spec.name ≠ n := by
      rintro rfl
      cases hr.symm.trans hnone
    rw [DeclList.get?_declare_of_ne hne]
    exact h.unknown n hn hnone
  case declared =>
    intro n hn t ht
    rw [htypes] at ht
    rw [href]
    exact h.bind_declared hr hd hnew hn ht

/-- The first declaration of a type: its name has a placeholder or nothing until then. -/
theorem declare (h : Tracks pkg names base log p reg) {spec : TypeSpec} (doc : Doc)
    (hn : spec.name ∈ names) (hfree : p.types.get? spec.name = none) :
    Later reg (reg.declare pkg spec.name (kindOf doc spec.type)).2 ∧
    ∃ p', Tracks pkg names base (log ++ [.type spec reg.nextType]) p'
        (reg.declare pkg spec.name (kindOf doc spec.type)).2 ∧
      p'.types = p.types.declare spec.name reg.nextType := by
  have hx : Extends pkg reg.Unmade reg (reg.introduce pkg spec.name (kindOf doc spec.type)).2 :=
    Registry.extends_introduce reg pkg spec.name _ pkg _
  obtain ⟨refs, hmid⟩ := h.read hx
  have hr : (reg.introduce pkg spec.name (kindOf doc spec.type)).2.ref? pkg spec.name = some _ :=
    Registry.introduce_ref? h.package
  obtain ⟨e, he, -, -, hown⟩ := hmid.own _ _ hr
  have hd := Registry.introduce_typeAt? reg pkg spec.name (kindOf doc spec.type)
  rw [Registry.declare_eq]
  refine ⟨?_, _, hmid.bound hfree hr hd h.nextType_new, declareKind_types ..⟩
  have hroot := (TypeGraph.namedRoot_of_named he).symm ▸ he
  have hkeep := TypeGraph.keeps_bind hroot ((hown hn).1.trans hfree) reg.nextType
  let binding (g : TypeGraph) : TypeGraph :=
    (g.bind (reg.introduce pkg spec.name (kindOf doc spec.type)).1 reg.nextType).2
  have hbind := Registry.later_withGraph (f := binding) hkeep
  refine ((hx.later hx.keeps_all).trans hbind).trans ?_
  exact Registry.later_modifyPackage _ _ fun p => by
    cases kindOf doc spec.type <;> exact ⟨rfl, rfl, rfl⟩

section

variable {k n : String} {r s : RefId} {e : NamedRef}

theorem ref?_eq_root_iff (h : Tracks pkg names base log p reg) (hover : reg.graph.Over s r)
    (hs : reg.ref? pkg k = some s) :
    k = n ↔ reg.ref? pkg n = some (reg.graph.namedRoot r) := by
  obtain ⟨e, he, hname, -⟩ := h.own k s hs
  rw [hover.namedRoot he]
  constructor
  · rintro rfl
    exact hs
  · intro hn
    exact hname.symm.trans (h.own_entry hn he).1

theorem ref?_ne_root (h : Tracks pkg names base log p reg) (hover : reg.graph.Over s r)
    (he : reg.graph.entryAt? s = some (.named e)) (hpkg : e.package ≠ some pkg) :
    reg.ref? pkg n ≠ some (reg.graph.namedRoot r) := by
  rw [hover.namedRoot he]
  intro hn
  exact hpkg (h.own_entry hn he).2.1

end

end Tracks

end GoPackages
