import GoPackages.Proofs.Registry.Builtins
import GoPackages.Proofs.Registry.Course

/-!
# Tables of names that are declared once

As long as no name is declared twice, a table holds for each name an entry of its own, with the
type that the name was declared as, unless the name was declared as an alias: then it holds the
target. A reference that a table once had for a name stands for the same as the one it has later.
-/
namespace GoPackages.Registry

def Once (named : List Naming) : Prop := (named.map Naming.key).Nodup

instance (named : List Naming) : Decidable (Once named) :=
  inferInstanceAs (Decidable (named.map Naming.key).Nodup)

def Aliased (named : List Naming) (q : PackageId) (n : String) : Prop :=
  ∃ target, ⟨q, n, .alias target⟩ ∈ named

structure Tabled (named : List Naming) (reg : Registry) : Prop where
  sound : reg.Sound
  own : ∀ q n r, ¬Aliased named q n → reg.ref? q n = some r → ∃ e,
    reg.graph.entryAt? r = some (.named e) ∧
      (∀ ty, reg.listed? q n = some ty → e.type = some ty) ∧
      (q ≠ builtinId → reg.listed? q n = none → e.type = none)
  apart : ∀ q n q' n' r, ¬Aliased named q n → ¬Aliased named q' n' →
    reg.ref? q n = some r → reg.ref? q' n' = some r → (q, n) = (q', n')
  placed : ∀ q n ty, reg.listed? q n = some ty → ∃ r, reg.ref? q n = some r
  listed : ∀ q n ty, reg.listed? q n = some ty →
    q = builtinId ∨ ⟨q, n, .type ty⟩ ∈ named
  types : ∀ q n ty, ⟨q, n, .type ty⟩ ∈ named → reg.listed? q n = some ty
  aliases : ∀ q n target, ⟨q, n, .alias target⟩ ∈ named → reg.ref? q n = some target

theorem listed?_declare {reg : Registry} {pkg : PackageId} (hp : ∃ p, reg.package? pkg = some p)
    (name : String) (kind : TypeKind) (q : PackageId) (n : String) :
    (reg.declare pkg name kind).2.listed? q n =
      if (q, n) = (pkg, name) then some reg.nextType else reg.listed? q n := by
  cases hq : reg.package? q with
  | none =>
    have hne : q ≠ pkg := by
      rintro rfl
      obtain ⟨p, hp⟩ := hp
      cases hp.symm.trans hq
    have hsize : (reg.declare pkg name kind).2.packages.size = reg.packages.size := by
      rw [declare_eq, packages_size_modifyPackage]
      exact (extends_introduce reg pkg name kind pkg fun _ => False).packageCount
    have hq' : (reg.declare pkg name kind).2.package? q = none := by
      rw [package?, Array.getElem?_eq_none_iff] at hq ⊢
      rwa [hsize]
    rw [if_neg fun h => hne (Prod.mk.inj h).1, listed?, listed?, hq, hq']
  | some p =>
    obtain ⟨refs, hq'⟩ := declare_package? hq pkg name kind
    rw [listed?, listed?, hq, hq', Option.bind_some, Option.bind_some]
    by_cases hpkg : pkg = q
    · subst hpkg
      rw [if_pos rfl, declareKind_types]
      by_cases hn : name = n
      · subst hn
        rw [if_pos rfl]
        exact DeclList.get?_declare_self _ _ _
      · rw [if_neg fun h => hn (Prod.mk.inj h).2.symm]
        exact DeclList.get?_declare_of_ne hn _ _
    · rw [if_neg hpkg, if_neg fun h => hpkg (Prod.mk.inj h).1.symm]

section Tabled

variable {named before : List Naming} {reg mid reg' : Registry} {pkg : PackageId} {name : String}
  {target : RefId}

theorem Aliased.of_append {d : Naming} {q : PackageId} {n : String}
    (h : ¬Aliased (named ++ [d]) q n) : ¬Aliased named q n :=
  fun ⟨target, hm⟩ => h ⟨target, List.mem_append_left _ hm⟩

theorem Once.of_append_left (h : Once (before ++ named)) : Once before := by
  unfold Once at h
  rw [List.map_append] at h
  exact h.of_append_left

theorem Once.snoc {d : Naming} (h : Once (named ++ [d])) :
    Once named ∧ ∀ m, ⟨d.package, d.name, m⟩ ∉ named := by
  unfold Once at h
  rw [List.map_append, List.nodup_append] at h
  refine ⟨h.1, fun m hm => ?_⟩
  exact h.2.2 _ (List.mem_map_of_mem hm) _ (List.mem_map_of_mem (List.mem_singleton_self d)) rfl

theorem Once.latest {d : Naming} (h : Once (before ++ (named ++ [d]))) :
    Once (before ++ named) ∧ ∀ m, ⟨d.package, d.name, m⟩ ∉ before ++ named := by
  rw [← List.append_assoc] at h
  exact h.snoc

theorem ne_key (hnew : ∀ m, ⟨pkg, name, m⟩ ∉ named) {d : Naming} (hd : d ∈ named) :
    (d.package, d.name) ≠ (pkg, name) := by
  rintro hkey
  obtain ⟨rfl, rfl⟩ := Prod.mk.inj hkey
  exact hnew d.meant hd

namespace Tabled

theorem adds (h : Tabled named reg) (ha : Adds reg reg') : Tabled named reg' where
  sound := ha.spares.sound h.sound
  own q n r hn hr := by
    rw [ha.listed q n]
    rcases ha.placed q n r hr with hold | ⟨hnew, e, he, -, -, hnone⟩
    · obtain ⟨e, he, hty, hnone⟩ := h.own q n r hn hold
      obtain ⟨methods, he'⟩ := ha.spares.names r e he
      exact ⟨_, he', hty, hnone⟩
    · refine ⟨e, he, fun ty hl => ?_, fun _ _ => hnone⟩
      obtain ⟨s, hs⟩ := h.placed q n ty hl
      obtain rfl := Option.some.inj (hr.symm.trans (ha.spares.refs q n s hs))
      exact absurd (h.sound.refs q n _ hs) hnew
  apart q n q' n' r hn hn' hr hr' := by
    rcases ha.placed q n r hr, ha.placed q' n' r hr' with
      ⟨hold | ⟨hnew, e, he, hname, hpkg, -⟩, hold' | ⟨hnew', e', he', hname', hpkg', -⟩⟩
    · exact h.apart q n q' n' r hn hn' hold hold'
    · exact absurd (h.sound.refs q n r hold) hnew'
    · exact absurd (h.sound.refs q' n' r hold') hnew
    · obtain rfl : e = e' := by simpa [he] using he'
      rw [← hname, ← hname', Option.some.inj (hpkg.symm.trans hpkg')]
  placed q n ty hl := by
    obtain ⟨r, hr⟩ := h.placed q n ty ((ha.listed q n).symm.trans hl)
    exact ⟨r, ha.spares.refs q n r hr⟩
  listed q n ty hl := h.listed q n ty ((ha.listed q n).symm.trans hl)
  types q n ty hm := (ha.listed q n).trans (h.types q n ty hm)
  aliases q n target hm := ha.spares.refs q n target (h.aliases q n target hm)

theorem canonical_slot (h : Tabled named reg) {q : PackageId} {n : String} {r : RefId}
    (hn : ¬Aliased named q n) (hr : reg.ref? q n = some r) :
    reg.graph.canonical r = r ∧ reg.graph.namedRoot r = r := by
  obtain ⟨e, he, -⟩ := h.own q n r hn hr
  exact ⟨TypeGraph.canonical_of_named he, TypeGraph.namedRoot_of_named he⟩

theorem introduce (h : Tabled named reg) (pkg : PackageId) (name : String) (kind : TypeKind) :
    Tabled named (reg.introduce pkg name kind).2 :=
  h.adds (.of_extends (extends_introduce reg pkg name kind pkg fun _ => False))

theorem declare_entry (h : Tabled named reg) (hp : ∃ p, reg.package? pkg = some p)
    (hn : ¬Aliased named pkg name) (kind : TypeKind) :
    ∃ r e, (reg.introduce pkg name kind).2.ref? pkg name = some r ∧
      (reg.introduce pkg name kind).2.graph.entryAt? r = some (.named e) ∧
      (pkg ≠ builtinId → reg.listed? pkg name = none → e.type = none) ∧
      (reg.declare pkg name kind).2.graph.entryAt? r =
        some (.named { e with type := some reg.nextType }) ∧
      ∀ x, x ≠ r → (reg.declare pkg name kind).2.graph.entryAt? x =
        (reg.introduce pkg name kind).2.graph.entryAt? x := by
  obtain ⟨p, hp⟩ := hp
  have hm := h.introduce pkg name kind
  have href : (reg.introduce pkg name kind).2.ref? pkg name = _ := introduce_ref? hp
  obtain ⟨e, he, -, hfree⟩ := hm.own pkg name _ hn href
  have hlisted : (reg.introduce pkg name kind).2.listed? pkg name = reg.listed? pkg name :=
    (Adds.of_extends (extends_introduce reg pkg name kind pkg fun _ => False)).listed pkg name
  refine ⟨_, e, href, he, fun hb hl => hfree hb (hlisted.trans hl), ?_, fun x hx => ?_⟩
  · rw [declare_eq]
    exact TypeGraph.entryAt?_bind_named he _
  · rw [declare_eq]
    exact TypeGraph.entryAt?_bind_other he hx.symm _

theorem define (h : Tabled named reg) (hp : ∃ p, reg.package? pkg = some p)
    (hnew : ∀ m, ⟨pkg, name, m⟩ ∉ named) (kind : TypeKind) :
    Tabled (named ++ [⟨pkg, name, .type reg.nextType⟩]) (reg.declare pkg name kind).2 := by
  have hx := extends_introduce reg pkg name kind pkg fun _ => False
  have hm := h.introduce pkg name kind
  have hn : ¬Aliased named pkg name := fun ⟨target, hmem⟩ => hnew _ hmem
  obtain ⟨slot, e, hslot, he, -, hbound, hother⟩ := h.declare_entry hp hn kind
  have href : ∀ q n, (reg.declare pkg name kind).2.ref? q n =
      (reg.introduce pkg name kind).2.ref? q n := declare_ref? reg pkg name kind
  have hl := listed?_declare hp name kind
  have hold : ∀ q n, (reg.introduce pkg name kind).2.listed? q n = reg.listed? q n :=
    (Adds.of_extends hx).listed
  have halias : ∀ q n, ¬Aliased (named ++ [⟨pkg, name, .type reg.nextType⟩]) q n →
      ¬Aliased named q n := fun _ _ => Aliased.of_append
  constructor
  case sound => exact declare_sound h.sound pkg name kind
  case own =>
    intro q n r hna hr
    rw [href] at hr
    rw [hl]
    by_cases hkey : (q, n) = (pkg, name)
    · obtain ⟨rfl, rfl⟩ := Prod.mk.inj hkey
      obtain rfl := Option.some.inj (hslot.symm.trans hr)
      refine ⟨_, hbound, fun ty hty => ?_, fun _ hnone => ?_⟩
      · rwa [if_pos rfl] at hty
      · rw [if_pos rfl] at hnone
        cases hnone
    · obtain ⟨e', he', htypes⟩ := hm.own q n r (halias q n hna) hr
      have hne : r ≠ slot := by
        rintro rfl
        exact hkey (hm.apart _ _ _ _ _ (halias q n hna) hn hr hslot)
      rw [if_neg hkey]
      rw [hold] at htypes
      exact ⟨e', (hother r hne).trans he', htypes⟩
  case apart =>
    intro q n q' n' r hna hna' hr hr'
    rw [href] at hr hr'
    exact hm.apart q n q' n' r (halias q n hna) (halias q' n' hna') hr hr'
  case placed =>
    intro q n ty hty
    rw [hl] at hty
    split at hty
    next hkey =>
      obtain ⟨rfl, rfl⟩ := Prod.mk.inj hkey
      exact ⟨slot, (href q n).trans hslot⟩
    next =>
      obtain ⟨r, hr⟩ := hm.placed q n ty ((hold q n).trans hty)
      exact ⟨r, (href q n).trans hr⟩
  case listed =>
    intro q n ty hty
    rw [hl] at hty
    split at hty
    next hkey =>
      obtain ⟨rfl, rfl⟩ := Prod.mk.inj hkey
      obtain rfl := Option.some.inj hty
      exact .inr (List.mem_append_right _ (List.mem_singleton_self _))
    next => exact (h.listed q n ty hty).imp_right (List.mem_append_left _)
  case types =>
    intro q n ty hmem
    rw [hl]
    rcases List.mem_append.mp hmem with hold | hself
    · rw [if_neg (ne_key hnew hold)]
      exact h.types q n ty hold
    · cases List.mem_singleton.mp hself
      rw [if_pos rfl]
  case aliases =>
    intro q n target hmem
    rw [href]
    rcases List.mem_append.mp hmem with hmem | hmem
    · exact hx.refs q n target (h.aliases q n target hmem)
    · cases List.mem_singleton.mp hmem

theorem rename (h : Tabled named reg) (ht : Renamed reg pkg name target reg')
    (hnew : ∀ m, ⟨pkg, name, m⟩ ∉ named) :
    Tabled (named ++ [⟨pkg, name, .alias target⟩]) reg' := by
  have hn : ¬Aliased named pkg name := fun ⟨target, hmem⟩ => hnew _ hmem
  have hother : ∀ q n, ¬Aliased (named ++ [⟨pkg, name, .alias target⟩]) q n →
      (q, n) ≠ (pkg, name) ∧ ¬Aliased named q n := by
    refine fun q n hna => ⟨fun hkey => ?_, Aliased.of_append hna⟩
    obtain ⟨rfl, rfl⟩ := Prod.mk.inj hkey
    exact hna ⟨target, List.mem_append_right _ (List.mem_singleton_self _)⟩
  constructor
  case sound => exact ht.sound
  case own =>
    intro q n r hna hr
    obtain ⟨hkey, hna⟩ := hother q n hna
    rw [ht.others q n hkey] at hr
    obtain ⟨e, he, htypes⟩ := h.own q n r hna hr
    obtain ⟨methods, he'⟩ := ht.names r e he fun existing hex heq => by
      rw [(h.canonical_slot hn hex).2] at heq
      subst heq
      exact hkey (h.apart q n pkg name r hna hn hr hex)
    rw [ht.listed]
    exact ⟨_, he', htypes⟩
  case apart =>
    intro q n q' n' r hna hna' hr hr'
    obtain ⟨hkey, hna⟩ := hother q n hna
    obtain ⟨hkey', hna'⟩ := hother q' n' hna'
    rw [ht.others q n hkey] at hr
    rw [ht.others q' n' hkey'] at hr'
    exact h.apart q n q' n' r hna hna' hr hr'
  case placed =>
    intro q n ty hty
    rw [ht.listed] at hty
    by_cases hkey : (q, n) = (pkg, name)
    · obtain ⟨rfl, rfl⟩ := Prod.mk.inj hkey
      exact ⟨target, ht.own⟩
    · obtain ⟨r, hr⟩ := h.placed q n ty hty
      exact ⟨r, (ht.others q n hkey).trans hr⟩
  case listed =>
    intro q n ty hty
    rw [ht.listed] at hty
    exact (h.listed q n ty hty).imp_right (List.mem_append_left _)
  case types =>
    intro q n ty hmem
    rw [ht.listed]
    rcases List.mem_append.mp hmem with hmem | hmem
    · exact h.types q n ty hmem
    · cases List.mem_singleton.mp hmem
  case aliases =>
    intro q n target' hmem
    rcases List.mem_append.mp hmem with hold | hself
    · exact (ht.others q n (ne_key hnew hold)).trans (h.aliases q n target' hold)
    · cases List.mem_singleton.mp hself
      exact ht.own

end Tabled

/-- The tables over any course without a second declaration of a name. -/
theorem Course.tabled (h : Course reg named reg') (ht : Tabled before reg)
    (honce : Once (before ++ named)) : Tabled (before ++ named) reg' := by
  induction h with
  | refl => rwa [List.append_nil]
  | adds _ ha ih => exact (ih honce).adds ha
  | define name kind _ hp ih =>
    obtain ⟨hbefore, hnew⟩ := honce.latest
    rw [← List.append_assoc]
    exact (ih hbefore).define hp hnew kind
  | rename _ hp htarget hr ih =>
    obtain ⟨hbefore, hnew⟩ := honce.latest
    have hmid := ih hbefore
    rw [← List.append_assoc]
    exact hmid.rename (rename?_effect hmid.sound hp htarget hr) hnew

theorem Once.meant_unique (h : Once named) {q : PackageId} {n : String} {m m' : Meant}
    (hm : ⟨q, n, m⟩ ∈ named) (hm' : ⟨q, n, m'⟩ ∈ named) : m = m' :=
  congrArg Naming.meant (List.inj_on_of_nodup_map h hm hm' rfl)

theorem Once.not_aliased (h : Once named) {q : PackageId} {n : String} {ty : TypeId}
    (hm : ⟨q, n, .type ty⟩ ∈ named) : ¬Aliased named q n :=
  fun ⟨target, ha⟩ => by cases h.meant_unique hm ha

theorem Tabled.resolved?_slot (h : Tabled named reg) {q : PackageId} {n : String} {r : RefId}
    {ty : TypeId} (hn : ¬Aliased named q n) (hr : reg.ref? q n = some r)
    (hl : reg.listed? q n = some ty) : reg.graph.resolved? r = some ty := by
  obtain ⟨e, he, htype, -⟩ := h.own q n r hn hr
  rw [TypeGraph.resolved?, (TypeGraph.Path.named he).named?_eq he]
  exact htype ty hl

/-- Behind aliases, `r` is what the package has for the name. -/
def NameOf (reg : Registry) (q : PackageId) (n : String) (r : RefId) : Prop :=
  ∃ s, reg.ref? q n = some s ∧ reg.graph.canonical r = reg.graph.canonical s

theorem NameOf.later {q : PackageId} {n : String} {r : RefId} (h : reg.NameOf q n r)
    (hr : reg.Sound) (hhas : reg.graph.HasRef r) (hl : Leads reg reg')
    (hslot : ∀ s, reg.ref? q n = some s → reg'.NameOf q n s) : reg'.NameOf q n r := by
  obtain ⟨s, hs, heq⟩ := h
  obtain ⟨s', hs', heq'⟩ := hslot s hs
  exact ⟨s', hs', (hl.views .whole r s hhas (hr.refs q n s hs) heq).trans heq'⟩

theorem Tabled.renamed_slot (h : Tabled named reg) (hn : ¬Aliased named pkg name)
    (ht : reg.graph.HasRef target) (hr : Renamed reg pkg name target reg') {q : PackageId}
    {n : String} {r : RefId} (hslot : reg.ref? q n = some r) : reg'.NameOf q n r := by
  by_cases hkey : (q, n) = (pkg, name)
  · obtain ⟨rfl, rfl⟩ := Prod.mk.inj hkey
    obtain ⟨hself, hroot⟩ := h.canonical_slot hn hslot
    refine ⟨target, hr.own, ?_⟩
    have hmoved := hr.moved .whole r r hslot (h.sound.refs q n r hslot) (hself.trans hroot.symm)
    exact hmoved.trans (hr.stayed .whole target ht (hr.apart .whole)).symm
  · exact ⟨r, (hr.others q n hkey).trans hslot, rfl⟩

theorem Course.nameOf_slot (h : Course reg named reg') (ht : Tabled before reg)
    (honce : Once (before ++ named)) {q : PackageId} {n : String} {r : RefId}
    (hr : reg.ref? q n = some r) : reg'.NameOf q n r := by
  have hhas : ∀ {named mid}, Course reg named mid → mid.graph.HasRef r := fun hc =>
    (hc.leads ht.sound).refs r (ht.sound.refs q n r hr)
  induction h with
  | refl => exact ⟨r, hr, rfl⟩
  | @adds mid reg' named hc ha ih =>
    have hmid := hc.tabled ht honce
    exact (ih honce).later hmid.sound (hhas hc) (ha.leads hmid.sound)
      fun s hs => ⟨s, ha.spares.refs q n s hs, rfl⟩
  | @define mid named pkg name kind hc hp ih =>
    obtain ⟨hbefore, hnew⟩ := honce.latest
    have hmid := hc.tabled ht hbefore
    refine (ih hbefore).later hmid.sound (hhas hc) (leads_declare hmid.sound pkg name kind)
      fun s hs => ⟨s, ?_, rfl⟩
    rw [declare_ref?]
    exact (extends_introduce mid pkg name kind pkg fun _ => False).refs q n s hs
  | @rename mid reg' named pkg name target hc hp htarget hren ih =>
    obtain ⟨hbefore, hnew⟩ := honce.latest
    have hmid := hc.tabled ht hbefore
    have heffect := rename?_effect hmid.sound hp htarget hren
    exact (ih hbefore).later hmid.sound (hhas hc) (heffect.leads hmid.sound htarget)
      fun s hs => hmid.renamed_slot (fun ⟨t, hm⟩ => hnew _ hm) htarget heffect hs

theorem Tabled.free_slot (h : Tabled named reg) (hb : pkg ≠ builtinId)
    (hnew : ∀ m, ⟨pkg, name, m⟩ ∉ named) {r : RefId} (hr : reg.ref? pkg name = some r) :
    reg.listed? pkg name = none ∧
      ∃ e, reg.graph.entryAt? r = some (.named e) ∧ e.type = none := by
  have hlisted : reg.listed? pkg name = none := by
    refine Option.eq_none_iff_forall_ne_some.mpr fun ty hl => ?_
    rcases h.listed pkg name ty hl with rfl | hm
    · exact hb rfl
    · exact hnew _ hm
  obtain ⟨e, he, -, hfree⟩ := h.own pkg name r (fun ⟨t, hm⟩ => hnew _ hm) hr
  exact ⟨hlisted, e, he, hfree hb hlisted⟩

theorem Tabled.ne_slot (h : Tabled named reg) (hb : pkg ≠ builtinId)
    (hnew : ∀ m, ⟨pkg, name, m⟩ ∉ named) {r slot : RefId} {e : NamedRef} {ty : TypeId}
    (hslot : reg.ref? pkg name = some slot) (he : reg.graph.entryAt? r = some (.named e))
    (hty : e.type = some ty) : r ≠ slot := by
  rintro rfl
  obtain ⟨-, f, hf, hfree⟩ := h.free_slot hb hnew hslot
  obtain rfl : e = f := by simpa [hf] using he.symm
  cases hfree.symm.trans hty

theorem Course.bound (h : Course reg named reg') (ht : Tabled before reg)
    (honce : Once (before ++ named)) (hb : ∀ d ∈ named, d.package ≠ builtinId) :
    ∀ r e ty, reg.graph.entryAt? r = some (.named e) → e.type = some ty →
      ∃ e', reg'.graph.entryAt? r = some (.named e') ∧ e'.type = some ty := by
  induction h with
  | refl => exact fun r e ty he hty => ⟨e, he, hty⟩
  | @adds mid reg' named hc ha ih =>
    intro r e ty he hty
    obtain ⟨e', he', hty'⟩ := ih honce hb r e ty he hty
    obtain ⟨methods, he''⟩ := ha.spares.names r e' he'
    exact ⟨_, he'', hty'⟩
  | @define mid named pkg name kind hc hp ih =>
    intro r e ty he hty
    obtain ⟨hbefore, hnew⟩ := honce.latest
    have hmid := hc.tabled ht hbefore
    obtain ⟨e', he', hty'⟩ := ih hbefore (fun d hd => hb d (List.mem_append_left _ hd)) r e ty
      he hty
    have hx := extends_introduce mid pkg name kind pkg fun _ => False
    obtain ⟨slot, _, hslot, -, -, -, hother⟩ :=
      hmid.declare_entry hp (fun ⟨t, hm⟩ => hnew _ hm) kind
    have hne : r ≠ slot := (hmid.introduce pkg name kind).ne_slot
      (hb _ (List.mem_append_right _ (List.mem_singleton_self _))) hnew hslot (hx.entries r _ he')
      hty'
    exact ⟨e', (hother r hne).trans (hx.entries r _ he'), hty'⟩
  | @rename mid reg' named pkg name target hc hp htarget hren ih =>
    intro r e ty he hty
    obtain ⟨hbefore, hnew⟩ := honce.latest
    have hmid := hc.tabled ht hbefore
    obtain ⟨e', he', hty'⟩ := ih hbefore (fun d hd => hb d (List.mem_append_left _ hd)) r e ty
      he hty
    obtain ⟨methods, he''⟩ := (rename?_effect hmid.sound hp htarget hren).names r e' he'
      fun existing hex heq => by
        rw [(hmid.canonical_slot (fun ⟨t, hm⟩ => hnew _ hm) hex).2] at heq
        exact hmid.ne_slot (hb _ (List.mem_append_right _ (List.mem_singleton_self _))) hnew hex he'
          hty' heq
    exact ⟨_, he'', hty'⟩

end Tabled

theorem package?_of_ref? {reg : Registry} {q : PackageId} {n : String} {r : RefId}
    (h : reg.ref? q n = some r) : ∃ p, reg.package? q = some p ∧ p.refs.get? n = some r :=
  Option.bind_eq_some_iff.mp h

theorem package?_of_listed? {reg : Registry} {q : PackageId} {n : String} {ty : TypeId}
    (h : reg.listed? q n = some ty) : ∃ p, reg.package? q = some p ∧ p.types.get? n = some ty :=
  Option.bind_eq_some_iff.mp h

theorem new_tabled : Tabled [] Registry.new := by
  have hslots : ∀ p, Registry.new.package? builtinId = some p → ∀ e ∈ p.refs.entries,
      (∀ ty, p.types.get? e.1 = some ty → Registry.new.graph.resolved? e.2 = some ty) ∧
        ∀ e' ∈ p.refs.entries, e.2 = e'.2 → e.1 = e'.1 := by decide +kernel
  have hlists : ∀ p, Registry.new.package? builtinId = some p →
      ∀ e ∈ p.types.byName.entries, (p.refs.get? e.1).isSome := by decide +kernel
  constructor
  case sound => exact new_sound
  case own =>
    intro q n r _ hr
    obtain ⟨p, hp, hslot⟩ := package?_of_ref? hr
    obtain rfl := eq_builtinId_of_new hp
    obtain ⟨e, he, -, -⟩ := new_predeclares.names n r hr
    refine ⟨e, he, fun ty hl => ?_, fun hb => absurd rfl hb⟩
    rw [listed?, hp] at hl
    have htype := (hslots p hp _ (OrderedMap.mem_of_find hslot)).1 ty hl
    rwa [TypeGraph.resolved?, (TypeGraph.Path.named he).named?_eq he] at htype
  case apart =>
    intro q n q' n' r _ _ hr hr'
    obtain ⟨p, hp, hslot⟩ := package?_of_ref? hr
    obtain ⟨p', hp', hslot'⟩ := package?_of_ref? hr'
    obtain rfl := eq_builtinId_of_new hp
    obtain rfl := eq_builtinId_of_new hp'
    obtain rfl := Option.some.inj (hp.symm.trans hp')
    have hname := (hslots p hp _ (OrderedMap.mem_of_find hslot)).2 _
      (OrderedMap.mem_of_find hslot') rfl
    exact congrArg _ hname
  case placed =>
    intro q n ty hl
    obtain ⟨p, hp, hlisted⟩ := package?_of_listed? hl
    obtain rfl := eq_builtinId_of_new hp
    have hslot := hlists p hp _ (OrderedMap.mem_of_find hlisted)
    obtain ⟨r, hr⟩ := Option.isSome_iff_exists.mp hslot
    exact ⟨r, Option.bind_eq_some_iff.mpr ⟨p, hp, hr⟩⟩
  case listed =>
    intro q n ty hl
    obtain ⟨p, hp, -⟩ := package?_of_listed? hl
    exact .inl (eq_builtinId_of_new hp)
  case types => exact fun q n ty h => absurd h List.not_mem_nil
  case aliases => exact fun q n target h => absurd h List.not_mem_nil

end GoPackages.Registry
