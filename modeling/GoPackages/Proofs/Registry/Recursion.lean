import Mathlib.Logic.Relation
import GoPackages.Proofs.Registry.Heads

/-!
# Recursive aliases

An alias is refused where the entry behind its type is the one that its own name has. As long as no
alias is declared a second time, every name that is no alias keeps an entry of its own, so the entry
behind a type tells the name that its aliases end in, and an alias is refused only if it is that
name itself. A second declaration meets the target of the first one in its own slot.
-/
namespace GoPackages

open Source (TypeSpec)
open Registry (Action Adds Course Renamed)

/-- The aliases so far, in order, each with the slot at the head of its type. -/
abbrev AliasLog := List (Slot × Option Slot)

namespace AliasLog

def keys (log : AliasLog) : List Slot := log.map Prod.fst

/-- The type of the first name has the second one at its head. -/
def StandsFor (log : AliasLog) (s t : Slot) : Prop := (s, some t) ∈ log

/-- Through aliases, the first name is another name of the second one. -/
def LeadsTo (log : AliasLog) : Slot → Slot → Prop := Relation.ReflTransGen log.StandsFor

variable {log : AliasLog} {s t : Slot}

theorem LeadsTo.append (h : log.LeadsTo s t) (later : AliasLog) : LeadsTo (log ++ later) s t :=
  Relation.ReflTransGen.mono (fun _ _ hm => List.mem_append_left later hm) _ _ h

theorem keys_append (log later : AliasLog) : keys (log ++ later) = keys log ++ keys later :=
  List.map_append

end AliasLog

namespace Registry

def Action.aliases (reg : Registry) : Action → AliasLog
  | .typeSpec scope doc spec =>
    match declareTypeSpec scope doc spec reg with
    | .ok _ _ => if spec.isAlias then [((scope.package, spec.name), scope.head? reg spec)] else []
    | .error _ _ => []
  | .append _ | .ensureRef _ _ | .valueSpec _ _ _ _ _ | .func _ _ | .appendDoc _ _
  | .markExplored _ | .recordImplementations _ => []

section Aliases

variable {reg reg' : Registry} {scope : FileScope} {doc : Option Doc} {spec : TypeSpec}

theorem aliases_of_ok (h : declareTypeSpec scope doc spec reg = .ok () reg') :
    (Action.typeSpec scope doc spec).aliases reg =
      if spec.isAlias then [((scope.package, spec.name), scope.head? reg spec)] else [] := by
  simp [Action.aliases, h]

theorem aliases_of_error {e : Error} (h : declareTypeSpec scope doc spec reg = .error e reg') :
    (Action.typeSpec scope doc spec).aliases reg = [] := by
  simp [Action.aliases, h]

theorem next_of_ok (h : declareTypeSpec scope doc spec reg = .ok () reg') :
    reg.next (.typeSpec scope doc spec) = reg' := by
  rw [next, stateAfter, h]

theorem next_of_error {e : Error} (h : declareTypeSpec scope doc spec reg = .error e reg') :
    reg.next (.typeSpec scope doc spec) = reg' := by
  rw [next, stateAfter, h]

theorem aliases_of_defined (h : spec.isAlias = false) :
    (Action.typeSpec scope doc spec).aliases reg = [] := by
  cases hd : declareTypeSpec scope doc spec reg with
  | ok a reg' => rw [aliases_of_ok hd, h]; rfl
  | error e reg' => exact aliases_of_error hd

end Aliases

def aliasesOf (reg : Registry) : List Action → AliasLog
  | [] => []
  | action :: rest => action.aliases reg ++ (reg.next action).aliasesOf rest

structure AliasesFollow (log : AliasLog) (reg : Registry) : Prop where
  sound : reg.Sound
  own : ∀ s r, s ∉ log.keys → reg.ref? s.1 s.2 = some r →
    ∃ e, reg.graph.entryAt? r = some (.named e) ∧ e.name = s.2 ∧ e.package = some s.1
  shared : ∀ s t, log.StandsFor s t → ∃ r, reg.ref? s.1 s.2 = some r ∧ reg.LeadsTo t.1 t.2 r
  only : ∀ s t r x, reg.ref? s.1 s.2 = some r → t ∉ log.keys → reg.ref? t.1 t.2 = some x →
    reg.graph.namedRoot r = x → log.LeadsTo s t
  empty : ∃ e, reg.graph.entryAt? TypeGraph.emptyInterface = some (.named e) ∧ e.package = none

theorem rename?_eq_none {reg : Registry} {pkg : PackageId} {name : String} {target : RefId} :
    reg.rename? pkg name target = none ↔ ∃ x, reg.ref? pkg name = some x ∧
      reg.graph.namedRoot target = reg.graph.namedRoot x := by
  unfold Registry.rename?
  cases reg.ref? pkg name with
  | none => simp
  | some x => simp [TypeGraph.aliasTo?]

namespace AliasesFollow

variable {log : AliasLog} {reg reg' : Registry}

section Lookups

variable (h : AliasesFollow log reg)
include h

theorem root_own {s : Slot} {r : RefId} (hs : s ∉ log.keys) (hr : reg.ref? s.1 s.2 = some r) :
    reg.graph.namedRoot r = r := by
  obtain ⟨e, he, -⟩ := h.own s r hs hr
  exact TypeGraph.namedRoot_of_named he

theorem eq_of_slot {s t : Slot} {r : RefId} (hs : s ∉ log.keys) (ht : t ∉ log.keys)
    (hr : reg.ref? s.1 s.2 = some r) (hr' : reg.ref? t.1 t.2 = some r) : s = t := by
  obtain ⟨e, he, hname, hpkg⟩ := h.own s r hs hr
  obtain ⟨e', he', hname', hpkg'⟩ := h.own t r ht hr'
  obtain rfl : e = e' := by simpa [he] using he'
  exact Prod.ext (Option.some.inj (hpkg.symm.trans hpkg')) (hname.symm.trans hname')

theorem root_of_leadsTo {s t : Slot} {r : RefId} (hst : log.LeadsTo s t)
    (hr : reg.ref? s.1 s.2 = some r) :
    ∃ x, reg.ref? t.1 t.2 = some x ∧ reg.graph.namedRoot r = reg.graph.namedRoot x := by
  induction hst with
  | refl => exact ⟨r, hr, rfl⟩
  | tail _ hstep ih =>
    obtain ⟨x, hx, hroot⟩ := ih
    obtain ⟨x', hx', y, hy, hroot'⟩ := h.shared _ _ hstep
    obtain rfl := Option.some.inj (hx.symm.trans hx')
    exact ⟨y, hy, hroot.trans hroot'⟩

theorem ne_of_nameless {r x : RefId} {t : Slot} (hr : reg.Nameless r) (ht : t ∉ log.keys)
    (hx : reg.ref? t.1 t.2 = some x) : reg.graph.namedRoot r ≠ x := by
  rintro rfl
  rcases hr with heq | hnone
  · obtain ⟨e, he, -, hpkg⟩ := h.own t _ ht hx
    obtain ⟨e', he', hempty⟩ := h.empty
    rw [heq, TypeGraph.namedRoot_of_named he'] at he
    obtain rfl : e' = e := by simpa [he'] using he
    cases hempty.symm.trans hpkg
  · exact hnone _ _ hx

theorem leadsTo_of_head {r x : RefId} {head : Option Slot} {t : Slot} (hhead : reg.HeadedBy r head)
    (ht : t ∉ log.keys) (hx : reg.ref? t.1 t.2 = some x) (hroot : reg.graph.namedRoot r = x) :
    ∃ slot, head = some slot ∧ log.LeadsTo slot t := by
  cases head with
  | none => exact absurd hroot (h.ne_of_nameless hhead ht hx)
  | some slot =>
    obtain ⟨y, hy, heq⟩ := hhead
    exact ⟨slot, rfl, h.only slot t y x hy ht hx (heq.symm.trans hroot)⟩

end Lookups

theorem of_edges (h : AliasesFollow log reg) (hr' : reg'.Sound)
    (hk : TypeGraph.KeepsEdges reg.graph reg'.graph)
    (names : ∀ x e, reg.graph.entryAt? x = some (.named e) →
      ∃ e', reg'.graph.entryAt? x = some (.named e') ∧ e'.name = e.name ∧ e'.package = e.package)
    (refs : ∀ q n r, reg.ref? q n = some r → reg'.ref? q n = some r)
    (placed : ∀ q n r, reg'.ref? q n = some r → reg.ref? q n = some r ∨ ¬reg.graph.HasRef r ∧
      ∃ e, reg'.graph.entryAt? r = some (.named e) ∧ e.name = n ∧ e.package = some q) :
    AliasesFollow log reg' := by
  have hg := TypeGraph.reachable_grounded h.sound.graph
  have hg' := TypeGraph.reachable_grounded hr'.graph
  have hroot : ∀ r, reg.graph.HasRef r → reg'.graph.namedRoot r = reg.graph.namedRoot r :=
    fun r hr => View.core.of_kept hg hg' hk hr
  constructor
  case sound => exact hr'
  case own =>
    intro s r hs hr
    rcases placed s.1 s.2 r hr with hold | ⟨-, hnew⟩
    · obtain ⟨e, he, hname, hpkg⟩ := h.own s r hs hold
      obtain ⟨e', he', hname', hpkg'⟩ := names r e he
      exact ⟨e', he', hname'.trans hname, hpkg'.trans hpkg⟩
    · exact hnew
  case shared =>
    intro s t hst
    obtain ⟨r, hr, y, hy, heq⟩ := h.shared s t hst
    refine ⟨r, refs _ _ r hr, y, refs _ _ y hy, ?_⟩
    rw [hroot r (h.sound.refs _ _ r hr), hroot y (h.sound.refs _ _ y hy), heq]
  case only =>
    intro s t r x hr ht hx hrx
    rcases placed s.1 s.2 r hr, placed t.1 t.2 x hx with
      ⟨hold | ⟨hnew, e, he, hname, hpkg⟩, hold' | ⟨hnew', e', he', hname', hpkg'⟩⟩
    · rw [hroot r (h.sound.refs _ _ r hold)] at hrx
      exact h.only s t r x hold ht hold' hrx
    · rw [hroot r (h.sound.refs _ _ r hold)] at hrx
      exact absurd (hrx ▸ View.core.hasRef_of hg (h.sound.refs _ _ r hold)) hnew'
    · rw [TypeGraph.namedRoot_of_named he] at hrx
      exact absurd (hrx ▸ h.sound.refs _ _ x hold') hnew
    · rw [TypeGraph.namedRoot_of_named he] at hrx
      subst hrx
      obtain rfl : e = e' := by simpa [he] using he'
      obtain rfl : s = t := Prod.ext (Option.some.inj (hpkg.symm.trans hpkg'))
        (hname.symm.trans hname')
      exact .refl
  case empty =>
    obtain ⟨e, he, hpkg⟩ := h.empty
    obtain ⟨e', he', -, hpkg'⟩ := names _ e he
    exact ⟨e', he', hpkg'.trans hpkg⟩

theorem adds (h : AliasesFollow log reg) (ha : Adds reg reg') : AliasesFollow log reg' := by
  refine h.of_edges (ha.spares.sound h.sound) ha.keepsEdges (fun x e he => ?_) ha.spares.refs
    fun q n r hr => ?_
  · obtain ⟨methods, he'⟩ := ha.spares.names x e he
    exact ⟨_, he', rfl, rfl⟩
  · refine (ha.placed q n r hr).imp_right fun ⟨hnew, e, he, hname, hpkg, _⟩ => ?_
    exact ⟨hnew, e, he, hname, hpkg⟩

theorem define (h : AliasesFollow log reg) (pkg : PackageId) (name : String) (kind : TypeKind) :
    AliasesFollow log (reg.declare pkg name kind).2 := by
  have hm := h.adds (.of_extends (extends_introduce reg pkg name kind pkg fun _ => False))
  refine hm.of_edges (declare_sound h.sound pkg name kind) ?_ (fun x e he => declare_named he)
    (fun q n r hr => (declare_ref? reg pkg name kind q n).trans hr)
    fun q n r hr => .inl ((declare_ref? reg pkg name kind q n).symm.trans hr)
  rw [declare_eq]
  exact TypeGraph.keepsEdges_bind _ _ _

section Rename

variable {pkg : PackageId} {name : String} {target : RefId} {head : Option Slot}

section Effect

variable (h : AliasesFollow log reg) (hnew : (pkg, name) ∉ log.keys)
  (hren : Renamed reg pkg name target reg')
include h hnew hren

theorem root_renamed {r : RefId} (hr : reg.graph.HasRef r) : reg'.graph.namedRoot r =
    if reg.ref? pkg name = some (reg.graph.namedRoot r) then reg.graph.namedRoot target
    else reg.graph.namedRoot r := by
  split
  next hold =>
    have hown := h.root_own (s := (pkg, name)) hnew hold
    exact hren.moved .core r _ hold hr hown.symm
  next hne =>
    refine hren.stayed .core r hr fun x hx heq => hne ?_
    have hroot : reg.graph.namedRoot r = x := heq.trans (h.root_own (s := (pkg, name)) hnew hx)
    rwa [hroot]

theorem root_target (ht : reg.graph.HasRef target) :
    reg'.graph.namedRoot target = reg.graph.namedRoot target := by
  rw [h.root_renamed hnew hren ht, ite_self]

theorem entry_renamed {s : Slot} {r : RefId} {e : NamedRef} (hs : s ∉ log.keys)
    (hne : s ≠ (pkg, name)) (hr : reg.ref? s.1 s.2 = some r)
    (he : reg.graph.entryAt? r = some (.named e)) :
    ∃ methods, reg'.graph.entryAt? r = some (.named { e with methods }) := by
  refine hren.names r e he fun x hx heq => hne ?_
  rw [h.root_own (s := (pkg, name)) hnew hx] at heq
  exact h.eq_of_slot hs hnew hr (heq ▸ hx)

theorem only_renamed (ht : reg.graph.HasRef target) (hhead : reg.HeadedBy target head)
    {s t : Slot} {r x : RefId} (hr : reg'.ref? s.1 s.2 = some r) (hfree : t ∉ log.keys)
    (hx : reg.ref? t.1 t.2 = some x) (hrx : reg'.graph.namedRoot r = x) :
    AliasLog.LeadsTo (log ++ [((pkg, name), head)]) s t := by
  have hends : reg.graph.namedRoot target = x →
      AliasLog.LeadsTo (log ++ [((pkg, name), head)]) (pkg, name) t := by
    intro htx
    obtain ⟨slot, rfl, hslot⟩ := h.leadsTo_of_head hhead hfree hx htx
    exact .head (List.mem_append_right _ (List.mem_singleton_self _)) (hslot.append _)
  by_cases hs : s = (pkg, name)
  · subst hs
    obtain rfl := Option.some.inj (hren.own.symm.trans hr)
    exact hends ((h.root_target hnew hren ht).symm.trans hrx)
  · rw [hren.others s.1 s.2 hs] at hr
    rw [h.root_renamed hnew hren (h.sound.refs _ _ r hr)] at hrx
    split at hrx
    next hold =>
      have hstart : log.LeadsTo s (pkg, name) := h.only s _ r _ hr hnew hold rfl
      exact (hstart.append _).trans (hends hrx)
    next => exact (h.only s t r x hr hfree hx hrx).append _

end Effect

theorem rename (h : AliasesFollow log reg) (hnew : (pkg, name) ∉ log.keys)
    (ht : reg.graph.HasRef target) (hhead : reg.HeadedBy target head)
    (hren : Renamed reg pkg name target reg') :
    AliasesFollow (log ++ [((pkg, name), head)]) reg' := by
  have hkey : ∀ s, s ∉ AliasLog.keys (log ++ [((pkg, name), head)]) →
      s ≠ (pkg, name) ∧ s ∉ log.keys := fun s hs => by
    rw [AliasLog.keys_append, List.mem_append, not_or] at hs
    exact ⟨fun heq => hs.2 (List.mem_singleton.mpr heq), hs.1⟩
  have hlater := hren.leads h.sound ht
  constructor
  case sound => exact hren.sound
  case own =>
    intro s r hs hr
    obtain ⟨hne, hold⟩ := hkey s hs
    rw [hren.others s.1 s.2 hne] at hr
    obtain ⟨e, he, hname, hpkg⟩ := h.own s r hold hr
    obtain ⟨methods, he'⟩ := h.entry_renamed hnew hren hold hne hr he
    exact ⟨_, he', hname, hpkg⟩
  case shared =>
    intro s t hst
    rcases List.mem_append.mp hst with hold | hself
    · obtain ⟨r, hr, hleads⟩ := h.shared s t hold
      have hne : s ≠ (pkg, name) := fun heq => hnew (heq ▸ List.mem_map_of_mem hold)
      have hr' := (hren.others s.1 s.2 hne).trans hr
      exact ⟨r, hr', hleads.later h.sound (h.sound.refs _ _ r hr) hlater⟩
    · obtain ⟨rfl, rfl⟩ := Prod.mk.inj (List.mem_singleton.mp hself)
      exact ⟨target, hren.own, LeadsTo.later hhead h.sound ht hlater⟩
  case only =>
    intro s t r x hr hkey' hx hrx
    obtain ⟨hne, hfree⟩ := hkey t hkey'
    rw [hren.others t.1 t.2 hne] at hx
    exact h.only_renamed hnew hren ht hhead hr hfree hx hrx
  case empty =>
    obtain ⟨e, he, hpkg⟩ := h.empty
    obtain ⟨methods, he'⟩ := hren.names _ e he fun x hx heq => by
      rw [h.root_own (s := (pkg, name)) hnew hx] at heq
      obtain ⟨e', he', -, hpkg'⟩ := h.own (pkg, name) x hnew hx
      obtain rfl : e = e' := by simpa [← heq, he] using he'
      cases hpkg.symm.trans hpkg'
    exact ⟨_, he', hpkg⟩

/-- An alias of an own name is refused exactly where its type leads to this name. -/
theorem rename?_eq_none_iff (h : AliasesFollow log reg) (hnew : (pkg, name) ∉ log.keys)
    (hhead : reg.HeadedBy target head) : reg.rename? pkg name target = none ↔
      ∃ slot, head = some slot ∧ log.LeadsTo slot (pkg, name) := by
  rw [rename?_eq_none]
  constructor
  · rintro ⟨x, hx, hroot⟩
    have hown := h.root_own (s := (pkg, name)) hnew hx
    exact h.leadsTo_of_head hhead hnew hx (hroot.trans hown)
  · rintro ⟨slot, rfl, hleads⟩
    obtain ⟨y, hy, hroot⟩ := hhead
    obtain ⟨x, hx, hroot'⟩ := h.root_of_leadsTo hleads hy
    exact ⟨x, hx, hroot.trans hroot'⟩

theorem rename?_again (h : AliasesFollow log reg) {slot : Slot}
    (hlog : log.StandsFor (pkg, name) slot) (hhead : reg.HeadedBy target (some slot)) :
    reg.rename? pkg name target = none := by
  obtain ⟨x, hx, y, hy, hroot⟩ := h.shared _ _ hlog
  obtain ⟨y', hy', hroot'⟩ := hhead
  obtain rfl := Option.some.inj (hy.symm.trans hy')
  exact rename?_eq_none.mpr ⟨x, hx, hroot'.trans hroot.symm⟩

end Rename

theorem typeSpec (h : AliasesFollow log reg) {scope : FileScope} (hs : scope.Sound reg)
    (doc : Option Doc) (spec : TypeSpec)
    (honce : (AliasLog.keys (log ++ (Action.typeSpec scope doc spec).aliases reg)).Nodup) :
    AliasesFollow (log ++ (Action.typeSpec scope doc spec).aliases reg)
      (reg.next (.typeSpec scope doc spec)) := by
  cases ha : spec.isAlias with
  | false =>
    have hdefines : ∀ {kind mid reg'}, Defines scope spec.name kind reg mid reg' →
        AliasesFollow log reg' := fun hd =>
      ((h.adds (.of_extends hd.before)).define _ _ _).adds (.of_extends hd.after)
    rw [aliases_of_defined ha, List.append_nil]
    exact (declareTypeSpec_defines h.sound hs doc ha).stateAfter
      (fun _ _ ⟨_, hd, _⟩ => hdefines hd) fun _ ⟨_, hd⟩ => hdefines hd
  | true =>
    by_cases hread : ∃ target read, scope.ReadsType reg spec target read
    · obtain ⟨target, read, hread⟩ := hread
      obtain ⟨hadds, htarget, hhead⟩ := hread.head h.sound hs
      have hmid := h.adds hadds
      have hdecl := hread.declares doc ha
      cases hren : read.rename? scope.package spec.name target with
      | none =>
        rw [hren] at hdecl
        rw [aliases_of_error hdecl, next_of_error hdecl, List.append_nil]
        exact hmid
      | some reg' =>
        rw [hren] at hdecl
        rw [aliases_of_ok hdecl, if_pos ha] at honce ⊢
        rw [next_of_ok hdecl]
        have hnew : (scope.package, spec.name) ∉ log.keys := by
          rw [AliasLog.keys_append, List.nodup_append] at honce
          exact fun hm => honce.2.2 _ hm _ (List.mem_singleton_self _) rfl
        exact hmid.rename hnew htarget hhead
          (rename?_effect hmid.sound (hadds.registered hs.package) htarget hren)
    · obtain ⟨e, reg', hfails, -, hadds⟩ := declareTypeSpec_unread doc h.sound hs ha
        fun target read hr => hread ⟨target, read, hr⟩
      rw [aliases_of_error hfails, next_of_error hfails, List.append_nil]
      exact h.adds hadds

theorem next (h : AliasesFollow log reg) {action : Action} (he : reg.Enabled action)
    (honce : (AliasLog.keys (log ++ action.aliases reg)).Nodup) :
    AliasesFollow (log ++ action.aliases reg) (reg.next action) := by
  by_cases ht : ∃ scope doc spec, action = .typeSpec scope doc spec
  · obtain ⟨scope, doc, spec, rfl⟩ := ht
    exact h.typeSpec he doc spec honce
  · have hother : ∀ scope doc spec, action ≠ .typeSpec scope doc spec :=
      fun scope doc spec heq => ht ⟨scope, doc, spec, heq⟩
    have hnone : action.aliases reg = [] := by
      cases action with
      | typeSpec scope doc spec => exact absurd rfl (hother scope doc spec)
      | _ => rfl
    rw [hnone, List.append_nil]
    exact h.adds (next_adds h.sound he hother)

theorem run (h : AliasesFollow log reg) {actions : List Action} (hv : reg.ValidRun actions)
    (honce : (AliasLog.keys (log ++ reg.aliasesOf actions)).Nodup) :
    AliasesFollow (log ++ reg.aliasesOf actions) (reg.run actions) := by
  induction actions generalizing log reg with
  | nil => exact (List.append_nil log).symm ▸ h
  | cons action rest ih =>
    have hsplit : log ++ reg.aliasesOf (action :: rest) =
        (log ++ action.aliases reg) ++ (reg.next action).aliasesOf rest :=
      (List.append_assoc ..).symm
    rw [hsplit] at honce ⊢
    refine ih (h.next hv.1 ?_) hv.2 honce
    rw [AliasLog.keys_append] at honce
    exact honce.of_append_left

end AliasesFollow

/-- Of the predeclared names only `any` is an alias, of a type that is written in place. -/
def predeclaredAliases : AliasLog := [((builtinId, "any"), none)]

theorem new_slot {s : Slot} {r : RefId} (hr : Registry.new.ref? s.1 s.2 = some r) :
    s.1 = builtinId ∧ (s.2 = "any" → r = TypeGraph.emptyInterface) ∧ ∃ e,
      Registry.new.graph.entryAt? r = some (.named e) ∧
        (s.2 ≠ "any" → e.name = s.2 ∧ e.package = some s.1) := by
  have hslots : ∀ p, Registry.new.package? builtinId = some p → ∀ entry ∈ p.refs.entries,
      (entry.1 = "any" → entry.2 = TypeGraph.emptyInterface) ∧
        (entry.1 ≠ "any" → Registry.new.graph.refName entry.2 = entry.1 ∧
          Registry.new.graph.refPackage entry.2 = some builtinId) := by decide +kernel
  obtain ⟨p, hp, hslot⟩ := package?_of_ref? hr
  have hq := eq_builtinId_of_new hp
  obtain ⟨hany, hnames⟩ := hslots p (hq ▸ hp) _ (OrderedMap.mem_of_find hslot)
  obtain ⟨e, he, -, -⟩ := new_predeclares.names s.2 r (hq ▸ hr)
  refine ⟨hq, hany, e, he, fun hne => ?_⟩
  have hnamed := (TypeGraph.Path.named he).named?_eq he
  have hname := hnames hne
  rw [TypeGraph.refName, TypeGraph.refPackage, hnamed] at hname
  exact hq ▸ hname

theorem new_aliasesFollow : AliasesFollow predeclaredAliases Registry.new := by
  have hempty : Registry.new.graph.entryAt? TypeGraph.emptyInterface = some (.named
      { name := TypeGraph.emptyInterfaceName, package := none, type := some ⟨0⟩ }) := by
    decide +kernel
  have hfree : ∀ s : Slot, s ∉ predeclaredAliases.keys → s.1 = builtinId → s.2 ≠ "any" := by
    rintro ⟨q, n⟩ hs rfl rfl
    exact hs (List.mem_singleton_self _)
  constructor
  case sound => exact new_sound
  case own =>
    intro s r hs hr
    obtain ⟨hq, -, e, he, hnames⟩ := new_slot hr
    exact ⟨e, he, hnames (hfree s hs hq)⟩
  case shared =>
    intro s t hst
    cases List.mem_singleton.mp hst
  case only =>
    intro s t r x hr ht hx hroot
    obtain ⟨hq, hany, e, he, hnames⟩ := new_slot hr
    obtain ⟨hq', -, e', he', hnames'⟩ := new_slot hx
    obtain ⟨hname', hpkg'⟩ := hnames' (hfree t ht hq')
    rw [TypeGraph.namedRoot_of_named he] at hroot
    subst hroot
    obtain rfl : e = e' := by simpa [he] using he'
    by_cases hs : s.2 = "any"
    · rw [hany hs, hempty] at he
      obtain rfl := RefEntry.named.inj (Option.some.inj he)
      cases hpkg'
    · obtain rfl : s = t := Prod.ext (hq.trans hq'.symm) ((hnames hs).1.symm.trans hname')
      exact .refl
  case empty => exact ⟨_, hempty, rfl⟩

/-- Every alias of a run of actions, in a registry that knows the predeclared ones. -/
def aliasLog (actions : List Action) : AliasLog :=
  predeclaredAliases ++ Registry.new.aliasesOf actions

end Registry

end GoPackages
