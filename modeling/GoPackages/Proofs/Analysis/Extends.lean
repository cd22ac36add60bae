import GoPackages.Proofs.Analysis.After
import GoPackages.Proofs.TypeGraph.MethodNames
import GoPackages.Registry.Builtin

/-!
# What reading types leaves alone

Reading a type expression makes entries and types and fills the types that it opened. No
entry that was there changes, and no package loses a name.
-/
namespace GoPackages

namespace Registry

structure Sound (reg : Registry) : Prop where
  graph : TypeGraph.Reachable reg.graph
  refs : ∀ q n r, reg.ref? q n = some r → reg.graph.HasRef r

theorem Sound.emptyInterface {reg : Registry} (h : reg.Sound) :
    reg.graph.HasRef TypeGraph.emptyInterface := TypeGraph.reachable_hasRef_emptyInterface h.graph

/-- A new entry that holds a type is a name of `pkg`; no new entry is an alias. -/
def Made (pkg : PackageId) : RefEntry → Prop
  | .named e => e.type = none ∨ e.package = some pkg
  | .decorated _ _ => True
  | .aliasOf _ => False

structure Extends (pkg : PackageId) (free : TypeId → Prop) (reg reg' : Registry) : Prop where
  entries : ∀ r e, reg.graph.entryAt? r = some e → reg'.graph.entryAt? r = some e
  made : ∀ r e, reg'.graph.entryAt? r = some e → reg.graph.entryAt? r = some e ∨ Made pkg e
  refs : ∀ q n r, reg.ref? q n = some r → reg'.ref? q n = some r
  placed : ∀ q n r, reg'.ref? q n = some r → reg.ref? q n = some r ∨
    ¬reg.graph.HasRef r ∧
      reg'.graph.entryAt? r = some (.named { name := n, package := some q })
  types : ∀ ty data, ¬free ty → reg.graph.typeAt? ty = some data →
    reg'.graph.typeAt? ty = some data
  typeCount : reg.graph.typeCount ≤ reg'.graph.typeCount
  packages : ∀ q p, reg.package? q = some p → ∃ refs, reg'.package? q = some { p with refs }
  packageCount : reg'.packages.size = reg.packages.size
  sound : reg.Sound → reg'.Sound

namespace Extends

variable {pkg : PackageId} {free free' : TypeId → Prop} {reg mid reg' : Registry}

theorem refl (pkg : PackageId) (free : TypeId → Prop) (reg : Registry) :
    Extends pkg free reg reg where
  entries _ _ h := h
  made _ _ h := .inl h
  refs _ _ _ h := h
  placed _ _ _ h := .inl h
  types _ _ _ h := h
  typeCount := Nat.le_refl _
  packages _ p h := ⟨p.refs, h⟩
  packageCount := rfl
  sound h := h

theorem hasRef (h : Extends pkg free reg reg') {r} (hr : reg.graph.HasRef r) :
    reg'.graph.HasRef r := by
  obtain ⟨e, he⟩ := hr.entry
  exact TypeGraph.hasRef_of_entryAt? (h.entries r e he)

theorem hasType (h : Extends pkg free reg reg') {ty} (ht : reg.graph.HasType ty) :
    reg'.graph.HasType ty :=
  Nat.lt_of_lt_of_le ht h.typeCount

theorem none (h : Extends pkg free reg reg') {q : PackageId} {n : String}
    (hn : reg'.ref? q n = .none) : reg.ref? q n = .none := by
  cases hr : reg.ref? q n with
  | none => rfl
  | some r => rw [h.refs q n r hr] at hn; cases hn

theorem refCount_le (h : Extends pkg free reg reg') :
    reg.graph.refCount ≤ reg'.graph.refCount := by
  by_contra hn
  have hlast : reg.graph.HasRef ⟨reg'.graph.refCount⟩ := Nat.lt_of_not_le hn
  exact Nat.lt_irrefl _ (h.hasRef hlast)

theorem trans (h : Extends pkg free reg mid) (h' : Extends pkg free mid reg') :
    Extends pkg free reg reg' where
  entries r e he := h'.entries r e (h.entries r e he)
  made r e he := (h'.made r e he).elim (h.made r e) .inr
  refs q n r hr := h'.refs q n r (h.refs q n r hr)
  placed q n r hr := by
    rcases h'.placed q n r hr with hm | ⟨hn, he⟩
    · exact (h.placed q n r hm).imp_right fun ⟨hn, he⟩ => ⟨hn, h'.entries r _ he⟩
    · exact .inr ⟨fun ho => hn (h.hasRef ho), he⟩
  types ty data hf hd := h'.types ty data hf (h.types ty data hf hd)
  typeCount := Nat.le_trans h.typeCount h'.typeCount
  packages q p hp := by
    obtain ⟨_, hm⟩ := h.packages q p hp
    obtain ⟨refs, hr⟩ := h'.packages q _ hm
    exact ⟨refs, hr⟩
  packageCount := h'.packageCount.trans h.packageCount
  sound hs := h'.sound (h.sound hs)

theorem weaken (h : Extends pkg free reg reg') (hf : ∀ ty, free ty → free' ty) :
    Extends pkg free' reg reg' :=
  { h with types := fun ty data hn => h.types ty data fun ht => hn (hf ty ht) }

theorem then_new (h : Extends pkg free reg mid)
    (h' : Extends pkg (fun ty => ¬mid.graph.HasType ty) mid reg')
    (hf : ∀ ty, ¬reg.graph.HasType ty → free ty) : Extends pkg free reg reg' :=
  h.trans (h'.weaken fun ty hn => hf ty fun ht => hn (h.hasType ht))

theorem of_graph {g : TypeGraph} (op : TypeGraph.Operation) (hg : reg.graph.next op = g)
    (enabled : reg.graph.Enabled op)
    (entries : ∀ r e, reg.graph.entryAt? r = some e → g.entryAt? r = some e)
    (made : ∀ r e, g.entryAt? r = some e → reg.graph.entryAt? r = some e ∨ Made pkg e)
    (types : ∀ ty data, ¬free ty → reg.graph.typeAt? ty = some data →
      g.typeAt? ty = some data)
    (typeCount : reg.graph.typeCount ≤ g.typeCount) :
    Extends pkg free reg { reg with graph := g } where
  entries := entries
  made := made
  refs _ _ _ h := h
  placed _ _ _ h := .inl h
  types := types
  typeCount := typeCount
  packages _ p h := ⟨p.refs, h⟩
  packageCount := rfl
  sound h := by
    refine ⟨hg ▸ h.graph.next op enabled, fun q n r hr => ?_⟩
    obtain ⟨e, he⟩ := (h.refs q n r hr).entry
    exact TypeGraph.hasRef_of_entryAt? (entries r e he)

end Extends

section Changes

variable {pkg : PackageId} {free : TypeId → Prop} (reg : Registry)

theorem extends_addRef {e : RefEntry} (hm : Made pkg e) (op : TypeGraph.Operation)
    (hg : reg.graph.next op = (reg.graph.addRef e).2) (he : reg.graph.Enabled op) :
    Extends pkg free reg { reg with graph := (reg.graph.addRef e).2 } := by
  refine .of_graph op hg he ?_ ?_ (fun _ _ _ h => h) (Nat.le_refl _)
  · intro r e' h
    exact (TypeGraph.entryAt?_addRef_of_lt (TypeGraph.hasRef_of_entryAt? h) e).trans h
  · intro r e' h
    rcases TypeGraph.entryAt?_addRef_cases h with h | rfl
    · exact .inl h
    · exact .inr hm

theorem extends_fresh (name : String) {ty : TypeId} (ht : reg.graph.HasType ty) :
    Extends pkg free reg (reg.onGraph (·.fresh (some pkg) name ty)).2 :=
  extends_addRef reg (.inr rfl) (.fresh (some pkg) name ty) rfl ht

theorem extends_decorate (d : Decorator) {inner : RefId} (hr : reg.graph.HasRef inner) :
    Extends pkg free reg (reg.onGraph (·.decorate d inner)).2 :=
  extends_addRef reg trivial (.decorate d inner) rfl hr

theorem extends_addType (data : TypeData) :
    Extends pkg free reg (reg.onGraph (·.addType data)).2 := by
  refine .of_graph (.addType data) rfl trivial (fun _ _ h => h) (fun _ _ h => .inl h) ?_ ?_
  · intro ty d _ hd
    exact (TypeGraph.typeAt?_addType_of_lt (TypeGraph.hasType_of_typeAt? hd) data).trans hd
  · exact Nat.le_trans (Nat.le_succ _) (TypeGraph.typeCount_addType reg.graph data).ge

theorem extends_modifyType {ty : TypeId} (hf : free ty) (f : TypeData → TypeData)
    (op : TypeGraph.Operation) (hg : reg.graph.next op = reg.graph.modifyType ty f)
    (he : reg.graph.Enabled op) :
    Extends pkg free reg (reg.withGraph (·.modifyType ty f)) := by
  refine .of_graph op hg he (fun _ _ h => h) (fun _ _ h => .inl h) ?_ ?_
  · intro other d hn hd
    have hne : ty ≠ other := by rintro rfl; exact hn hf
    exact (TypeGraph.typeAt?_modifyType_of_ne hne _ f).trans hd
  · simp [TypeGraph.modifyType, TypeGraph.typeCount]

theorem extends_addFields {ty : TypeId} (hf : free ty) (fields : List StructField) :
    Extends pkg free reg (reg.withGraph (·.addFields ty fields)) :=
  extends_modifyType reg hf _ (.editStruct ty _) rfl trivial

theorem extends_addInterfaceMethod {ty : TypeId} (hf : free ty) (name : String)
    (method : TypeId) :
    Extends pkg free reg (reg.withGraph fun g => (g.addInterfaceMethod ty name method).2) :=
  extends_modifyType reg hf _ (.editInterface ty _) rfl trivial

theorem package?_register_self {reg : Registry} {q : PackageId} {p : Package}
    (h : reg.package? q = some p) (name : String) (r : RefId) :
    (reg.register q name r).package? q = some { p with refs := p.refs.insert name r } :=
  package?_modifyPackage_self h _

theorem package?_modifyPackage_of_ne {q other : PackageId} (h : q ≠ other) (reg : Registry)
    (f : Package → Package) : (reg.modifyPackage q f).package? other = reg.package? other := by
  have hi : q.index ≠ other.index := fun e => h (by cases q; cases other; simp_all)
  simp [package?, modifyPackage, Array.getElem?_modify, hi]

theorem ref?_register_cases {reg : Registry} {q other : PackageId} {name n : String}
    {r s : RefId} (h : (reg.register q name r).ref? other n = some s) :
    (other = q ∧ n = name ∧ s = r) ∨ reg.ref? other n = some s := by
  by_cases hq : q = other
  · subst hq
    by_cases hn : name = n
    · subst hn
      cases hp : reg.package? q with
      | none =>
        have hi : reg.packages[q.index]? = none := hp
        simp [ref?, package?, register, modifyPackage, Array.getElem?_modify, hi] at h
      | some p =>
        rw [ref?_register_self hp] at h
        exact .inl ⟨rfl, rfl, (Option.some.inj h).symm⟩
    · rw [ref?_register_of_ne hn] at h
      exact .inr h
  · rw [register, ref?_modifyPackage_of_ne hq] at h
    exact .inr h

theorem extends_register {reg : Registry} {q : PackageId} {name : String} {r : RefId}
    (hn : reg.ref? q name = none) (hr : reg.graph.HasRef r) {base : Registry}
    (hb : Extends pkg free base reg) (hnew : ¬base.graph.HasRef r)
    (he : reg.graph.entryAt? r = some (.named { name, package := some q })) :
    Extends pkg free base (reg.register q name r) where
  entries := hb.entries
  made := hb.made
  refs q' n s hs := by
    have hs' := hb.refs q' n s hs
    by_cases hq : q = q'
    · subst hq
      have hne : name ≠ n := by rintro rfl; simp [hn] at hs'
      rwa [ref?_register_of_ne hne]
    · rwa [register, ref?_modifyPackage_of_ne hq]
  placed q' n s hs := by
    rcases ref?_register_cases hs with ⟨rfl, rfl, rfl⟩ | hs
    · exact .inr ⟨hnew, he⟩
    · exact hb.placed q' n s hs
  types := hb.types
  typeCount := hb.typeCount
  packages q' p hp := by
    obtain ⟨refs, hm⟩ := hb.packages q' p hp
    by_cases hq : q = q'
    · subst hq
      exact ⟨_, package?_register_self hm name r⟩
    · exact ⟨refs, (package?_modifyPackage_of_ne hq reg _).trans hm⟩
  packageCount := by
    simp [register, modifyPackage, hb.packageCount]
  sound hs := by
    refine ⟨(hb.sound hs).graph, fun q' n s hs' => ?_⟩
    rcases ref?_register_cases hs' with ⟨-, -, rfl⟩ | hs'
    · exact hr
    · exact (hb.sound hs).refs q' n s hs'

theorem extends_ensureRef (q : PackageId) (name : String) :
    Extends pkg free reg (reg.ensureRef q name).2 := by
  cases hr : reg.ref? q name with
  | some r =>
    rw [ensureRef_of_some hr]
    exact .refl ..
  | none =>
    have hself := TypeGraph.entryAt?_addRef_self reg.graph
      (.named { name, package := some q })
    have hnew : ¬reg.graph.HasRef (reg.graph.placeholder (some q) name).1 :=
      Nat.lt_irrefl _
    have hadd : Extends pkg free reg (reg.onGraph (·.placeholder (some q) name)).2 :=
      extends_addRef reg (.inl rfl) (.placeholder (some q) name) rfl trivial
    have hnone : (reg.onGraph (·.placeholder (some q) name)).2.ref? q name = none := hr
    simp only [ensureRef, hr]
    exact extends_register hnone (TypeGraph.hasRef_of_entryAt? hself) hadd hnew hself

theorem hasRef_ensureRef {reg : Registry}
    (hrefs : ∀ q n r, reg.ref? q n = some r → reg.graph.HasRef r) (q : PackageId) (name : String) :
    (reg.ensureRef q name).2.graph.HasRef (reg.ensureRef q name).1.1 := by
  cases hr : reg.ref? q name with
  | some r =>
    rw [ensureRef_of_some hr]
    exact hrefs q name r hr
  | none =>
    have hself := TypeGraph.entryAt?_addRef_self reg.graph
      (.named { name, package := some q })
    simp only [ensureRef, hr]
    exact TypeGraph.hasRef_of_entryAt? hself

theorem ref?_ensureRef {reg : Registry} {q : PackageId} {p : Package}
    (hp : reg.package? q = some p) (name : String) :
    (reg.ensureRef q name).2.ref? q name = some (reg.ensureRef q name).1.1 := by
  cases hr : reg.ref? q name with
  | some r =>
    rw [ensureRef_of_some hr]
    exact hr
  | none =>
    simp only [ensureRef, hr]
    have hp' : (reg.onGraph (·.placeholder (some q) name)).2.package? q = some p := hp
    exact ref?_register_self hp' name _

end Changes

end Registry

end GoPackages
