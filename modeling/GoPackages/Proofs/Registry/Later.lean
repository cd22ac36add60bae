import GoPackages.Proofs.Registry.Actions
import GoPackages.Proofs.TypeGraph.Alias

/-!
# Registries over time

What stays true of a registry while types are read and declared and packages come in: a
package is found under its path, a table keeps its references, a name keeps its type.
-/
namespace GoPackages

namespace TypeGraph

variable {g : TypeGraph} {r : RefId}

theorem keeps_modifyNamed (f : NamedRef → NamedRef)
    (hf : ∀ e ty, g.entryAt? r = some (.named e) → e.type = some ty → (f e).type = some ty) :
    Keeps 0 g (g.modifyNamed r f) where
  decorated x d inner hx := by rw [entryAt?_modifyNamed, hx]
  bound x e ty hx ht := by
    rw [entryAt?_modifyNamed, hx]
    refine ⟨_, rfl, ?_⟩
    split
    next hr => exact hf e ty (hr ▸ hx) ht
    next => exact ht
  kinds _ _ _ h := h

theorem keeps_addMethod (g : TypeGraph) (r : RefId) (method : TypeId) :
    Keeps 0 g (g.addMethod r method).2 := by
  unfold addMethod
  split
  · exact .refl 0 g
  · exact keeps_modifyNamed _ fun e ty _ ht => ht

theorem keeps_bind {e : NamedRef} (he : g.entryAt? (g.namedRoot r) = some (.named e))
    (hfree : e.type = none) (ty : TypeId) : Keeps 0 g (g.bind r ty).2 := by
  have hname : Keeps 0 g (g.modifyNamed (g.namedRoot r) fun e => { e with type := some ty }) := by
    refine keeps_modifyNamed _ fun e' ty' he' ht => ?_
    obtain rfl : e = e' := by simpa [he] using he'
    rw [hfree] at ht
    cases ht
  refine ⟨hname.decorated, hname.bound, fun t kind _ hk => ?_⟩
  obtain ⟨data, hd, rfl⟩ := Option.map_eq_some_iff.mp hk
  by_cases ht : ty = t
  · subst ht
    rw [kind?, typeAt?_bind_self hd]
    split <;> rfl
  · rw [kind?, typeAt?_bind_of_ne ht, hd]
    rfl

theorem entryAt?_addMethod {x : RefId} {e : NamedRef} {method : TypeId} {data : TypeData}
    (hx : g.entryAt? x = some (.named e)) (hd : g.typeAt? method = some data) :
    (g.addMethod r method).2.entryAt? x = some (.named (if g.namedRoot r = x then
      { e with methods := e.methods.insert data.name method } else e)) := by
  simp only [addMethod, hd, entryAt?_modifyNamed, hx]

end TypeGraph

namespace Registry

structure Later (reg reg' : Registry) : Prop where
  keeps : TypeGraph.Keeps 0 reg.graph reg'.graph
  refs : ∀ q n r, reg.ref? q n = some r → reg'.ref? q n = some r
  packages : ∀ q p, reg.package? q = some p →
    ∃ p', reg'.package? q = some p' ∧ p'.name = p.name ∧ p'.importPath = p.importPath

variable {reg mid reg' : Registry}

theorem Later.refl (reg : Registry) : Later reg reg :=
  ⟨.refl 0 _, fun _ _ _ h => h, fun _ p h => ⟨p, h, rfl, rfl⟩⟩

theorem Later.trans (h : Later reg mid) (h' : Later mid reg') : Later reg reg' where
  keeps := h.keeps.trans h'.keeps
  refs q n r hr := h'.refs q n r (h.refs q n r hr)
  packages q p hp := by
    obtain ⟨p₁, hp₁, hname, hpath⟩ := h.packages q p hp
    obtain ⟨p₂, hp₂, hname', hpath'⟩ := h'.packages q p₁ hp₁
    exact ⟨p₂, hp₂, hname'.trans hname, hpath'.trans hpath⟩

theorem Later.hasType (h : Later reg reg') {ty : TypeId} (ht : reg.graph.HasType ty) :
    reg'.graph.HasType ty := by
  obtain ⟨data, hd⟩ := ht.data
  have hkind := h.keeps.kinds ty _ (Nat.zero_le _) (kind?_of_typeAt? hd)
  obtain ⟨data', hd', -⟩ := typeAt?_of_kind? hkind
  exact TypeGraph.hasType_of_typeAt? hd'

theorem byPath?_eq_some_iff {path : String} {q : PackageId} :
    reg.byPath? path = some q ↔ (∃ p, reg.package? q = some p ∧ p.importPath = path) ∧
      ∀ i < q.index, ∀ p, reg.package? ⟨i⟩ = some p → p.importPath ≠ path := by
  obtain ⟨i⟩ := q
  simp only [byPath?, Option.map_eq_some_iff, PackageId.mk.injEq, exists_eq_right,
    Array.findIdx?_eq_some_iff_getElem, beq_iff_eq, package?]
  constructor
  · rintro ⟨hi, hp, hfirst⟩
    refine ⟨⟨_, Array.getElem?_eq_getElem hi, hp⟩, fun j hj p hpj => ?_⟩
    obtain ⟨hlt, rfl⟩ := Array.getElem?_eq_some_iff.mp hpj
    exact hfirst j hj
  · rintro ⟨⟨p, hp, hpath⟩, hfirst⟩
    obtain ⟨hi, rfl⟩ := Array.getElem?_eq_some_iff.mp hp
    exact ⟨hi, hpath, fun j hj => hfirst j hj _ (Array.getElem?_eq_getElem (by omega))⟩

theorem importPath_ne_of_byPath? {path : String} (h : reg.byPath? path = none) {q : PackageId}
    {p : Package} (hp : reg.package? q = some p) : p.importPath ≠ path := by
  have hnone := Array.findIdx?_eq_none_iff.mp (Option.map_eq_none_iff.mp h)
  simpa using hnone p (Array.mem_of_getElem? hp)

theorem byPath?_mono (h : ∀ q p, reg.package? q = some p →
      ∃ p', reg'.package? q = some p' ∧ p'.importPath = p.importPath)
    {path : String} {q : PackageId} (hq : reg.byPath? path = some q) :
    reg'.byPath? path = some q := by
  obtain ⟨⟨p, hp, hpath⟩, hfirst⟩ := byPath?_eq_some_iff.mp hq
  obtain ⟨p', hp', hpath'⟩ := h q p hp
  refine byPath?_eq_some_iff.mpr ⟨⟨p', hp', hpath'.trans hpath⟩, fun i hi p₁ hp₁ => ?_⟩
  obtain ⟨hlt, -⟩ := Array.getElem?_eq_some_iff.mp hp
  have hold : reg.package? ⟨i⟩ = some reg.packages[i] :=
    Array.getElem?_eq_getElem (Nat.lt_trans hi hlt)
  obtain ⟨p₂, hp₂, hpath₂⟩ := h ⟨i⟩ _ hold
  obtain rfl := Option.some.inj (hp₁.symm.trans hp₂)
  exact hpath₂ ▸ hfirst i hi _ hold

theorem Later.byPath? (h : Later reg reg') {path : String} {q : PackageId}
    (hq : reg.byPath? path = some q) : reg'.byPath? path = some q :=
  byPath?_mono (fun q p hp => by
    obtain ⟨p', hp', -, hpath⟩ := h.packages q p hp
    exact ⟨p', hp', hpath⟩) hq

theorem Extends.later {pkg : PackageId} {free : TypeId → Prop} (h : Extends pkg free reg reg')
    (hk : TypeGraph.Keeps 0 reg.graph reg'.graph) : Later reg reg' where
  keeps := hk
  refs := h.refs
  packages q p hp := by
    obtain ⟨refs, hp'⟩ := h.packages q p hp
    exact ⟨_, hp', rfl, rfl⟩

theorem Later.then_extends (h : Later reg mid) {pkg : PackageId} {free : TypeId → Prop}
    (hx : Extends pkg free mid reg') (hf : ∀ ty, reg.graph.HasType ty → ¬free ty) :
    Later reg reg' where
  keeps := by
    refine ⟨fun r d inner he => ?_, fun r e ty he ht => ?_, fun ty kind hlo hkind => ?_⟩
    · exact hx.entries r _ (h.keeps.decorated r d inner he)
    · obtain ⟨e', he', ht'⟩ := h.keeps.bound r e ty he ht
      exact ⟨e', hx.entries r _ he', ht'⟩
    · obtain ⟨data, hd, -⟩ := typeAt?_of_kind? hkind
      have hold := hf ty (TypeGraph.hasType_of_typeAt? hd)
      obtain ⟨data', hd', rfl⟩ := typeAt?_of_kind? (h.keeps.kinds ty kind hlo hkind)
      exact kind?_of_typeAt? (hx.types ty data' hold hd')
  refs q n r hr := hx.refs q n r (h.refs q n r hr)
  packages q p hp := by
    obtain ⟨p', hp', hname, hpath⟩ := h.packages q p hp
    obtain ⟨refs, hp''⟩ := hx.packages q p' hp'
    exact ⟨_, hp'', hname, hpath⟩

theorem later_modifyPackage (reg : Registry) (pkg : PackageId) {f : Package → Package}
    (hf : ∀ p, (f p).refs = p.refs ∧ (f p).name = p.name ∧ (f p).importPath = p.importPath) :
    Later reg (reg.modifyPackage pkg f) where
  keeps := .refl 0 _
  refs q n _ hr := (ref?_modifyPackage (fun p => (hf p).1) q n).trans hr
  packages q p hp := by
    refine ⟨_, package?_modifyPackage_of_some hp f, ?_⟩
    split
    · exact (hf p).2
    · exact ⟨rfl, rfl⟩

theorem later_withGraph {f : TypeGraph → TypeGraph}
    (hk : TypeGraph.Keeps 0 reg.graph (f reg.graph)) : Later reg (reg.withGraph f) :=
  ⟨hk, fun _ _ _ h => h, fun _ p h => ⟨p, h, rfl, rfl⟩⟩

theorem identity_of_unlinked {p p' : Package} (h : unlinked p' = unlinked p) :
    p'.name = p.name ∧ p'.importPath = p.importPath := by
  simp only [unlinked, Package.mk.injEq] at h
  exact ⟨h.1, h.2.1⟩

theorem package?_append {info : PackageInfo} {id : PackageId}
    (h : reg.append (.ofInfo info) = .ok (id, reg')) {q : PackageId} {p : Package}
    (hp : reg.package? q = some p) :
    ∃ p', reg'.package? q = some p' ∧ unlinked p' = unlinked p := by
  obtain ⟨-, rfl, -, -, hall⟩ := append_ok h
  obtain ⟨hlt, -⟩ := Array.getElem?_eq_some_iff.mp hp
  have hne : q ≠ ⟨reg.packages.size⟩ := by
    rintro rfl
    exact Nat.lt_irrefl _ hlt
  have hq := hall q
  rw [if_neg hne, hp] at hq
  exact Option.map_eq_some_iff.mp hq

theorem later_append {info : PackageInfo} {id : PackageId}
    (h : reg.append (.ofInfo info) = .ok (id, reg')) : Later reg reg' where
  keeps := by
    rw [(append_ok h).2.2.1]
    exact .refl 0 _
  refs q n r hr := (ref?_append h q n).trans hr
  packages q p hp := by
    obtain ⟨p', hp', hu⟩ := package?_append h hp
    exact ⟨p', hp', identity_of_unlinked hu⟩

theorem byPath?_append {info : PackageInfo} {id : PackageId}
    (h : reg.append (.ofInfo info) = .ok (id, reg')) :
    reg'.byPath? info.importPath = some id := by
  obtain ⟨hnone, rfl, -, -, hall⟩ := append_ok h
  have hid := hall ⟨reg.packages.size⟩
  rw [if_pos rfl] at hid
  obtain ⟨p, hp, hu⟩ := Option.map_eq_some_iff.mp hid
  refine byPath?_eq_some_iff.mpr ⟨⟨p, hp, (identity_of_unlinked hu).2⟩, fun i hi p' hp' => ?_⟩
  have hold : reg.package? ⟨i⟩ = some reg.packages[i] := Array.getElem?_eq_getElem hi
  obtain ⟨p₂, hp₂, hu₂⟩ := package?_append h hold
  obtain rfl := Option.some.inj (hp'.symm.trans hp₂)
  rw [(identity_of_unlinked hu₂).2]
  exact importPath_ne_of_byPath? hnone hold

theorem ensurePackage_ok {info : PackageInfo} {q : PackageId}
    (h : reg.ensurePackage info = .ok (q, reg')) :
    reg'.byPath? info.importPath = some q ∧
      (reg' = reg ∨ reg.append (.ofInfo info) = .ok (q, reg')) := by
  unfold ensurePackage at h
  split at h
  next id hid =>
    obtain ⟨rfl, rfl⟩ := Prod.mk.inj (Except.ok.inj h)
    exact ⟨hid, .inl rfl⟩
  next => exact ⟨byPath?_append h, .inr h⟩

end Registry

theorem FileScope.Sound.later {scope : FileScope} {reg reg' : Registry} (hs : scope.Sound reg)
    (h : Registry.Later reg reg') (hp : scope.typeParams = []) : scope.Sound reg' where
  package := by
    obtain ⟨p, hp⟩ := hs.package
    obtain ⟨p', hp', -⟩ := h.packages _ p hp
    exact ⟨p', hp'⟩
  aliases qualifier q hq := by
    obtain ⟨p, hp⟩ := hs.aliases qualifier q hq
    obtain ⟨p', hp', -⟩ := h.packages _ p hp
    exact ⟨p', hp'⟩
  typeParams n r hl := by
    rw [hp] at hl
    cases hl

end GoPackages
