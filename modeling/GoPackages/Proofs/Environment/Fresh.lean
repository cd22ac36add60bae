import GoPackages.Proofs.Environment.Isolation
import GoPackages.Proofs.Environment.Files
import GoPackages.Proofs.Environment.Reordering

/-!
# Sessions in which nothing was analyzed

Packages may be registered in them, all of them without names. What the items of a file will
become starts from there, for the package of predeclared names with its one interface.
-/
namespace GoPackages

open Source (TypeExpr)
open Registry (builtinId)

namespace Environment

inductive Fresh : Environment → Prop where
  | new (currentDir : Option String) (locator : Locator) (parser : SourceParser) :
      Fresh (.new currentDir locator parser)
  | append {env : Environment} (info : PackageInfo) : Fresh env →
      Fresh (env.perform (.append info))
  | setListener {env : Environment} (listener : Listener) : Fresh env →
      Fresh (env.setListener listener)
  | setTagDecoder {env : Environment} (tagDecoder : TagDecoder) : Fresh env →
      Fresh (env.setTagDecoder tagDecoder)

end Environment

def RefEntry.Bare : RefEntry → Prop
  | .named e => e.methods = {}
  | .decorated _ _ | .aliasOf _ => False

instance (e : RefEntry) : Decidable e.Bare :=
  match e with
  | .named e => inferInstanceAs (Decidable (e.methods = {}))
  | .decorated _ _ | .aliasOf _ => .isFalse fun h => h

def errorItem : Item := .typeSpec none
  { doc := none, name := "error", typeParams := [], isAlias := false,
    type := .interface [.method "Error" [] [⟨[], fun _ => .named "string" [], none, none⟩]] }

namespace Registry

structure Blank (reg : Registry) : Prop where
  graph : reg.graph = Registry.new.graph
  refs : ∀ q n, reg.ref? q n = Registry.new.ref? q n
  lists : ∀ q l, reg.lists? q = some l → l = ({}, {}) ∨ Registry.new.lists? builtinId = some l

theorem blank_new : Registry.new.Blank where
  graph := rfl
  refs _ _ := rfl
  lists q l hl := by
    obtain ⟨p, hp, -⟩ := Option.map_eq_some_iff.mp hl
    obtain rfl := eq_builtinId_of_new hp
    exact .inr hl

theorem lists?_eq_unlinked (reg : Registry) (q : PackageId) : reg.lists? q =
    ((reg.package? q).map unlinked).map fun p => (p.structs, p.interfaces) := by
  rw [lists?, Option.map_map]
  rfl

namespace Blank

variable {reg reg' : Registry}

theorem append (h : reg.Blank) {info : PackageInfo} {id : PackageId}
    (ha : reg.append (.ofInfo info) = .ok (id, reg')) : reg'.Blank where
  graph := (append_ok ha).2.2.1.trans h.graph
  refs q n := (ref?_append ha q n).trans (h.refs q n)
  lists q l hl := by
    obtain ⟨-, -, -, -, hall⟩ := append_ok ha
    rw [lists?_eq_unlinked, hall q] at hl
    split at hl
    · exact .inl (Option.some.inj hl).symm
    · rw [← lists?_eq_unlinked] at hl
      exact h.lists q l hl

theorem builtin_of_ref (h : reg.Blank) {q : PackageId} {n : String} {r : RefId}
    (hr : reg.ref? q n = some r) : q = builtinId := by
  rw [h.refs] at hr
  obtain ⟨p, hp, -⟩ := Option.bind_eq_some_iff.mp hr
  exact eq_builtinId_of_new hp

theorem found?_none (h : reg.Blank) (scope : FileScope) {n : String}
    (hn : reg.ref? builtinId n = none) : scope.found? reg n = none := by
  refine List.findSome?_eq_none_iff.mpr fun q _ => ?_
  cases hr : reg.ref? q n with
  | none => rfl
  | some r =>
    obtain rfl := h.builtin_of_ref hr
    cases hn.symm.trans hr

theorem ref?_error (h : reg.Blank) : reg.ref? builtinId "error" = some ⟨21⟩ := by
  rw [h.refs]
  decide +kernel

theorem sound (h : reg.Blank) : reg.Sound where
  graph := by
    rw [h.graph]
    exact new_sound.graph
  refs q n r hr := by
    rw [h.graph]
    exact new_sound.refs q n r ((h.refs q n).symm.trans hr)

theorem bare (h : reg.Blank) {r : RefId} (hr : reg.graph.HasRef r) :
    ∃ e, reg.graph.entryAt? r = some (.named e) ∧ e.methods = {} := by
  have hall : ∀ e ∈ Registry.new.graph.refs.toList, e.Bare := by decide +kernel
  obtain ⟨entry, hentry⟩ := hr.entry
  have hbare : entry.Bare := by
    rw [h.graph] at hentry
    exact hall entry (Array.mem_toList_iff.mpr (Array.mem_of_getElem? hentry))
  cases entry with
  | named e => exact ⟨e, hentry, hbare⟩
  | decorated | aliasOf => exact hbare.elim

theorem attached (h : reg.Blank) : reg.graph.Attached [] where
  found _ _ hm := by cases hm
  origin x n m hx hm := by
    obtain ⟨e, he, hnone⟩ := h.bare hx
    rw [TypeGraph.refMethods, TypeGraph.named?, TypeGraph.namedRoot_of_named he, he] at hm
    dsimp only [Option.elim_some] at hm
    rw [hnone] at hm
    cases hm

theorem found? (h : reg.Blank) (scope : FileScope) {q : PackageId} {n : String} {r : RefId}
    (hq : q ∈ scope.package :: scope.dotImports) (hr : reg.ref? q n = some r) :
    scope.found? reg n = some r := by
  cases hf : scope.found? reg n with
  | none => cases (List.findSome?_eq_none_iff.mp hf q hq).symm.trans hr
  | some s =>
    obtain ⟨q', -, hs⟩ := FileScope.found?_mem hf
    obtain rfl := h.builtin_of_ref hr
    obtain rfl := h.builtin_of_ref hs
    exact hs.symm.trans hr

theorem lookups (h : reg.Blank) (scope : FileScope) (items : List Item) :
    Lookups scope reg items reg where
  sound := h.sound
  start := h.sound
  old r hr := by
    obtain ⟨e, he, -⟩ := h.bare hr
    exact ⟨e, he⟩
  kept _ _ hf := hf
  tables q hq n r hr := h.found? scope hq hr
  foreign _ _ _ _ _ hr := hr
  own n r hnone _ hf := by cases hnone.symm.trans hf

end Blank

end Registry

theorem Environment.Fresh.blank {env : Environment} (h : env.Fresh) :
    env.registry.Blank ∧ env.builtin = some builtinId := by
  induction h with
  | new => exact ⟨Registry.blank_new, Registry.new_builtin?⟩
  | @append env info _ ih =>
    have hafter : After (Session.append (.ofInfo info)) env
        (fun _ env' => env'.registry.Blank ∧ env'.builtin = some builtinId)
        (fun env' => env'.registry.Blank ∧ env'.builtin = some builtinId) := by
      unfold Session.append
      simp only [after_bind, after_get]
      cases happend : env.registry.append (.ofInfo info) with
      | ok result => exact ⟨ih.1.append happend, ih.2⟩
      | error e => exact ih
    exact hafter.anyhow
  | setListener | setTagDecoder => assumption

section

variable {scope : FileScope} {items : List Item} {reg : Registry} {start stop : Nat}
  {n : String} {r : RefId}

theorem place_of_name (hf : scope.found? reg n = some r) (hr : reg.graph.HasRef r) :
    Place scope items reg start stop (.named n []) r where
  hasRef := hr
  written v := by cases v <;> exact fun heq => by cases heq
  name v m hm := by
    obtain rfl : n = m := by cases v <;> exact Head.name.inj hm
    exact ⟨r, hf, rfl⟩
  empty v hv := by cases v <;> cases hv
  site v hv := by cases v <;> cases hv

theorem Registry.Blank.covered_error (h : reg.Blank)
    (hb : builtinId ∈ scope.package :: scope.dotImports) :
    Covered scope items reg start stop errorItem (.defined ⟨21⟩ ⟨21⟩) := by
  have hstring : reg.ref? builtinId "string" = some ⟨13⟩ := by
    rw [h.refs]
    decide +kernel
  have hiface : reg.graph.typeAt? ⟨21⟩ = some
      { name := "error", package := some builtinId,
        kind := .interface { methods := ({} : MethodSet).insertAll [("Error", ⟨22⟩)] } } := by
    rw [h.graph]
    decide +kernel
  have hmethod : reg.graph.kind? ⟨22⟩ = some (.method { results := [⟨"", ⟨13⟩⟩] }) := by
    rw [h.graph]
    decide +kernel
  have hresult : Place scope items reg start stop (.named "string" []) ⟨13⟩ :=
    place_of_name (h.found? scope hb hstring) (h.sound.refs _ _ _ hstring)
  have hsignature : SignaturePlaced scope items reg start stop []
      [⟨[], fun _ => .named "string" [], none, none⟩] ⟨22⟩ :=
    ⟨_, hmethod, .nil, .cons hresult .nil⟩
  refine .defined rfl (h.found? scope hb h.ref?_error) hiface (fun hd => by cases hd) ?_
  exact ⟨_, [("Error", ⟨22⟩)], rfl, rfl, .cons ⟨_, _, rfl, hsignature⟩ .nil⟩

theorem Registry.Blank.covers (h : reg.Blank)
    (hb : builtinId ∈ scope.package :: scope.dotImports) {p : Package}
    (hp : reg.package? scope.package = some p) :
    ∃ log, Covers scope reg log reg ∧
      (log.map Analyzed.item = [] ∨ log.map Analyzed.item = [errorItem]) := by
  obtain ⟨l, hl⟩ : ∃ l, reg.lists? scope.package = some l :=
    ⟨_, Option.map_eq_some_iff.mpr ⟨p, hp, rfl⟩⟩
  rcases h.lists _ l hl with rfl | hnew
  · refine ⟨[], ⟨h.lookups scope _, ⟨p, hp⟩, ?_, ?_, .nil, h.attached, ?_⟩, .inl rfl⟩
    · exact fun _ hm => by cases hm
    · exact fun _ hm => by cases hm
    · exact ⟨{}, {}, hl, fun _ => rfl, fun _ => rfl⟩
  · let a : Analyzed :=
      ⟨errorItem, .defined ⟨21⟩ ⟨21⟩, reg.graph.refCount, reg.graph.refCount⟩
    have hone := List.pairwise_singleton (fun a b : Analyzed => a.stop ≤ b.start) a
    refine ⟨[a], ⟨h.lookups scope _, ⟨p, hp⟩, ?_, ?_, hone, h.attached, ?_⟩, .inr rfl⟩
    · rintro _ (_ | ⟨_, ⟨⟩⟩)
      exact h.covered_error hb
    · rintro _ (_ | ⟨_, ⟨⟩⟩)
      exact ⟨le_rfl, le_rfl⟩
    · have hlists : Registry.new.lists? builtinId =
          some ({}, ({} : DeclList).declare "error" ⟨21⟩) := by decide +kernel
      obtain rfl := Option.some.inj (hnew.symm.trans hlists)
      have hempty : ∀ listed, Listing listed [] {} := fun _ _ => rfl
      have hnone : "error" ∉ declared [] := List.not_mem_nil
      exact ⟨_, _, hl, (hempty isStruct).declare hnone, (hempty isInterface).declare hnone⟩

end

end GoPackages
