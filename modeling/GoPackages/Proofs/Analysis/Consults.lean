import GoPackages.Proofs.Analysis.Closure
import GoPackages.Proofs.Analysis.Values

/-!
# What reading adds to the tables

Without imports a name that is read is looked up among the packages in scope, and only a name
that none of them has becomes a name of the file's package. New entries have no methods.
-/
namespace GoPackages

open Source (TypeExpr Field Expr)

/-- The reference of a name in the first package in scope that has it. -/
def FileScope.found? (scope : FileScope) (reg : Registry) (name : String) : Option RefId :=
  (scope.package :: scope.dotImports).findSome? (reg.ref? · name)

def FileScope.Unqualified (scope : FileScope) : Prop :=
  ∀ qualifier, scope.aliases.get? qualifier = none

structure Consults (scope : FileScope) (reg reg' : Registry) : Prop where
  refs : ∀ q n r, reg.ref? q n = some r → reg'.ref? q n = some r
  placed : ∀ q n r, reg'.ref? q n = some r →
    reg.ref? q n = some r ∨ q = scope.package ∧ scope.found? reg n = none
  methods : ∀ r e, reg'.graph.entryAt? r = some (.named e) →
    reg.graph.entryAt? r = some (.named e) ∨ e.methods = {}

/-- A step that only consults the packages in scope, also when it fails. -/
def Looks {α : Type} (scope : FileScope) (m : Analysis α) : Prop :=
  ∀ reg, After m reg (fun _ reg' => Consults scope reg reg') (Consults scope reg)

section Rules

variable {α β : Type} {scope : FileScope} {reg mid reg' : Registry} {m : Analysis α}

theorem FileScope.found?_none (h : ∀ q n r, reg.ref? q n = some r → reg'.ref? q n = some r)
    {n : String} (hn : scope.found? reg' n = none) : scope.found? reg n = none := by
  refine List.findSome?_eq_none_iff.mpr fun q hq => ?_
  have hnone := List.findSome?_eq_none_iff.mp hn q hq
  cases hr : reg.ref? q n with
  | none => rfl
  | some r => rw [h q n r hr] at hnone; cases hnone

namespace Consults

theorem refl (scope : FileScope) (reg : Registry) : Consults scope reg reg :=
  ⟨fun _ _ _ h => h, fun _ _ _ h => .inl h, fun _ _ h => .inl h⟩

theorem trans (h : Consults scope reg mid) (h' : Consults scope mid reg') :
    Consults scope reg reg' where
  refs q n r hr := h'.refs q n r (h.refs q n r hr)
  placed q n r hr := by
    rcases h'.placed q n r hr with hmid | ⟨hq, hnone⟩
    · exact h.placed q n r hmid
    · exact .inr ⟨hq, FileScope.found?_none h.refs hnone⟩
  methods r e he := (h'.methods r e he).elim (h.methods r e) .inr

theorem of_graph {g : TypeGraph} (h : ∀ r e, g.entryAt? r = some (.named e) →
    reg.graph.entryAt? r = some (.named e) ∨ e.methods = {}) :
    Consults scope reg { reg with graph := g } :=
  ⟨fun _ _ _ h => h, fun _ _ _ h => .inl h, h⟩

theorem addRef {e : RefEntry} (h : ∀ entry, e = .named entry → entry.methods = {}) :
    Consults scope reg { reg with graph := (reg.graph.addRef e).2 } := by
  refine of_graph fun r entry he => ?_
  rcases TypeGraph.entryAt?_addRef_cases he with hold | heq
  · exact .inl hold
  · exact .inr (h entry heq.symm)

theorem modifyPackage {q : PackageId} {f : Package → Package} (hf : ∀ p, (f p).refs = p.refs) :
    Consults scope reg (reg.modifyPackage q f) where
  refs other n _ hr := (Registry.ref?_modifyPackage hf other n).trans hr
  placed other n _ hr := .inl ((Registry.ref?_modifyPackage hf other n).symm.trans hr)
  methods _ _ he := .inl he

theorem ensureRef {name : String} (h : scope.found? reg name = none) :
    Consults scope reg (reg.ensureRef scope.package name).2 where
  refs := by
    have hextends : Registry.Extends scope.package (fun _ => False) reg
        (reg.ensureRef scope.package name).2 := Registry.extends_ensureRef reg scope.package name
    exact hextends.refs
  placed q n r hr := by
    have hnone : reg.ref? scope.package name = none :=
      List.findSome?_eq_none_iff.mp h _ List.mem_cons_self
    simp only [Registry.ensureRef, hnone] at hr
    rcases Registry.ref?_register_cases hr with ⟨rfl, rfl, -⟩ | hold
    · exact .inr ⟨rfl, h⟩
    · exact .inl hold
  methods r e he := by
    have hnone : reg.ref? scope.package name = none :=
      List.findSome?_eq_none_iff.mp h _ List.mem_cons_self
    simp only [Registry.ensureRef, hnone] at he
    rcases TypeGraph.entryAt?_addRef_cases he with hold | heq
    · exact .inl hold
    · cases heq
      exact .inr rfl

end Consults

theorem Looks.bind {k : α → Analysis β} (h : Looks scope m) (hk : ∀ a, Looks scope (k a)) :
    Looks scope (m >>= k) := by
  intro reg
  refine After.bind (h reg) (fun a mid hm => ?_) fun _ h => h
  exact After.mono (hk a mid) (fun _ _ h => hm.trans h) fun _ h => hm.trans h

theorem looks_pure (a : α) : Looks scope (pure a) := fun reg => .refl scope reg

theorem looks_throw (e : Error) : Looks scope (throw e : Analysis α) := fun reg => .refl scope reg

theorem looks_addRef (f : TypeGraph → RefId × TypeGraph) (e : TypeGraph → RefEntry)
    (hf : ∀ g, (f g).2 = (g.addRef (e g)).2)
    (he : ∀ g entry, e g = .named entry → entry.methods = {}) :
    Looks scope (Analysis.ofGraph f) := by
  intro reg
  show Consults scope reg { reg with graph := (f reg.graph).2 }
  rw [hf]
  exact Consults.addRef (he reg.graph)

theorem looks_decorate (d : Decorator) (inner : RefId) :
    Looks scope (Analysis.ofGraph (·.decorate d inner)) :=
  looks_addRef _ (fun _ => .decorated d inner) (fun _ => rfl) fun _ _ h => by cases h

theorem looks_fresh (package : Option PackageId) (name : String) (ty : TypeId) :
    Looks scope (Analysis.ofGraph (·.fresh package name ty)) :=
  looks_addRef _ (fun _ => .named { name, package, type := some ty }) (fun _ => rfl)
    fun _ _ h => by cases h; rfl

theorem looks_addType (f : TypeGraph → TypeData) :
    Looks scope (Analysis.ofGraph fun g => g.addType (f g)) :=
  fun _ => Consults.of_graph fun _ _ h => .inl h

theorem looks_mapOf (package : Option PackageId) (key value : RefId) :
    Looks scope (Analysis.ofGraph (·.mapOf package key value)) := by
  intro reg
  refine Consults.of_graph (g := (reg.graph.mapOf package key value).2) fun r e he => ?_
  rcases TypeGraph.entryAt?_addRef_cases he with hold | heq
  · exact .inl hold
  · cases heq
    exact .inr rfl

theorem looks_modifyType (f : TypeGraph → TypeGraph) (hf : ∀ g, (f g).refs = g.refs) :
    Looks scope (modify (·.withGraph f) : Analysis PUnit) := by
  intro reg
  refine Consults.of_graph (g := f reg.graph) fun r e he => .inl ?_
  unfold TypeGraph.entryAt? at he ⊢
  rwa [hf] at he

end Rules

section Types

variable {scope : FileScope}

theorem resolveName_looks (scope : FileScope) (name : String) :
    Looks scope (scope.resolveName name) := by
  intro reg
  unfold FileScope.resolveName
  split
  · exact looks_throw _ reg
  · simp only [after_bind, after_get]
    split
    · exact looks_pure _ reg
    next hk =>
      refine Consults.ensureRef ?_
      unfold FileScope.known? at hk
      split at hk
      · cases hk
      · exact hk

theorem resolveQualified_looks (hi : scope.Unqualified) (base : Expr) (name : String) :
    Looks scope (scope.resolveQualified base name) := by
  unfold FileScope.resolveQualified
  split
  next qualifier =>
    rw [hi qualifier]
    exact looks_throw _
  next => exact looks_throw _

theorem readTag_looks (scope : FileScope) (tag : Option String) :
    Looks scope (scope.readTag tag) := by
  unfold FileScope.readTag
  split
  · exact looks_pure _
  · dsimp only
    split
    · exact looks_pure _
    · exact looks_throw _

theorem reading_looks (hi : scope.Unqualified) : ReadingClosed scope (Looks scope) where
  pure := looks_pure
  bind h hk := h.bind hk
  bad := looks_throw _
  name := resolveName_looks scope
  qualified := resolveQualified_looks hi
  tag := readTag_looks scope
  decorate := looks_decorate
  fresh := looks_fresh
  addType _ := looks_addType _
  mapOf := looks_mapOf
  addFields _ _ := looks_modifyType _ fun _ => rfl

theorem resolveType_looks (hi : scope.Unqualified) (type : TypeExpr) :
    Looks scope (resolveType scope type) :=
  (reading_looks hi).ofType type

theorem resolveFields_looks (hi : scope.Unqualified) (ty : TypeId) (fields : List Field) :
    Looks scope (resolveFields scope ty fields) :=
  (reading_looks hi).ofFields ty fields

theorem resolveMethod_looks (hi : scope.Unqualified) (name : String) (doc : Doc)
    (receiver : Option Argument) (params results : List Field) :
    Looks scope (resolveMethod scope name doc receiver params results) :=
  (reading_looks hi).ofMethod name doc receiver params results

theorem inferType_looks (hi : scope.Unqualified) (e : Expr) : Looks scope (inferType scope e) := by
  cases e with
  | literal kind text =>
    exact (resolveName_looks scope kind.typeName).bind fun _ => looks_pure _
  | ident name =>
    unfold inferType
    split
    · exact (resolveName_looks scope _).bind fun _ => looks_pure _
    · exact looks_pure _
  | composite type =>
    cases type with
    | none => exact looks_pure _
    | some type => exact (resolveType_looks hi (type ())).bind fun _ => looks_pure _
  | unary op operand =>
    unfold inferType
    split
    · refine (inferType_looks hi (operand ())).bind fun o => ?_
      cases o with
      | none => exact looks_pure _
      | some r => exact (looks_decorate _ _).bind fun _ => looks_pure _
    · split
      · exact inferType_looks hi (operand ())
      · exact looks_pure _
  | paren inner => exact inferType_looks hi (inner ())
  | selector | call | other | bad => exact looks_pure _
termination_by structural e

end Types

end GoPackages
