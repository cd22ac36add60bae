import GoPackages.Proofs.Analysis.Closure
import GoPackages.Proofs.Analysis.Values

/-!
# Tables while type parameters are in scope

A bare name that is a type parameter is never looked up in a table. So while types are read, only an
imported package can get the name of a type parameter, behind its qualifier.
-/
namespace GoPackages

open Source (TypeExpr InterfaceElem Field FuncDecl Expr)

/-- The tables of packages without a qualifier have the same for the names of type parameters. -/
def Shielded (scope : FileScope) (reg reg' : Registry) : Prop :=
  ∀ q n, (scope.typeParams.lookup n).isSome → (∀ qualifier, scope.aliases.get? qualifier ≠ some q) →
    reg'.ref? q n = reg.ref? q n

/-- A step that shields the names of type parameters, also when it fails. -/
def Shields {α : Type} (scope : FileScope) (m : Analysis α) : Prop :=
  ∀ reg, After m reg (fun _ reg' => Shielded scope reg reg') (Shielded scope reg)

section Rules

variable {α β : Type} {scope : FileScope} {reg mid reg' : Registry} {m : Analysis α}

theorem Shielded.refl (scope : FileScope) (reg : Registry) : Shielded scope reg reg :=
  fun _ _ _ _ => rfl

theorem Shielded.trans (h : Shielded scope reg mid) (h' : Shielded scope mid reg') :
    Shielded scope reg reg' :=
  fun q n hn hq => (h' q n hn hq).trans (h q n hn hq)

theorem Registry.ref?_ensureRef_of_ne {pkg q : PackageId} {name n : String}
    (h : (q, n) ≠ (pkg, name)) (reg : Registry) :
    (reg.ensureRef pkg name).2.ref? q n = reg.ref? q n := by
  cases hr : reg.ref? pkg name with
  | some r => rw [ensureRef_of_some hr]
  | none =>
    simp only [ensureRef, hr]
    by_cases hq : pkg = q
    · subst hq
      exact ref?_register_of_ne (fun hn => h (by rw [hn])) _ _ _
    · exact ref?_modifyPackage_of_ne hq _ _ n

theorem Shielded.ensureRef {pkg : PackageId} {name : String}
    (h : scope.typeParams.lookup name = none ∨
      ∃ qualifier, scope.aliases.get? qualifier = some pkg) :
    Shielded scope reg (reg.ensureRef pkg name).2 := by
  intro q n hn hq
  refine Registry.ref?_ensureRef_of_ne (fun heq => ?_) reg
  obtain ⟨rfl, rfl⟩ := Prod.mk.inj heq
  rcases h with hnone | ⟨qualifier, hqualifier⟩
  · rw [hnone] at hn
    cases hn
  · exact hq qualifier hqualifier

theorem Shields.bind {k : α → Analysis β} (h : Shields scope m) (hk : ∀ a, Shields scope (k a)) :
    Shields scope (m >>= k) := by
  intro reg
  refine After.bind (h reg) (fun a mid hmid => ?_) fun _ hfailed => hfailed
  exact After.mono (hk a mid) (fun _ _ hlast => hmid.trans hlast) fun _ hlast => hmid.trans hlast

theorem shields_pure (a : α) : Shields scope (pure a) := fun reg => .refl scope reg

theorem shields_throw (e : Error) : Shields scope (throw e : Analysis α) :=
  fun reg => .refl scope reg

theorem shields_ofGraph (f : TypeGraph → α × TypeGraph) : Shields scope (Analysis.ofGraph f) :=
  fun _ _ _ _ _ => rfl

theorem shields_withGraph (f : TypeGraph → TypeGraph) :
    Shields scope (modify (·.withGraph f) : Analysis Unit) :=
  fun _ _ _ _ _ => rfl

theorem shields_modifyPackage (pkg : PackageId) {f : Package → Package}
    (hf : ∀ p, (f p).refs = p.refs) :
    Shields scope (modify (·.modifyPackage pkg f) : Analysis Unit) :=
  fun _ q n _ _ => Registry.ref?_modifyPackage hf q n

end Rules

section Types

variable {scope : FileScope}

theorem resolveName_shields (scope : FileScope) (name : String) :
    Shields scope (scope.resolveName name) := by
  intro reg
  unfold FileScope.resolveName
  split
  · exact shields_throw _ reg
  · simp only [after_bind, after_get]
    split
    · exact shields_pure _ reg
    next hunknown =>
      refine Shielded.ensureRef (.inl ?_)
      unfold FileScope.known? at hunknown
      split at hunknown
      · cases hunknown
      · assumption

theorem resolveQualified_shields (scope : FileScope) (base : Expr) (name : String) :
    Shields scope (scope.resolveQualified base name) := by
  intro reg
  unfold FileScope.resolveQualified
  split
  next qualifier =>
    split
    next q hq => exact Shielded.ensureRef (.inr ⟨qualifier, hq⟩)
    next => exact shields_throw _ reg
  next => exact shields_throw _ reg

theorem readTag_shields (scope : FileScope) (literal : Option String) :
    Shields scope (scope.readTag literal) := by
  unfold FileScope.readTag
  split
  · exact shields_pure _
  · dsimp only
    split
    · exact shields_pure _
    · exact shields_throw _

theorem reading_shields (scope : FileScope) : ReadingClosed scope (Shields scope) where
  pure := shields_pure
  bind h hk := h.bind hk
  bad := shields_throw _
  name := resolveName_shields scope
  qualified := resolveQualified_shields scope
  tag := readTag_shields scope
  decorate _ _ := shields_ofGraph _
  fresh _ _ _ := shields_ofGraph _
  addType _ := shields_ofGraph _
  mapOf _ _ _ := shields_ofGraph _
  addFields _ _ := shields_withGraph _

theorem declareElems_shields (scope : FileScope) (ty : TypeId) (elems : List InterfaceElem) :
    Shields scope (declareElems scope ty elems) := by
  induction elems with
  | nil => exact shields_pure _
  | cons elem rest ih =>
    cases elem with
    | method name params results =>
      refine ((reading_shields scope).ofMethod name [] none params results).bind fun _ => ?_
      exact (shields_withGraph _).bind fun _ => ih
    | embedded | union => exact shields_throw _

theorem fill_shields (scope : FileScope) (ty : TypeId) (type : TypeExpr) :
    Shields scope (fill scope ty type) := by
  cases type with
  | struct fields => exact (reading_shields scope).ofFields ty fields
  | interface elems => exact declareElems_shields scope ty elems
  | _ => exact shields_pure _

theorem receiver_shields (scope : FileScope) (receiver : Option Field) :
    Shields scope (receiver.mapM (resolveReceiver scope)) := by
  cases receiver with
  | none => exact shields_pure _
  | some field =>
    refine Shields.bind (Shields.bind ((reading_shields scope).ofType (field.type ())) fun _ => ?_)
      fun _ => shields_pure _
    exact shields_pure _

theorem funcBody_shields (scope : FileScope) (decl : FuncDecl) :
    Shields scope (funcBody scope decl) := by
  refine (receiver_shields scope decl.receiver).bind fun receiver => ?_
  refine ((reading_shields scope).ofMethod decl.name _ receiver decl.params decl.results).bind
    fun method => ?_
  cases receiver with
  | some owner => exact shields_withGraph _
  | none => exact shields_modifyPackage _ fun _ => rfl

end Types

end GoPackages
