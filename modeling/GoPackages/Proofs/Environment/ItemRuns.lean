import GoPackages.Proofs.Environment.Files
import GoPackages.Proofs.Environment.Isolation
import GoPackages.Proofs.Environment.Visits

/-!
# One item in the run of a file

The scope of a file only grows from item to item: imports add qualifiers and packages behind
those that are there. So where the items of a file, or of one of its groups, are analyzed to
their end, each of them was analyzed at some moment in between, in a scope of the same package.
-/
namespace GoPackages

open Source (ImportSpec ValueSpec GroupKind)
open Environment (Moves)

structure FileScope.Widens (scope scope' : FileScope) : Prop where
  package : scope'.package = scope.package
  decodeTag : scope'.decodeTag = scope.decodeTag
  typeParams : scope'.typeParams = scope.typeParams
  dotImports : scope.dotImports <+: scope'.dotImports

namespace FileScope.Widens

variable {scope scope₁ scope₂ : FileScope}

theorem refl (scope : FileScope) : scope.Widens scope := ⟨rfl, rfl, rfl, List.prefix_rfl⟩

theorem trans (h : scope.Widens scope₁) (h' : scope₁.Widens scope₂) : scope.Widens scope₂ where
  package := h'.package.trans h.package
  decodeTag := h'.decodeTag.trans h.decodeTag
  typeParams := h'.typeParams.trans h.typeParams
  dotImports := h.dotImports.trans h'.dotImports

theorem addDotImport (scope : FileScope) (q : PackageId) :
    scope.Widens (scope.addDotImport q) := by
  unfold FileScope.addDotImport
  split
  · exact .refl scope
  · exact ⟨rfl, rfl, rfl, List.prefix_append _ _⟩

end FileScope.Widens

section

variable {enter : PackageId → Session Unit} {scope scope' : FileScope} {env env' : Environment}

theorem importSpec_widens {spec : ImportSpec}
    (h : importSpec enter scope spec env = .ok scope' env') : scope.Widens scope' := by
  obtain ⟨info, env₁, -, h⟩ := bind_ok h
  obtain ⟨q, env₂, -, h⟩ := bind_ok h
  cases hname : spec.name with
  | none => rw [hname] at h; cases h; exact ⟨rfl, rfl, rfl, List.prefix_rfl⟩
  | some name =>
    rw [hname] at h
    cases name with
    | dot =>
      obtain ⟨_, env₃, -, h⟩ := bind_ok h
      cases h
      exact .addDotImport scope q
    | blank => cases h; exact .refl scope
    | named name => cases h; exact ⟨rfl, rfl, rfl, List.prefix_rfl⟩

theorem analyzeItem_widens {item : Item}
    (h : analyzeItem enter scope item env = .ok scope' env') : scope.Widens scope' := by
  cases item with
  | importSpec spec => exact importSpec_widens h
  | typeSpec | valueSpec | func =>
    obtain ⟨rfl, -⟩ := Session.analyze_pure_ok h
    exact .refl _

theorem analyzeItem_moving (henter : ∀ q, Safe (enter q)) (hr : env.registry.Sound)
    (hs : scope.Sound env.registry) (item : Item) :
    Moving env (analyzeItem enter scope item) fun scope' env' => scope'.Sound env'.registry := by
  cases item with
  | importSpec spec => exact importSpec_moving henter hr hs spec
  | typeSpec doc spec =>
    refine Moving.bind (moving_analyze (.typeSpec scope doc spec) hs rfl) fun _ mid h _ => ?_
    exact moving_pure (hs.grows (h.grows hr))
  | valueSpec kind doc spec source =>
    refine Moving.bind (moving_analyze (.valueSpec scope kind doc spec source) hs rfl) ?_
    exact fun _ mid h _ => moving_pure (hs.grows (h.grows hr))
  | func decl =>
    refine Moving.bind (moving_analyze (.func scope decl) hs rfl) fun _ mid h _ => ?_
    exact moving_pure (hs.grows (h.grows hr))

/-- Items one after the other, from one moment of a session to a later one. -/
structure ItemsRun (scope : FileScope) (env : Environment) (scope' : FileScope)
    (env' : Environment) : Prop where
  widens : scope.Widens scope'
  sound : scope'.Sound env'.registry
  moves : Moves env env'

theorem items_run (henter : ∀ q, Safe (enter q)) {items : List Item} (hr : env.registry.Sound)
    (hs : scope.Sound env.registry)
    (h : items.foldlM (analyzeItem enter) scope env = .ok scope' env') :
    ItemsRun scope env scope' env' := by
  induction items generalizing scope env with
  | nil =>
    cases h
    exact ⟨.refl _, hs, .of_eq rfl⟩
  | cons item rest ih =>
    rw [List.foldlM_cons] at h
    obtain ⟨scope₁, env₁, hitem, h⟩ := bind_ok h
    obtain ⟨hmoves, hs₁⟩ := After.of_ok (analyzeItem_moving henter hr hs item) hitem
    have hrest := ih (hmoves.sound hr) hs₁ h
    exact ⟨(analyzeItem_widens hitem).trans hrest.widens, hrest.sound, hmoves.trans hrest.moves⟩

/-- A line between two moments of the run: the items in front of it are analyzed before, those
behind it afterwards. -/
theorem valueSpec_runs {front back : List Item} {kind : GroupKind} {doc : Option Doc}
    {spec source : ValueSpec}
    (h : (front ++ .valueSpec kind doc spec source :: back).foldlM (analyzeItem enter) scope env =
      .ok scope' env') :
    ∃ line env₁ reg, front.foldlM (analyzeItem enter) scope env = .ok line env₁ ∧
      declareValueSpec line kind doc spec source env₁.registry = .ok () reg ∧
      back.foldlM (analyzeItem enter) line { env₁ with registry := reg } = .ok scope' env' := by
  rw [List.foldlM_append] at h
  obtain ⟨line, env₁, hfront, h⟩ := bind_ok h
  rw [List.foldlM_cons] at h
  obtain ⟨line', env₂, hline, hback⟩ := bind_ok h
  obtain ⟨rfl, _, reg, hstep, rfl⟩ := Session.analyze_pure_ok hline
  exact ⟨line', env₁, reg, hfront, hstep, hback⟩

theorem valueSpec_moves {kind : GroupKind} {doc : Option Doc} {spec source : ValueSpec}
    {reg : Registry} (hs : scope.Sound env.registry)
    (h : declareValueSpec scope kind doc spec source env.registry = .ok () reg) :
    Moves env { env with registry := reg } :=
  .one (.valueSpec scope kind doc spec source) hs (stateAfter_of_ok h).symm

end

end GoPackages
