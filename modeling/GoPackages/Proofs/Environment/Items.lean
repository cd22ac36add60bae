import GoPackages.Environment.Import

/-!
# Files as lists of items

The groups of a file matter only for constant lines, which may repeat the line before. With
that resolved, a file is a list of items that are analyzed one after the other.
-/
namespace GoPackages

open Source (ImportSpec TypeSpec ValueSpec FuncDecl Spec Decl GroupKind SourceFile)

inductive Item where
  | importSpec (spec : ImportSpec)
  | typeSpec (doc : Option Doc) (spec : TypeSpec)
  | valueSpec (kind : GroupKind) (doc : Option Doc) (spec source : ValueSpec)
  | func (decl : FuncDecl)

def Item.typeNames : Item → List String
  | .typeSpec _ spec => [spec.name]
  | .importSpec _ | .valueSpec _ _ _ _ | .func _ => []

/-- Neither an alias nor a dotted import. -/
def Item.Plain : Item → Prop
  | .importSpec spec => spec.name ≠ some .dot
  | .typeSpec _ spec => spec.isAlias = false
  | .valueSpec _ _ _ _ | .func _ => True

instance (item : Item) : Decidable item.Plain :=
  match item with
  | .importSpec spec => inferInstanceAs (Decidable (spec.name ≠ some .dot))
  | .typeSpec _ spec => inferInstanceAs (Decidable (spec.isAlias = false))
  | .valueSpec _ _ _ _ | .func _ => .isTrue trivial

def specItems (kind : GroupKind) (doc : Option Doc) : Option ValueSpec → List Spec → List Item
  | _, [] => []
  | previous, .importSpec spec :: rest => .importSpec spec :: specItems kind doc previous rest
  | previous, .typeSpec spec :: rest => .typeSpec doc spec :: specItems kind doc previous rest
  | previous, .valueSpec spec :: rest =>
    let source := valueSource kind previous spec
    .valueSpec kind doc spec source :: specItems kind doc (some source) rest

def declItems : Decl → List Item
  | .group kind doc specs => specItems kind doc none specs
  | .func decl => [.func decl]

def items (file : SourceFile) : List Item := file.decls.flatMap declItems

def typeNames (file : SourceFile) : List String := (items file).flatMap Item.typeNames

def analyzeItem (enter : PackageId → Session Unit) (scope : FileScope) :
    Item → Session FileScope
  | .importSpec spec => importSpec enter scope spec
  | .typeSpec doc spec => do
    Session.analyze (declareTypeSpec scope doc spec)
    return scope
  | .valueSpec kind doc spec source => do
    Session.analyze (declareValueSpec scope kind doc spec source)
    return scope
  | .func decl => do
    Session.analyze (declareFunc scope decl)
    return scope

theorem Session.analyze_bind_pure {α : Type} (step : Analysis Unit) (a : α) :
    Session.analyze (do step; return a) = (do Session.analyze step; return a) := by
  funext env
  simp only [analyze, bind, EStateM.bind]
  cases step env.registry <;> rfl

section

variable (enter : PackageId → Session Unit)

theorem analyzeSpecs_eq (kind : GroupKind) (doc : Option Doc) (specs : List Spec)
    (scope : FileScope) (previous : Option ValueSpec) :
    analyzeSpecs enter kind doc scope previous specs =
      (specItems kind doc previous specs).foldlM (analyzeItem enter) scope := by
  induction specs generalizing scope previous with
  | nil => rfl
  | cons spec rest ih =>
    cases spec with
    | importSpec spec =>
      simp only [analyzeSpecs, specItems, List.foldlM_cons, analyzeItem, ih]
    | typeSpec spec =>
      simp only [analyzeSpecs, specItems, List.foldlM_cons, analyzeItem, analyzeSpec, ih]
      rw [Session.analyze_bind_pure]
      simp only [bind_assoc, pure_bind]
    | valueSpec spec =>
      simp only [analyzeSpecs, specItems, List.foldlM_cons, analyzeItem, analyzeSpec, ih]
      rw [Session.analyze_bind_pure]
      simp only [bind_assoc, pure_bind]

theorem analyzeDecl_eq (scope : FileScope) (decl : Decl) :
    analyzeDecl enter scope decl = (declItems decl).foldlM (analyzeItem enter) scope := by
  cases decl with
  | group kind doc specs => exact analyzeSpecs_eq enter kind doc specs scope none
  | func decl => simp only [analyzeDecl, declItems, List.foldlM_cons, List.foldlM_nil,
      analyzeItem, bind_assoc, pure_bind]

theorem foldlM_analyzeDecl (decls : List Decl) (scope : FileScope) :
    decls.foldlM (analyzeDecl enter) scope =
      (decls.flatMap declItems).foldlM (analyzeItem enter) scope := by
  induction decls generalizing scope with
  | nil => rfl
  | cons decl rest ih =>
    rw [List.foldlM_cons, List.flatMap_cons, List.foldlM_append, analyzeDecl_eq]
    exact bind_congr ih

end

end GoPackages
