import GoPackages.Analysis.Declaration

/-!
# Properties of reading

To read a type expression is to look names up, to read tags, and to make entries and types. What is
true of each of these steps and of a sequence as soon as it is of its parts, is true of reading.
-/
namespace GoPackages

open Source (TypeExpr Field Expr)

/-- A property of the steps of reading that sequences inherit. -/
structure ReadingClosed (scope : FileScope) (P : ∀ {α : Type}, Analysis α → Prop) : Prop where
  pure : ∀ {α : Type} (a : α), P (pure a : Analysis α)
  bind : ∀ {α β : Type} {m : Analysis α} {k : α → Analysis β}, P m → (∀ a, P (k a)) → P (m >>= k)
  bad : P (throw .badTypeExpression : Analysis RefId)
  name : ∀ name, P (scope.resolveName name)
  qualified : ∀ base name, P (scope.resolveQualified base name)
  tag : ∀ literal, P (scope.readTag literal)
  decorate : ∀ d inner, P (Analysis.ofGraph (·.decorate d inner))
  fresh : ∀ package name ty, P (Analysis.ofGraph (·.fresh package name ty))
  addType : ∀ data, P (Analysis.ofGraph (·.addType data))
  mapOf : ∀ package key value, P (Analysis.ofGraph (·.mapOf package key value))
  addFields : ∀ ty (fields : TypeGraph → List StructField),
    P (modify (·.withGraph fun g => g.addFields ty (fields g)) : Analysis Unit)

namespace ReadingClosed

variable {scope : FileScope} {P : ∀ {α : Type}, Analysis α → Prop}

mutual

theorem ofType (h : ReadingClosed scope P) (type : TypeExpr) :
    P (resolveType scope type) := by
  cases type with
  | named name args => exact h.name name
  | selector base name args => exact h.qualified (base ()) name
  | pointer elem | array _ elem | slice elem | chan _ elem | ellipsis elem =>
    exact h.bind (h.ofType (elem ())) fun _ => h.decorate _ _
  | map key value =>
    exact h.bind (h.ofType (key ())) fun _ => h.bind (h.ofType (value ())) fun _ =>
      h.mapOf _ _ _
  | func params results =>
    exact h.bind (h.ofArguments params) fun _ => h.bind (h.ofArguments results) fun _ =>
      h.bind (h.addType _) fun _ => h.fresh _ _ _
  | interface elems => exact h.pure _
  | struct fields =>
    exact h.bind (h.addType _) fun _ => h.bind (h.fresh _ _ _) fun _ =>
      h.bind (h.ofFields _ fields) fun _ => h.pure _
  | paren inner => exact h.ofType (inner ())
  | bad => exact h.bad
termination_by structural type

theorem ofArguments (h : ReadingClosed scope P) (fields : List Field) :
    P (resolveArguments scope fields) := by
  match fields with
  | [] => exact h.pure _
  | ⟨names, type, _, _⟩ :: rest =>
    exact h.bind (h.ofType (type ())) fun _ => h.bind (h.ofArguments rest) fun _ =>
      h.pure _
termination_by structural fields

theorem ofFields (h : ReadingClosed scope P) (ty : TypeId) (fields : List Field) :
    P (resolveFields scope ty fields) := by
  match fields with
  | [] => exact h.pure _
  | ⟨names, type, tag, doc⟩ :: rest =>
    exact h.bind (h.ofType (type ())) fun _ => h.bind (h.tag tag) fun _ =>
      h.bind (h.addFields ty _) fun _ => h.ofFields ty rest
termination_by structural fields

end

theorem ofMethod (h : ReadingClosed scope P) (name : String) (doc : Doc)
    (receiver : Option Argument) (params results : List Field) :
    P (resolveMethod scope name doc receiver params results) :=
  h.bind (h.ofArguments params) fun _ => h.bind (h.ofArguments results) fun _ =>
    h.addType _

end ReadingClosed

end GoPackages
