import GoPackages.Analysis.TypeRef

/-!
The type of a value that is declared without one, where it is evident from the shape of the
initializer: basic literals, truth values, the constant counter, composite literals and their
addresses. Any other initializer leaves the type open.
-/
namespace GoPackages

open Source (Expr LiteralKind UnaryOp)

def Source.LiteralKind.typeName : LiteralKind → String
  | .int => "int"
  | .float => "float64"
  | .imaginary => "complex128"
  | .rune => "rune"
  | .string => "string"

def Source.UnaryOp.keepsType : UnaryOp → Bool
  | .plus | .minus | .complement | .not => true
  | .dereference | .address | .receive => false

/-- The predeclared type of an identifier, where it has one. -/
def identTypeName? (name : String) : Option String :=
  if name = "true" ∨ name = "false" then some "bool"
  else if name = "iota" then some "int"
  else none

/-- The reference of the type of an initializer, where it is evident. -/
def inferType (scope : FileScope) : Expr → Analysis (Option RefId)
  | .literal kind _ => return some (← scope.resolveName kind.typeName)
  | .ident name =>
    match identTypeName? name with
    | some typeName => return some (← scope.resolveName typeName)
    | none => return none
  | .composite (some type) => return some (← resolveType scope (type ()))
  | .unary op operand =>
    if op = .address then do
      match ← inferType scope (operand ()) with
      | some r => return some (← Analysis.ofGraph (·.decorate .pointer r))
      | none => return none
    else if op.keepsType then inferType scope (operand ())
    else return none
  | .paren inner => inferType scope (inner ())
  | .composite none | .selector _ _ | .call _ | .other _ | .bad => return none

end GoPackages
