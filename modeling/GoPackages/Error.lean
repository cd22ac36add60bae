import GoPackages.StructTag.Decode

/-!
Every failure that a session reports, as its cause, and the one place where causes are worded.
-/
namespace GoPackages

inductive Unsupported where
  | recursiveAlias
  | embeddedInterface
  | constraintUnion
  deriving DecidableEq, Repr

def Unsupported.message : Unsupported → String
  | .recursiveAlias => "recursive type alias"
  | .embeddedInterface => "embedded interfaces"
  | .constraintUnion => "type constraint unions"

inductive LocateFailure where
  | notDirectory (dir : String)
  | notListed (reason : String)
  | noSourceFiles (dir : String)
  | noPackageClause (file : String)
  | notInRoots (count : Nat)
  /-- The reason that a locator of another kind gives. -/
  | other (reason : String)
  deriving DecidableEq, Repr

def LocateFailure.message : LocateFailure → String
  | .notDirectory dir => dir ++ " is not a directory"
  | .notListed reason => reason
  | .noSourceFiles dir => "no Go files in " ++ dir
  | .noPackageClause file => "no package clause in " ++ file
  | .notInRoots count => "not found in any of " ++ toString count ++ " source roots"
  | .other reason => reason

/-- Why a session could not go on. The first failure ends the analysis of its file. -/
inductive Error where
  | typeNotFound (name : String)
  | builtinNotFound
  | aliasNotFound (name : String)
  | unexpectedSelector (name : String)
  | badTypeExpression
  | unsupported (what : Unsupported)
  | tag (raw : String) (cause : TagError)
  | locate (importPath : String) (reason : LocateFailure)
  | duplicatePackage (importPath : String)
  | fileNotFound (path : String)
  | fileRead (path reason : String)
  | aborted (reason : String)
  deriving DecidableEq, Repr

def Error.message : Error → String
  | .typeNotFound name => "type not found: " ++ name
  | .builtinNotFound => "builtin package not found"
  | .aliasNotFound name => "package alias not found: " ++ name
  | .unexpectedSelector name => "unexpected selector identifier in (...)." ++ name
  | .badTypeExpression => "unexpected expression type: bad type expression"
  | .unsupported what => "unsupported: " ++ what.message
  | .tag raw cause => "invalid tag `" ++ raw ++ "`: " ++ cause.message
  | .locate importPath reason => "cannot find package \"" ++ importPath ++ "\": " ++ reason.message
  | .duplicatePackage importPath => "package \"" ++ importPath ++ "\" is already registered"
  | .fileNotFound path => "file not found: " ++ path
  | .fileRead path reason => "cannot read " ++ path ++ ": " ++ reason
  | .aborted reason => reason

inductive ReadFailure where
  | notFound
  | failed (reason : String)
  deriving DecidableEq, Repr

def Error.ofRead (path : String) : ReadFailure → Error
  | .notFound => .fileNotFound path
  | .failed reason => .fileRead path reason

end GoPackages
