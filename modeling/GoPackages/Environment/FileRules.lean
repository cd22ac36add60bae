import GoPackages.Environment.Basic

/-!
Listeners given by rules on paths and by a limit on the number of files.
-/
namespace GoPackages

/-- What is done with paths that end in `suffix`: they are left out, or end the package. -/
structure FileRule where
  suffix : String
  abort : Option String := none
  deriving DecidableEq, Repr

def FileRule.matches (rule : FileRule) (path : String) : Bool :=
  rule.suffix.toList.isSuffixOf path.toList

/-- Of several rules that match a path the first applies. -/
structure FileRules where
  before : List FileRule := []
  after : List FileRule := []
  limit : Option Nat := none
  deriving DecidableEq, Repr

namespace FileRules

def isBefore : FileEvent → Bool
  | .before _ _ => true
  | .after _ _ _ => false

def isExhausted (rules : FileRules) (heard : List FileEvent) : Bool :=
  rules.limit.any fun limit => limit < heard.countP isBefore + 1

def actionFor (rules : FileRules) (path : String) : FileAction :=
  match rules.before.find? (·.matches path) with
  | none => .proceed
  | some rule =>
    match rule.abort with
    | some reason => .abort (.aborted reason)
    | none => .skip

def verdictOn (rules : FileRules) (path : String) : Except Error Unit :=
  match (rules.after.find? (·.matches path)).bind (·.abort) with
  | some reason => .error (.aborted reason)
  | none => .ok ()

def listener (rules : FileRules) : Listener where
  before heard _ path :=
    if rules.isExhausted heard then .abort (.aborted "limit") else rules.actionFor path
  after _ _ path _ := rules.verdictOn path

end FileRules

end GoPackages
