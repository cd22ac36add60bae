import GoPackages.Analysis.Scope
import GoPackages.Registry.Builtin

/-!
A session: the registry, the collaborators that find and read packages, and the history of what
they were asked. A listener decides from the file events it was told about, so its answers are
determined by the history and nothing else.
-/
namespace GoPackages

/-- Finds packages by import path, seen from a directory, or by their own directory. -/
structure Locator where
  locate : String → String → Except Error PackageInfo
  locateDir : String → Except Error PackageInfo

abbrev SourceParser := String → Except Error Source.SourceFile

/-- What is done with a file. Skipping it does not keep its package from being explored. -/
inductive FileAction where
  | proceed
  | skip
  | abort (e : Error)
  deriving DecidableEq, Repr

/-- What a listener is told: the package as it is at that moment, and the file. -/
inductive FileEvent where
  | before (package : Package) (path : String)
  | after (package : Package) (path : String) (outcome : Except Error Unit)

/-- Watches over the files of packages. Both decisions see the earlier events, latest first. -/
structure Listener where
  before : List FileEvent → Package → String → FileAction
  /-- A failure here ends the package in place of the outcome of the file. -/
  after : List FileEvent → Package → String → Except Error Unit → Except Error Unit

inductive Event where
  | locate (importPath fromDir : String)
  | locateDir (dir : String)
  | parse (package : PackageId) (path : String)
  | file (package : PackageId) (event : FileEvent)

structure Environment where
  registry : Registry
  builtin : Option PackageId
  importRoot : String
  locator : Locator
  parser : SourceParser
  tagDecoder : TagDecoder
  listener : Option Listener
  /-- What the present listener was told, latest first. -/
  heard : List FileEvent
  /-- All requests in order. -/
  log : Array Event

/-- Why a session stops: a failure, or imports nested deeper than was allowed. -/
inductive Stop where
  | failed (e : Error)
  | tooDeep
  deriving DecidableEq, Repr

/-- A step of a session: it changes the environment, also when it stops. -/
abbrev Session := EStateM Stop Environment

namespace Environment

/-- A new session; without a directory of its own it resolves imports from the current one. -/
def new (currentDir : Option String) (locator : Locator) (parser : SourceParser) : Environment where
  registry := .new
  builtin := Registry.new.builtin?
  importRoot := currentDir.getD "."
  locator
  parser
  tagDecoder := StructTag.decode
  listener := none
  heard := []
  log := #[]

/-- A new listener has heard nothing. -/
def setListener (env : Environment) (listener : Listener) : Environment :=
  { env with listener := some listener, heard := [] }

def setTagDecoder (env : Environment) (tagDecoder : TagDecoder) : Environment :=
  { env with tagDecoder }

end Environment

namespace Session

def fail {α : Type} (e : Error) : Session α := throw (.failed e)

def ofExcept {α : Type} : Except Error α → Session α
  | .ok a => pure a
  | .error e => fail e

def analyze {α : Type} (step : Analysis α) : Session α := fun env =>
  match step env.registry with
  | .ok a registry => .ok a { env with registry }
  | .error e registry => .error (.failed e) { env with registry }

/-- Runs a step and keeps its failure as an answer. Nesting too deep is not a failure of a file and
still stops the session. -/
def attempt {α : Type} (step : Session α) : Session (Except Error α) := fun env =>
  match step env with
  | .ok a env => .ok (.ok a) env
  | .error (.failed e) env => .ok (.error e) env
  | .error .tooDeep env => .error .tooDeep env

def record (event : Event) : Session Unit :=
  modify fun env => { env with log := env.log.push event }

def package? (pkg : PackageId) : Session (Option Package) := do
  return (← get).registry.package? pkg

def append (p : Package) : Session PackageId := do
  let env ← get
  let (id, registry) ← ofExcept (env.registry.append p)
  set { env with registry }
  return id

/-- The package that was located, registered at first sight. -/
def ensurePackage (info : PackageInfo) : Session PackageId := do
  let env ← get
  let (id, registry) ← ofExcept (env.registry.ensurePackage info)
  set { env with registry }
  return id

def locate (importPath : String) : Session PackageInfo := do
  let env ← get
  record (.locate importPath env.importRoot)
  ofExcept (env.locator.locate importPath env.importRoot)

def locateDir (dir : String) : Session PackageInfo := do
  let env ← get
  record (.locateDir dir)
  ofExcept (env.locator.locateDir dir)

def parse (pkg : PackageId) (path : String) : Session Source.SourceFile := do
  let env ← get
  record (.parse pkg path)
  ofExcept (env.parser path)

def tell (pkg : PackageId) (event : FileEvent) : Session Unit :=
  modify fun env =>
    { env with heard := event :: env.heard, log := env.log.push (.file pkg event) }

end Session

end GoPackages
