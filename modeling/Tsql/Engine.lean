import Tsql.Batch.Basic
import Tsql.Completion.Detect
import Tsql.Function.Builtin
import Tsql.Settings.Reader
import Tsql.Types.Check
import Tsql.Wire.Catalog

/-!
The engine answers requests on buffers. Each request brings the whole text of a buffer. All that the
engine keeps are the temporary tables of the open buffers, and each request on a buffer makes them
anew from its text.
-/

namespace Tsql

structure Engine where
  settings : Settings
  source : Option MetadataSource := none
  functions : FunctionRegistry := .builtin
  temps : TempStore := {}

inductive EngineError
  | settings (e : SettingsError)
  | catalog (e : CatalogError)

def EngineError.message : EngineError → String
  | settings e => "Configuration error: " ++ e.message
  | catalog e => "Catalog error: " ++ e.message

namespace Engine

/-- An engine with a source of metadata; a catalog in the settings is ignored. -/
def withSource (settings : Settings) (source : MetadataSource) : Except EngineError Engine :=
  let s := { settings with catalogPath := none }
  match s.fault? false with
  | some e => .error (.settings e)
  | none => .ok { settings := s, source := some source }

/-- The source that settings name, when they have no fault. -/
def sourceOf {m : Type → Type} [Monad m] (host : Host m) (s : Settings) :
    m (Except CatalogError (Option MetadataSource)) := do
  match s.catalogPath with
  | none => return .ok none
  | some path =>
    match ← host.readFile path with
    | .ok text => return (Catalog.ofText text).map fun c => some c.source
    | .error e => return .error (.unreadable path e.message)

/-- An engine with the catalog that the settings name, if they do. -/
def ofSettings {m : Type → Type} [Monad m] (host : Host m) (s : Settings) :
    m (Except EngineError Engine) := do
  match s.fault? (← s.hasCatalog host) with
  | some e => return .error (.settings e)
  | none =>
    match ← sourceOf host s with
    | .ok source => return .ok { settings := s, source := source }
    | .error e => return .error (.catalog e)

def resolver (e : Engine) : Resolver where
  source := if e.settings.resolvesColumns then e.source else none
  connection := e.settings.connection
  maxDepth := e.settings.maxDepth

def detector (e : Engine) : Detector :=
  ⟨e.resolver, e.functions⟩

def parse (e : Engine) (source : String) : Buffer :=
  .parse source e.settings.database

/-- The completion context in a buffer, which is open afterwards. -/
def detect (e : Engine) (buffer : Nat) (source : String) (p : Position) :
    CompletionContext × Engine :=
  let b := e.parse source
  let (temps, store) := e.temps.refresh buffer e.resolver b.statements
  (e.detector.detectIn source b temps p, { e with temps := store })

/-- Closes a buffer, and whether it was open. -/
def close (e : Engine) (buffer : Nat) : Bool × Engine :=
  ((e.temps.get? buffer).isSome, { e with temps := e.temps.erase buffer })

def openCount (e : Engine) : Nat :=
  e.temps.size

def diagnostics (e : Engine) (source : String) : List Issue :=
  let b := e.parse source
  Diagnostics.ofBuffer (.ofStatements e.resolver b.statements) b.statements

def checkAggregate (e : Engine) (function : String) (argument : Operand) : Verdict :=
  Tsql.checkAggregate e.functions function argument

end Engine

end Tsql
