import Tsql.Json.Record
import Tsql.Json.Parser
import Tsql.Settings.Basic

/-!
Reading settings from JSON. Missing fields keep their defaults and unknown ones are ignored. A
client sends its settings with the section of each program under the program's name; a file may hold
the section alone.
-/

namespace Tsql

/-- The name of the program, under which settings of a client have its section. -/
def programName : String := "sqlsense"

def SettingsError.message : SettingsError → String
  | badDepth depth =>
    "max_scope_depth must be between 1 and " ++ toString Settings.depthLimit ++ ", got " ++
      toString depth
  | missingCatalog path => "Catalog file not found: " ++ path
  | emptyDatabase => "Default database must not be empty"
  | badLogFilter filter fault => "Invalid log filter '" ++ filter ++ "': " ++ fault.message
  | unreadable path reason => "Failed to read config file '" ++ path ++ "': " ++ reason.message
  | malformed reason => "Invalid settings: " ++ reason.message

namespace Settings

/-- The fields of a section in their order, with what their values do to the settings. -/
def fields : List (String × (Settings → Json → Except Json.Cause Settings)) :=
  [("defaultDatabase", fun s j => do
      return { s with database := ← Json.orNull Json.asString j }),
   ("maxScopeDepth", fun s j => do return { s with maxDepth := ← Json.asSize j }),
   ("resolveColumns", fun s j => do return { s with resolvesColumns := ← Json.asBool j }),
   ("catalogPath", fun s j => do
      return { s with catalogPath := ← Json.orNull (Json.asText "path string") j }),
   ("logFilter", fun s j => do return { s with logFilter := ← Json.asString j })]

/-- The settings that values give, one after the other. -/
def ofValues (values : List (String × Json)) : Except Json.Cause Settings :=
  values.foldlM (fun s (name, j) =>
    match fields.lookup name with
    | some put => put s j
    | none => return s) {}

/-- The settings in a section: an object, of whose fields with one name the last counts, looked at
in the order of the names; or the values in the order of the fields. -/
def decode : Json → Except Json.Cause Settings
  | .obj values =>
    ofValues ((Json.lastOfEachName values).mergeSort fun a b => decide (a.1 ≤ b.1))
  | .arr values => do
    let s ← ofValues ((fields.map Prod.fst).zip values)
    if fields.length < values.length then
      throw (.wrongLength values.length "fewer elements in array")
    return s
  | j => j.wrongType "struct EngineConfig"

def ofJson (j : Json) : Except SettingsError Settings :=
  (decode j).mapError fun cause => .malformed { cause := cause }

/-- The settings in what a client sends, if it has the section. -/
def ofPayload? (payload : Json) : Option (Except SettingsError Settings) :=
  (payload.get? programName).map ofJson

/-- The settings that a file holds. Its catalog, if not an absolute path, is in the same directory
as the file. -/
def ofText (path text : String) : Except SettingsError Settings := do
  let j ← (Json.parse text).mapError SettingsError.malformed
  let s ← (ofPayload? j).getD (ofJson j)
  return { s with catalogPath := s.catalogPath.map (Path.within (Path.directory path)) }

def load {m : Type → Type} [Monad m] (host : Host m) (path : String) :
    m (Except SettingsError Settings) := do
  match ← host.readFile path with
  | .ok text => return ofText path text
  | .error e => return .error (.unreadable path e)

end Settings

end Tsql
