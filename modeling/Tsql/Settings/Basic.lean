import Tsql.Catalog.Basic
import Tsql.Host
import Tsql.Json.Fault
import Tsql.Scope.Tree
import Tsql.Text.Basic
import Tsql.Text.Class

/-!
Settings of the engine, and when they can be used.

A filter of log messages is a list of directives separated by commas. A directive is a level, or the
part of the program it is for, `target[span]=level`, where the span may also name a field, as in
`[span\x7bfield\x7d]`.
-/

namespace Tsql.LogFilter

inductive Fault
  | directive
  | level
  deriving DecidableEq, Repr

def Fault.message : Fault → String
  | directive => "invalid filter directive"
  | level =>
    "error parsing level filter: expected one of \"off\", \"error\", \"warn\", \"info\", " ++
      "\"debug\", \"trace\", or a number 0-5"

def levelNames : List String :=
  ["off", "error", "warn", "info", "debug", "trace"]

/-- A level by its name or number. -/
def isLevel (cs : List Char) : Bool :=
  (levelNames.any fun n => Text.sameFolded n.toList cs) || (Text.readSize? cs).any (· ≤ 5)

/-- The fault of what stands behind an equals sign. -/
def levelFault? (cs : List Char) : Option Fault :=
  if cs.isEmpty || isLevel cs then none else some .level

/-- The fault of what stands behind a span. -/
def tailFault? : List Char → Option Fault
  | [] => none
  | '=' :: level => levelFault? level
  | _ => some .directive

/-- The fault of a span behind its bracket, and of what follows the span. -/
def spanFault? (cs : List Char) : Option Fault :=
  match cs.dropWhile fun c => c ≠ ']' && c ≠ '\x7b' with
  | ']' :: rest => tailFault? rest
  | '\x7b' :: '\x7d' :: _ => some .directive
  | '\x7b' :: fields =>
    match fields.dropWhile (· ≠ '\x7d') with
    | '\x7d' :: ']' :: rest => tailFault? rest
    | _ => some .directive
  | _ => some .directive

def startsTarget (c : Char) : Bool :=
  Text.isAlphanumeric c || c = '-' || c = ':' || c = '_'

def directiveFault? (cs : List Char) : Option Fault :=
  match Text.trim cs with
  | [] => some .directive
  | '[' :: span => spanFault? span
  | c :: rest =>
    if startsTarget c then
      match rest.dropWhile fun c => c ≠ '=' && c ≠ '[' with
      | [] => none
      | '[' :: span => spanFault? span
      | _ :: level => levelFault? level
    else some .directive

/-- The first fault of a filter. -/
def fault? (filter : String) : Option Fault :=
  ((Text.split (· = ',') filter.toList).filter (!·.isEmpty)).findSome? directiveFault?

end Tsql.LogFilter

namespace Tsql

structure Settings where
  /-- The database that is active before the first `USE`. -/
  database : Option String := none
  /-- How deep queries may nest to be looked into. -/
  maxDepth : Nat := ScopeTree.defaultDepth
  /-- Whether real tables are looked up. -/
  resolvesColumns : Bool := true
  /-- The file with the catalog of real tables. -/
  catalogPath : Option String := none
  logFilter : String := "warn"
  deriving DecidableEq, Repr

inductive SettingsError
  | badDepth (depth : Nat)
  | missingCatalog (path : String)
  | emptyDatabase
  | badLogFilter (filter : String) (fault : LogFilter.Fault)
  | unreadable (path : String) (reason : FileError)
  | malformed (reason : Json.ReadError)

namespace Settings

/-- The greatest depth that can be set. -/
def depthLimit : Nat := 256

def connection (s : Settings) : Connection :=
  { database := s.database }

def logFault? (s : Settings) : Option SettingsError :=
  (LogFilter.fault? s.logFilter).map (.badLogFilter s.logFilter)

/-- What is wrong with settings first, given whether the catalog they name is a file. -/
def fault? (s : Settings) (hasCatalog : Bool) : Option SettingsError :=
  if s.maxDepth = 0 ∨ depthLimit < s.maxDepth then some (.badDepth s.maxDepth)
  else
    match s.catalogPath.filter fun _ => !hasCatalog with
    | some path => some (.missingCatalog path)
    | none =>
      if s.database.any fun d => (Text.trim d.toList).isEmpty then some .emptyDatabase
      else s.logFault?

/-- Whether the catalog that settings name is a file. -/
def hasCatalog {m : Type → Type} [Monad m] (s : Settings) (host : Host m) : m Bool :=
  match s.catalogPath with
  | none => return false
  | some path => host.isFile path

end Settings

end Tsql
