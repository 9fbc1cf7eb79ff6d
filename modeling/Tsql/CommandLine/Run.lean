import Tsql.CommandLine.Basic
import Tsql.CommandLine.Reader
import Tsql.Engine
import Tsql.Json.Printer
import Tsql.Wire.Buffer
import Tsql.Wire.Completion
import Tsql.Wire.Verdict

/-!
Running a command line: the answer is JSON, on one line or on many.
-/

namespace Tsql

/-- An operand of a check as it is typed on a command line. -/
def Operand.ofText (text : String) : Operand :=
  if Ident.sameWord text "null" then { isNull := true }
  else if text = "?" then {}
  else
    let cs := text.toList
    match cs.dropWhile (· ≠ ':') with
    | [] => { typeName := some text }
    | _ :: typeName =>
      if Text.sameFolded (cs.takeWhile (· ≠ ':')) ['c', 'a', 's', 't'] then
        { typeName := some (String.ofList typeName), isCast := true }
      else { typeName := some text }

namespace CommandLine

inductive RunError
  | settings (e : SettingsError)
  | engine (e : EngineError)
  | unreadable (what : String) (reason : FileError)
  | unknownConditional (name : String)

def RunError.message : RunError → String
  | settings e => e.message
  | engine e => e.message
  | unreadable what _ => "failed to read " ++ what
  | unknownConditional name => "unknown conditional '" ++ name ++ "'"

/-- The cause of an error, where the message does not tell it. -/
def RunError.cause? : RunError → Option String
  | unreadable _ reason => some reason.message
  | _ => none

/-- Settings with what the command line says instead. -/
def Options.override (o : Options) (s : Settings) : Settings :=
  { s with
    catalogPath := o.catalog.or s.catalogPath
    database := o.database.or s.database
    logFilter := o.log.getD s.logFilter }

section Running

variable {m : Type → Type} [Monad m]

def settings (host : Host m) (o : Options) : m (Except SettingsError Settings) := do
  match o.config with
  | none => return .ok (o.override {})
  | some path => return (← Settings.load host path).map o.override

/-- The engine that the options ask for. The log filter is checked before all else. -/
def engine (host : Host m) (o : Options) : ExceptT RunError m Engine := do
  let s ← ExceptT.mk ((Except.mapError .settings) <$> settings host o)
  match s.logFault? with
  | some e => throw (.engine (.settings e))
  | none => ExceptT.mk ((Except.mapError .engine) <$> Engine.ofSettings host s)

def source (host : Host m) (path : String) : ExceptT RunError m String :=
  let what := if Path.names path = ["-"] then "stdin" else path
  ExceptT.mk ((Except.mapError (.unreadable what)) <$> host.readSource path)

/-- The answer of an engine to a command. -/
def answer (host : Host m) (e : Engine) : Command → ExceptT RunError m Json
  | .batches file => do return Batch.sourceToJson (← source host file) e.settings.database
  | .chunks file => do return (e.parse (← source host file)).toJson
  | .context file line col => do return (e.detect 0 (← source host file) ⟨line, col⟩).1.toJson
  | .check left right => return (checkOperands (.ofText left) (.ofText right)).toJson
  | .aggregate function argument => return (e.checkAggregate function (.ofText argument)).toJson
  | .branches kind branches =>
    match BranchKind.ofFunction? kind with
    | some k => return (checkBranches k (branches.map .ofText)).toJson
    | none => throw (.unknownConditional kind)
  | .diagnostics file => do return .ofList Issue.toJson (e.diagnostics (← source host file))

def run (host : Host m) (i : Invocation) : m (Except RunError Json) :=
  ExceptT.run do answer host (← engine host i.options) i.command

/-- What a program leaves behind. -/
structure Reply where
  exitCode : UInt32
  output : String := ""
  errors : String := ""

def Stop.reply : Stop → Reply
  | help topic => { exitCode := 0, output := topic.text ++ "\n" }
  | version => { exitCode := 0, output := versionText ++ "\n" }
  | usage e =>
    { exitCode := 2
      errors := "error: " ++ e.message ++ "\n\nFor more information, try '--help'.\n" }

def RunError.reply (e : RunError) : Reply :=
  let cause := e.cause?.elim "" fun c => "\n\nCaused by:\n    " ++ c
  { exitCode := 1, errors := "Error: " ++ e.message ++ cause ++ "\n" }

/-- Reads the arguments of a command line and does what they say. -/
def reply (host : Host m) (args : List String) : m Reply := do
  match read args with
  | .error stop => return stop.reply
  | .ok i =>
    match ← run host i with
    | .error e => return e.reply
    | .ok j =>
      return { exitCode := 0, output := (if i.options.compact then j.compact else j.pretty) ++ "\n" }

end Running

end CommandLine

end Tsql
