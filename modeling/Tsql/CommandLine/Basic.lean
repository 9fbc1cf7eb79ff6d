import Tsql.Settings.Reader

/-!
What a command line can ask for, and the texts that explain it.
-/

namespace Tsql.CommandLine

/-- Options that every command takes. -/
structure Options where
  config : Option String := none
  catalog : Option String := none
  database : Option String := none
  log : Option String := none
  /-- Whether JSON is written on one line. -/
  compact : Bool := false
  deriving DecidableEq, Repr

/-- The options given before a command and behind it; those behind it win. -/
def Options.orElse (behind before : Options) : Options where
  config := behind.config.or before.config
  catalog := behind.catalog.or before.catalog
  database := behind.database.or before.database
  log := behind.log.or before.log
  compact := behind.compact || before.compact

inductive Command
  | batches (file : String)
  | chunks (file : String)
  | context (file : String) (line col : Nat)
  | check (left right : String)
  | aggregate (function argument : String)
  | branches (kind : String) (branches : List String)
  | diagnostics (file : String)
  deriving DecidableEq, Repr

structure Invocation where
  options : Options
  command : Command
  deriving DecidableEq, Repr

/-- Commands by name. -/
inductive Topic
  | batches
  | chunks
  | context
  | check
  | aggregate
  | branches
  | diagnostics
  deriving DecidableEq, Repr

namespace Topic

def name : Topic → String
  | batches => "batches"
  | chunks => "chunks"
  | context => "context"
  | check => "check"
  | aggregate => "aggregate"
  | branches => "branches"
  | diagnostics => "diagnostics"

def all : List Topic :=
  [batches, chunks, context, check, aggregate, branches, diagnostics]

def ofName? (name : String) : Option Topic :=
  all.find? fun t => t.name = name

/-- Names of the operands of a command. -/
def operandNames : Topic → List String
  | check => ["LEFT", "RIGHT"]
  | aggregate => ["FUNCTION", "ARGUMENT"]
  | branches => ["KIND", "BRANCHES"]
  | _ => ["FILE"]

/-- Whether the last operand may be repeated. -/
def isOpenEnded : Topic → Bool
  | branches => true
  | _ => false

/-- Whether the first operand is the path of a file. -/
def takesFile : Topic → Bool
  | check => false
  | aggregate => false
  | branches => false
  | _ => true

end Topic

/-- What can be asked about instead of running a command. -/
inductive HelpTopic
  | program
  | command (t : Topic)
  /-- The command that shows help. -/
  | help
  deriving DecidableEq, Repr

/-- Options with a value. -/
inductive ValueOption
  | config
  | catalog
  | database
  | log
  | line
  | col
  deriving DecidableEq, Repr

namespace ValueOption

def name : ValueOption → String
  | config => "config"
  | catalog => "catalog"
  | database => "database"
  | log => "log"
  | line => "line"
  | col => "col"

def everywhere : List ValueOption :=
  [config, catalog, database, log]

/-- The options with a value that are known before a command or within one. -/
def known : Option Topic → List ValueOption
  | some .context => [line, col] ++ everywhere
  | _ => everywhere

end ValueOption

inductive UsageError
  | missingCommand
  | unknownCommand (name : String)
  | unexpectedArgument (text : String)
  | missingValue (option : ValueOption)
  | unexpectedValue (flag : String)
  | invalidValue (option text : String)
  | repeatedOption (option : String)
  | missingOption (option : ValueOption)
  | missingOperand (name : String)
  deriving DecidableEq, Repr

def UsageError.message : UsageError → String
  | missingCommand => "a command is missing"
  | unknownCommand name => "unrecognized command '" ++ name ++ "'"
  | unexpectedArgument text => "unexpected argument '" ++ text ++ "'"
  | missingValue o => "the option '--" ++ o.name ++ "' needs a value"
  | unexpectedValue flag => "the option '--" ++ flag ++ "' takes no value"
  | invalidValue o text => "invalid value '" ++ text ++ "' for '" ++ o ++ "'"
  | repeatedOption o => "the option '--" ++ o ++ "' is given twice"
  | missingOption o => "the option '--" ++ o.name ++ "' is missing"
  | missingOperand name => "the argument <" ++ name ++ "> is missing"

/-- What a command line comes to, if not to running a command. -/
inductive Stop
  | help (topic : HelpTopic)
  | version
  | usage (e : UsageError)
  deriving DecidableEq, Repr

/-! ### Help -/

def versionText : String := programName ++ " 0.1.0"

namespace Topic

def about : Topic → String
  | batches => "Split a file into GO batches with their active database"
  | chunks => "Parse a file into statement chunks"
  | context => "Detect the completion context at a cursor position"
  | check => "Compare two types; `NULL`, `cast:TYPE` and `?` are accepted"
  | aggregate => "Check the argument type of an aggregate call"
  | branches => "Check that CASE, COALESCE, IIF or NULLIF branches agree"
  | diagnostics => "Report structural issues of a file"

def operandHelp : Topic → List (String × String)
  | check => [("<LEFT>", ""), ("<RIGHT>", "")]
  | aggregate => [("<FUNCTION>", ""), ("<ARGUMENT>", "")]
  | branches => [("<KIND>", "CASE, COALESCE, ISNULL, IIF or NULLIF"), ("<BRANCHES>...", "")]
  | _ => [("<FILE>", "SQL file, `-` for stdin")]

def optionHelp : Topic → List (String × String)
  | context =>
    [("    --line <LINE>", "1-based line"), ("    --col <COL>", "1-based column, counted in characters")]
  | _ => []

end Topic

def commonOptionHelp : List (String × String) :=
  [("    --config <CONFIG>", "JSON configuration file"),
   ("    --catalog <CATALOG>", "JSON catalog used to resolve table columns"),
   ("    --database <DATABASE>", "Database in effect before the first USE"),
   ("    --log <LOG>", "Tracing filter used when RUST_LOG is unset"),
   ("    --compact", "Print single-line JSON"),
   ("-h, --help", "Print help")]

/-- Terms and their explanations in two columns. -/
def columns (rows : List (String × String)) : List String :=
  let width := rows.foldl (fun w r => max w r.1.length) 0
  rows.map fun (term, text) =>
    "  " ++ term ++ String.ofList (List.replicate (width - term.length) ' ') ++ "  " ++ text

/-- A help text: what a command does, how it is called, and its parts under their headings. -/
def layout (about usage : String) (parts : List (String × List (String × String))) : String :=
  "\n".intercalate <|
    [about, "", "Usage: " ++ programName ++ " " ++ usage] ++
      parts.flatMap fun (heading, rows) => ["", heading ++ ":"] ++ columns rows

namespace HelpTopic

def text : HelpTopic → String
  | program =>
    layout "Context-aware T-SQL intelligence from the command line" "[OPTIONS] <COMMAND>"
      [("Commands", (Topic.all.map fun t => (t.name, t.about)) ++
          [("help", "Print this message or the help of the given subcommand(s)")]),
       ("Options", commonOptionHelp ++ [("-V, --version", "Print version")])]
  | command t =>
    let required := t.optionHelp.map fun (option, _) => String.ofList (Text.trim option.toList)
    let operands := t.operandHelp.map Prod.fst
    layout t.about (" ".intercalate ([t.name, "[OPTIONS]"] ++ required ++ operands))
      [("Arguments", t.operandHelp), ("Options", t.optionHelp ++ commonOptionHelp)]
  | help =>
    layout "Print this message or the help of the given subcommand(s)" "help [COMMAND]..."
      [("Arguments", [("[COMMAND]...", "Print help for the subcommand(s)")])]

end HelpTopic

end Tsql.CommandLine
