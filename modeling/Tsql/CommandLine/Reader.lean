import Tsql.CommandLine.Basic

/-!
Reading a command line, one argument after the other.

Options may stand before the command and behind it, before operands and behind them. Two hyphens end
the options. The first argument that makes no sense, or that asks for help, ends the reading.

A value that is an argument of its own is looked at when the next option or operand of the same
place comes, or the end. So a command is read before the last value that stands before it, and a
command that asks for help is helped whatever that value is.
-/

namespace Tsql.CommandLine

/-- An argument, where options are allowed. -/
inductive Argument
  | endOfOptions
  | long (name : String) (value : Option String)
  | short (flag : Char)
  | plain
  deriving DecidableEq, Repr

namespace Argument

def ofText : List Char → Argument
  | ['-', '-'] => endOfOptions
  | '-' :: '-' :: cs =>
    let name := String.ofList (cs.takeWhile (· ≠ '='))
    match cs.dropWhile (· ≠ '=') with
    | [] => long name none
    | _ :: value => long name (some (String.ofList value))
  | '-' :: flag :: _ => short flag
  | _ => plain

end Argument

/-- Where the next argument stands. -/
inductive Place
  | beforeCommand
  | inCommand (t : Topic)
  /-- Behind the command that shows help, with the names it has been given. -/
  | inHelp (names : List String)
  deriving DecidableEq, Repr

/-- An option, and its value once that has come. -/
structure Pending where
  option : ValueOption
  value : Option String := none
  deriving DecidableEq, Repr

/-- What has been read at one place. -/
structure Level where
  options : Options := {}
  line : Option Nat := none
  col : Option Nat := none
  /-- The last option, while its value has not been looked at. -/
  pending : Option Pending := none
  deriving DecidableEq, Repr

namespace Level

/-- The value of an option, once. -/
def once {α : Type} (option : ValueOption) (old : Option α) (value : α) :
    Except Stop (Option α) :=
  match old with
  | none => .ok (some value)
  | some _ => .error (.usage (.repeatedOption option.name))

/-- A path, which may not be empty. -/
def path (option text : String) : Except Stop String :=
  if text.isEmpty then .error (.usage (.invalidValue option text)) else .ok text

def number (option : ValueOption) (text : String) : Except Stop Nat :=
  match Text.readSize? text.toList with
  | some n => .ok n
  | none => .error (.usage (.invalidValue option.name text))

def setOption (l : Level) (option : ValueOption) (value : String) : Except Stop Level := do
  let o := l.options
  match option with
  | .config =>
    let v ← once option o.config (← path option.name value)
    return { l with options := { o with config := v } }
  | .catalog =>
    let v ← once option o.catalog (← path option.name value)
    return { l with options := { o with catalog := v } }
  | .database => return { l with options := { o with database := ← once option o.database value } }
  | .log => return { l with options := { o with log := ← once option o.log value } }
  | .line => return { l with line := ← once option l.line (← number option value) }
  | .col => return { l with col := ← once option l.col (← number option value) }

def setCompact (l : Level) : Except Stop Level :=
  if l.options.compact then .error (.usage (.repeatedOption "compact"))
  else .ok { l with options := { l.options with compact := true } }

/-- Looks at the value of the last option. -/
def settle (l : Level) : Except Stop Level :=
  match l.pending with
  | none => .ok l
  | some ⟨option, some value⟩ => { l with pending := none }.setOption option value
  | some ⟨option, none⟩ => .error (.usage (.missingValue option))

/-- The option whose value comes next. -/
def awaiting? (l : Level) : Option ValueOption :=
  (l.pending.filter fun p => p.value.isNone).map Pending.option

end Level

/-- What has been read. -/
structure State where
  place : Place := .beforeCommand
  /-- What stands before the command. -/
  before : Level := {}
  /-- What stands at the current place. -/
  here : Level := {}
  operands : List String := []
  isEnded : Bool := false

namespace State

def topic? (s : State) : Option Topic :=
  match s.place with
  | .inCommand t => some t
  | _ => none

def knownOption? (s : State) (name : String) : Option ValueOption :=
  (ValueOption.known s.topic?).find? fun o => o.name = name

/-- The state with the value of the last option looked at. -/
def settle (s : State) : Except Stop State :=
  return { s with here := ← s.here.settle }

def helpTopic (s : State) : HelpTopic :=
  match s.topic? with
  | some t => .command t
  | none => .program

def addOperand (s : State) (text : String) : Except Stop State :=
  match s.topic? with
  | none => .error (.usage (.unexpectedArgument text))
  | some t =>
    if t.operandNames.length ≤ s.operands.length && !t.isOpenEnded then
      .error (.usage (.unexpectedArgument text))
    else do
      let s ← s.settle
      let operand ← if t.takesFile then Level.path "FILE" text else .ok text
      return { s with operands := s.operands ++ [operand] }

/-- Takes an argument that is neither an option nor the value of one. -/
def addPlain (s : State) (text : String) : Except Stop State :=
  match s.place with
  | .beforeCommand =>
    if text = "help" then .ok { s with place := .inHelp [] }
    else
      match Topic.ofName? text with
      | some t => .ok { s with place := .inCommand t, before := s.here, here := {} }
      | none => .error (.usage (.unknownCommand text))
  | _ => s.addOperand text

def addLong (s : State) (name : String) (value : Option String) : Except Stop State :=
  match s.knownOption? name with
  | some o => do
    let s ← s.settle
    match value with
    | some v => return { s with here := ← s.here.setOption o v }
    | none => return { s with here := { s.here with pending := some { option := o } } }
  | none =>
    let hasVersion := s.topic?.isNone
    if name ≠ "help" ∧ name ≠ "compact" ∧ ¬(name = "version" ∧ hasVersion) then
      .error (.usage (.unexpectedArgument ("--" ++ name)))
    else if value.isSome then .error (.usage (.unexpectedValue name))
    else do
      let s ← s.settle
      if name = "help" then throw (.help s.helpTopic)
      else if name = "version" then throw .version
      else return { s with here := ← s.here.setCompact }

def addShort (s : State) (flag : Char) : Except Stop State := do
  let s ← s.settle
  if flag = 'h' then throw (.help s.helpTopic)
  else if flag = 'V' ∧ s.topic?.isNone then throw .version
  else throw (.usage (.unexpectedArgument (String.ofList ['-', flag])))

/-- Takes an argument that is neither an option nor a mark: the value that an option waits for, a
command or an operand. -/
def addWord (s : State) (text : String) : Except Stop State :=
  match s.here.awaiting? with
  | some o => .ok { s with here := { s.here with pending := some ⟨o, some text⟩ } }
  | none => s.addPlain text

/-- Takes the next argument. -/
def step (s : State) (text : String) : Except Stop State :=
  match s.place with
  | .inHelp names => .ok { s with place := .inHelp (names ++ [text]) }
  | _ =>
    if s.isEnded then s.addOperand text
    else
      match Argument.ofText text.toList with
      | .endOfOptions => .ok { s with isEnded := true }
      | .long name value => s.addLong name value
      | .short flag => s.addShort flag
      | .plain => s.addWord text

/-- The topic of a request for help. -/
def helpFor : List String → Stop
  | [] => .help .program
  | [name] =>
    if name = "help" then .help .help
    else
      match Topic.ofName? name with
      | some t => .help (.command t)
      | none => .usage (.unknownCommand name)
  | name :: more :: _ =>
    .usage (.unknownCommand (if name = "help" ∨ (Topic.ofName? name).isSome then more else name))

def needed {α : Type} (option : ValueOption) : Option α → Except Stop α
  | some a => .ok a
  | none => .error (.usage (.missingOption option))

/-- The command that has been read. -/
def command (s : State) (t : Topic) : Except Stop Command :=
  match t, s.operands with
  | .batches, [file] => .ok (.batches file)
  | .chunks, [file] => .ok (.chunks file)
  | .diagnostics, [file] => .ok (.diagnostics file)
  | .context, [file] => do
    return .context file (← needed .line s.here.line) (← needed .col s.here.col)
  | .check, [left, right] => .ok (.check left right)
  | .aggregate, [function, argument] => .ok (.aggregate function argument)
  | .branches, kind :: first :: more => .ok (.branches kind (first :: more))
  | _, given =>
    .error (.usage (.missingOperand ((t.operandNames[given.length]?).getD "FILE")))

/-- What all arguments come to. What stands behind a command is looked at first. -/
def finish (s : State) : Except Stop Invocation :=
  match s.place with
  | .inHelp names => .error (helpFor names)
  | .beforeCommand => do
    let _ ← s.settle
    throw (.usage .missingCommand)
  | .inCommand t => do
    let s ← s.settle
    let c ← s.command t
    return ⟨s.here.options.orElse (← s.before.settle).options, c⟩

end State

/-- Reads the arguments of a command line. -/
def read (args : List String) : Except Stop Invocation := do
  (← args.foldlM State.step {}).finish

end Tsql.CommandLine
