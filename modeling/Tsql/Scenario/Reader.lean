import Tsql.Scenario.Basic
import Tsql.Text.Basic

/-!
Reading scenarios from text, and writing them so that they can be read again.

A line of dashes separates scenarios. Within one, a line `name: value` with a known name starts a
field, and the lines up to the next field or separator continue its value. A scenario counts when
its description or its marked text has been given; fields before that carry over a separator.
-/

namespace Tsql.Scenario

inductive Field
  | description
  | marked
  | mode
  | tableRef
  | tables
  | columns
  | database
  deriving DecidableEq, Repr

namespace Field

def name : Field → String
  | description => "description"
  | marked => "input"
  | mode => "mode"
  | tableRef => "table_ref"
  | tables => "tables"
  | columns => "columns"
  | database => "database"

def all : List Field :=
  [description, marked, mode, tableRef, tables, columns, database]

def ofName? (name : List Char) : Option Field :=
  all.find? fun f => f.name.toList = name

end Field

inductive ReadError
  | missingField (field : Field) (line : Nat)
  | missingMark (line : Nat)
  | noScenario
  deriving DecidableEq, Repr

def ReadError.message : ReadError → String
  | missingField field line =>
    "Missing required field '" ++ field.name ++ "' in case ending at line " ++ toString line
  | missingMark line =>
    "Input of case ending at line " ++ toString line ++ " has no cursor marker"
  | noScenario => "Empty test case file"

/-- A line of a scenario file. -/
inductive Line
  | separator
  /-- The first line of a field, with the lines of its value that stand there: none or one. -/
  | field (f : Field) (value : List (List Char))
  | other (text : List Char)
  deriving DecidableEq, Repr

/-- A name and a value, if the text begins with the name of a field and a colon. -/
def fieldOf? (cs : List Char) : Option (Field × List Char) :=
  match cs.dropWhile (· ≠ ':') with
  | [] => none
  | _ :: value =>
    (Field.ofName? (Text.trim (cs.takeWhile (· ≠ ':')))).map fun f => (f, Text.trim value)

/-- A value is written behind the colon, or, for a bar alone, below. -/
def Line.ofText (cs : List Char) : Line :=
  let text := Text.trim cs
  if text = ['-', '-', '-'] then separator
  else
    match fieldOf? text with
    | none => other cs
    | some (f, value) => field f (if value = [] ∨ value = ['|'] then [] else [value])

/-- The lines of a text, without the carriage return that may stand before a line feed. A line feed
at the end of the text ends its last line. -/
def textLines (cs : List Char) : List (List Char) :=
  let ls := Text.lines cs
  let closed := ls.dropLast.map fun l => if l.getLast? = some '\r' then l.dropLast else l
  closed ++ ls.getLast?.toList.filter (!·.isEmpty)

/-- A separator with the number of its line, or a field with the lines of its value. -/
inductive Entry
  | separator (line : Nat)
  | field (f : Field) (value : List (List Char))
  deriving DecidableEq, Repr

/-- The lines that continue a value. -/
def continuation : List Line → List (List Char)
  | .other text :: ls => text :: continuation ls
  | _ => []

/-- The entries of a file whose first line has number `n`. Lines before the first field of a
scenario are comments. -/
def entries (n : Nat) : List Line → List Entry
  | [] => []
  | .separator :: ls => .separator n :: entries (n + 1) ls
  | .field f value :: ls => .field f (value ++ continuation ls) :: entries (n + 1) ls
  | .other _ :: ls => entries (n + 1) ls

/-- A value on one line. -/
def inline (value : List (List Char)) : List Char :=
  Text.trim (Text.joinWith [' '] value)

/-- The names between the commas. -/
def nameList (cs : List Char) : List String :=
  (((Text.split (· = ',') cs).map Text.trim).filter (!·.isEmpty)).map String.ofList

/-- The text behind the first `n` bytes, if a character ends there. -/
def dropSize? : Nat → List Char → Option (List Char)
  | 0, cs => some cs
  | _ + 1, [] => none
  | n + 1, c :: cs => if c.utf8Size ≤ n + 1 then dropSize? (n + 1 - c.utf8Size) cs else none

/-- The smallest indentation, in bytes, of the lines that are not blank. -/
def indentation (value : List (List Char)) : Nat :=
  ((value.filter fun l => !(Text.trim l).isEmpty).map fun l =>
    Text.size (Text.leadingBlanks l)).min?.getD 0

/-- A value of several lines, without the indentation they share. A line that does not reach so far
loses its leading blanks. -/
def dedented (value : List (List Char)) : List Char :=
  Text.trim (Text.joinLines (value.map fun l =>
    (dropSize? (indentation value) l).getD (Text.trimStart l)))

/-- The fields of a scenario that have been read. -/
structure Draft where
  description : Option String := none
  marked : Option (List Char) := none
  mode : Option String := none
  tableRef : Option String := none
  tables : Option (List String) := none
  columns : Option (List String) := none
  database : Option String := none

namespace Draft

def isStarted (d : Draft) : Bool :=
  d.description.isSome || d.marked.isSome

def nonempty? (cs : List Char) : Option String :=
  if cs.isEmpty then none else some (String.ofList cs)

/-- The draft with the value of a field; the last value counts. -/
def set (d : Draft) (f : Field) (value : List (List Char)) : Draft :=
  match f with
  | .description => { d with description := some (String.ofList (inline value)) }
  | .marked => { d with marked := some (dedented value) }
  | .mode => { d with mode := some (String.ofList (inline value)) }
  | .tableRef => { d with tableRef := nonempty? (inline value) }
  | .tables => { d with tables := some (nameList (inline value)) }
  | .columns => { d with columns := some (nameList (inline value)) }
  | .database => { d with database := nonempty? (inline value) }

/-- The scenario that ends at a line. -/
def scenario (d : Draft) (line : Nat) : Except ReadError Scenario :=
  match d.description, d.marked with
  | none, _ => .error (.missingField .description line)
  | some _, none => .error (.missingField .marked line)
  | some description, some marked =>
    if '|' ∉ marked then .error (.missingMark line)
    else
      match d.mode with
      | none => .error (.missingField .mode line)
      | some mode =>
        .ok ⟨description, String.ofList marked,
          ⟨mode, d.tableRef, d.tables, d.columns, d.database⟩⟩

end Draft

/-- The scenarios of the entries, of which the first has been read into `d`; the file has `last`
lines. -/
def ofEntries (last : Nat) (d : Draft) : List Entry → Except ReadError (List Scenario)
  | [] => if d.isStarted then (d.scenario last).map fun s => [s] else .ok []
  | .separator line :: es =>
    if d.isStarted then do
      let s ← d.scenario line
      let ss ← ofEntries last {} es
      return s :: ss
    else ofEntries last d es
  | .field f value :: es => ofEntries last (d.set f value) es

/-- Reads the scenarios of a file, of which there must be one at least. -/
def read (source : String) : Except ReadError (List Scenario) := do
  let ls := (textLines source.toList).map Line.ofText
  let ss ← ofEntries ls.length {} (entries 1 ls)
  if ss.isEmpty then throw .noScenario else return ss

/-! ### Writing -/

/-- A field on one line. -/
def fieldLine (f : Field) (value : List Char) : List Char :=
  f.name.toList ++ [':', ' '] ++ value

def namesText (names : List String) : List Char :=
  Text.joinWith [',', ' '] (names.map String.toList)

/-- The lines of a scenario, the separator before it included. -/
def toLines (s : Scenario) : List (List Char) :=
  let e := s.expected
  [['-', '-', '-'], fieldLine .description s.description.toList, fieldLine .marked ['|']] ++
    (Text.lines s.marked.toList).map (fun l => ' ' :: ' ' :: l) ++
    [fieldLine .mode e.mode.toList] ++
    (e.tableRef.map fun t => fieldLine .tableRef t.toList).toList ++
    (e.tables.map fun ts => fieldLine .tables (namesText ts)).toList ++
    (e.columns.map fun cs => fieldLine .columns (namesText cs)).toList ++
    (e.database.map fun d => fieldLine .database d.toList).toList

/-- The text of scenarios, each with the blank lines behind it. -/
def render (ss : List (Scenario × List (List Char))) : String :=
  String.ofList <| Text.joinLines <| ss.flatMap fun (s, gap) => s.toLines ++ gap

end Tsql.Scenario
