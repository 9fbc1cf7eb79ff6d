import Tsql.Completion.Context
import Tsql.Text.Quoted

/-!
Scenarios: a text with a cursor in it, and what a completion context there has to be.

The mode and the qualifier are always compared, an absent qualifier included. Tables, columns and
the database are compared where the scenario states them: the tables as a list, the columns as
names that must be among those offered.
-/

namespace Tsql

structure Expectation where
  mode : String
  tableRef : Option String := none
  /-- Display names of the tables in scope, in order. -/
  tables : Option (List String) := none
  /-- Columns that must be offered. -/
  columns : Option (List String) := none
  database : Option String := none
  deriving DecidableEq, Repr

structure Scenario where
  description : String
  /-- The text, with a mark where the cursor is. -/
  marked : String
  expected : Expectation
  deriving DecidableEq, Repr

/-- The parts of a completion context that an expectation speaks of. -/
structure ContextSummary where
  mode : String
  tableRef : Option String := none
  tables : List String
  columns : List String
  database : Option String := none
  deriving DecidableEq, Repr

/-- Where a context differs from what was expected. -/
inductive Mismatch
  | mode (expected actual : String)
  | tableRef (expected actual : Option String)
  | tables (expected actual : List String)
  | missingColumn (name : String)
  | database (expected actual : Option String)
  deriving DecidableEq, Repr

def Mismatch.message : Mismatch → String
  | mode expected actual => "Mode mismatch: expected '" ++ expected ++ "', got '" ++ actual ++ "'"
  | tableRef expected actual =>
    "Table qualifier mismatch: expected " ++ Text.quotedOption expected ++ ", got " ++
      Text.quotedOption actual
  | tables expected actual =>
    "Tables in scope mismatch: expected " ++ Text.quotedList expected ++ ", got " ++
      Text.quotedList actual
  | missingColumn name => "Missing column: " ++ name
  | database expected actual =>
    "Database mismatch: expected " ++ Text.quotedOption expected ++ ", got " ++
      Text.quotedOption actual

def CompletionContext.summary (c : CompletionContext) : ContextSummary where
  mode := c.mode.code
  tableRef := c.tableRef
  tables := c.tableNames
  columns := c.columnNames
  database := c.database

namespace Expectation

def sameTableRef : Option String → Option String → Bool
  | some a, some b => Ident.same a b
  | none, none => true
  | _, _ => false

def sameTables : List String → List String → Bool
  | a :: as, b :: bs => Ident.same a b && sameTables as bs
  | [], [] => true
  | _, _ => false

/-- The tables expected, if they are not those there are. -/
def wrongTables? (e : Expectation) (actual : List String) : Option (List String) :=
  e.tables.filter fun names => !sameTables names actual

/-- The first expected column that is not offered. -/
def missingColumn? (e : Expectation) (actual : List String) : Option String :=
  e.columns.bind fun names => names.find? fun n => !actual.any fun a => Ident.same a n

/-- The first difference from what was expected, if there is one. -/
def mismatch? (e : Expectation) (actual : ContextSummary) : Option Mismatch :=
  if actual.mode ≠ e.mode then some (.mode e.mode actual.mode)
  else if !sameTableRef e.tableRef actual.tableRef then
    some (.tableRef e.tableRef actual.tableRef)
  else
    match e.wrongTables? actual.tables, e.missingColumn? actual.columns with
    | some names, _ => some (.tables names actual.tables)
    | none, some name => some (.missingColumn name)
    | none, none =>
      if e.database.isSome ∧ e.database ≠ actual.database then
        some (.database e.database actual.database)
      else none

end Expectation

end Tsql
