import Tsql.Completion.Keyword
import Tsql.Completion.Word

/-!
What a completion provider needs to know at a cursor.
-/

namespace Tsql

structure CompletionContext where
  mode : CompletionMode
  /-- The word typed so far. -/
  typed : String
  /-- The character before the word. -/
  trigger : Option Char
  /-- The name before the dot: an alias or table, or a schema where tables are offered. -/
  tableRef : Option String := none
  /-- The clause at the cursor. -/
  clause : Option Clause := none
  /-- The tables visible at the cursor, with their columns. -/
  tables : List TableRef := []
  /-- Names of the visible common table expressions. -/
  ctes : List String := []
  /-- The temporary tables that are alive at the cursor. -/
  temps : List TempTable := []
  /-- The statement at the cursor; none between statements. -/
  statement : Option Statement := none
  keywords : List KeywordOffer := []
  columns : List ColumnRef := []
  functions : List String := []
  /-- The active database at the cursor. -/
  database : Option String := none

namespace CompletionContext

/-- The context of which nothing is known but the word. -/
def ofWord (mode : CompletionMode) (word : CursorWord) : CompletionContext :=
  { mode := mode, typed := word.typed, trigger := word.trigger }

def tableNames (c : CompletionContext) : List String :=
  c.tables.map TableRef.displayName

def columnNames (c : CompletionContext) : List String :=
  c.columns.map ColumnRef.name

/-- The aliases of the visible tables with the names of the tables. -/
def aliases (c : CompletionContext) : List (String × String) :=
  c.tables.filterMap fun t => t.aliasName.map fun a => (a, t.name)

end CompletionContext

end Tsql
