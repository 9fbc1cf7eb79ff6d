import Tsql.Statement.Basic

/-!
Modes of completion: what kind of word a cursor asks for.
-/

namespace Tsql

inductive CompletionMode
  | qualified
  | qualifiedBracket
  | select
  | filter
  | joinCondition
  | groupFilter
  | grouping
  | ordering
  | assignments
  | values
  | insertColumns
  | output
  | tables
  | keyword
  /-- Inside a literal or comment. -/
  | nothing
  /-- Behind a structural error. -/
  | error
  deriving DecidableEq, Repr

namespace CompletionMode

def code : CompletionMode → String
  | qualified => "qualified"
  | qualifiedBracket => "qualified_bracket"
  | select => "select"
  | filter => "where"
  | joinCondition => "on"
  | groupFilter => "having"
  | grouping => "group_by"
  | ordering => "order_by"
  | assignments => "set"
  | values => "values"
  | insertColumns => "insert_columns"
  | output => "output"
  | tables => "from"
  | keyword => "keyword"
  | nothing => "none"
  | error => "error"

/-- Whether nothing is offered. -/
def isTerminal : CompletionMode → Bool
  | nothing => true
  | error => true
  | _ => false

def offersColumns : CompletionMode → Bool
  | values => false
  | tables => false
  | keyword => false
  | nothing => false
  | error => false
  | _ => true

/-- Whether functions that give a single value are offered. -/
def offersFunctions : CompletionMode → Bool
  | select => true
  | filter => true
  | joinCondition => true
  | groupFilter => true
  | grouping => true
  | ordering => true
  | assignments => true
  | values => true
  | output => true
  | _ => false

/-- The mode in a clause, for a word without a qualifier. -/
def ofClause : Option Clause → CompletionMode
  | some .select => select
  | some .filter => filter
  | some .joinCondition => joinCondition
  | some .groupFilter => groupFilter
  | some .grouping => grouping
  | some .ordering => ordering
  | some .assignments => assignments
  | some .values => values
  | some .insertColumns => insertColumns
  | some .output => output
  | _ => keyword

end CompletionMode

end Tsql
