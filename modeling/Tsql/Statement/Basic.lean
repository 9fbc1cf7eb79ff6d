import Tsql.Ident
import Tsql.Position

/-!
A statement as what completion needs of it: the tables, columns, common table expressions and
subqueries it names, and where its clauses stand. There is no syntax tree, so half-typed SQL has a
statement too.

The statements nested in a statement are the bodies of its common table expressions and of its
subqueries. `Statement.all` lists a statement with everything nested in it, at any depth, and
`Statement.induction` is the induction that goes with it.

Parsing goes on after each anomaly that is found in a statement.
-/

namespace Tsql

/-! ### Anomalies -/

inductive Severity
  | error
  | warning
  deriving DecidableEq, Repr

/-- What is wrong. -/
inductive Anomaly
  | duplicateFrom
  | aliasWithoutTable
  | aliasWithoutExpression
  | cteWithoutBody (name : String)
  | derivedTableWithoutAlias
  | unbalancedParentheses
  | recursiveCteWithoutUnionAll (name : String)
  | cteForwardReference (name later : String)
  | tempTableNotInScope (name : String)
  deriving DecidableEq, Repr

namespace Anomaly

/-- An error is structural: nothing can be completed behind it. A warning is a best guess. -/
def severity : Anomaly → Severity
  | duplicateFrom => .error
  | aliasWithoutTable => .error
  | aliasWithoutExpression => .error
  | cteWithoutBody _ => .error
  | derivedTableWithoutAlias => .error
  | unbalancedParentheses => .warning
  | recursiveCteWithoutUnionAll _ => .warning
  | cteForwardReference _ _ => .warning
  | tempTableNotInScope _ => .warning

def code : Anomaly → String
  | duplicateFrom => "duplicate_from"
  | aliasWithoutTable => "as_without_expression"
  | aliasWithoutExpression => "as_without_expression"
  | cteWithoutBody _ => "cte_without_body"
  | derivedTableWithoutAlias => "derived_table_without_alias"
  | unbalancedParentheses => "unbalanced_parentheses"
  | recursiveCteWithoutUnionAll _ => "recursive_cte_without_union_all"
  | cteForwardReference _ _ => "cte_forward_reference"
  | tempTableNotInScope _ => "temp_table_not_in_scope"

def message : Anomaly → String
  | duplicateFrom => "duplicate FROM clause"
  | aliasWithoutTable => "AS without a preceding table"
  | aliasWithoutExpression => "AS without a preceding expression"
  | cteWithoutBody name => "CTE '" ++ name ++ "' has no query body"
  | derivedTableWithoutAlias => "derived table requires an alias"
  | unbalancedParentheses => "unbalanced parentheses"
  | recursiveCteWithoutUnionAll name =>
    "recursive CTE '" ++ name ++ "' should combine its members with UNION ALL"
  | cteForwardReference name later =>
    "CTE '" ++ name ++ "' references '" ++ later ++ "', which is declared after it"
  | tempTableNotInScope name => "temp table '" ++ name ++ "' is not visible here"

end Anomaly

structure Issue where
  anomaly : Anomaly
  range : Range
  deriving DecidableEq, Repr

def Issue.isError (i : Issue) : Bool :=
  i.anomaly.severity = .error

/-! ### Statements -/

inductive StatementKind
  | select
  | insert
  | update
  | delete
  | merge
  | createTable
  | createView
  | createProcedure
  | createFunction
  | alter
  | drop
  | truncate
  | declare
  | set
  | exec
  | use
  | unknown
  deriving DecidableEq, Repr

namespace StatementKind

/-- Whether the statement changes a target table. -/
def isDml : StatementKind → Bool
  | insert => true
  | update => true
  | delete => true
  | merge => true
  | _ => false

/-- The kind as SQL writes it. -/
def sqlName : StatementKind → String
  | select => "SELECT"
  | insert => "INSERT"
  | update => "UPDATE"
  | delete => "DELETE"
  | merge => "MERGE"
  | createTable => "CREATE TABLE"
  | createView => "CREATE VIEW"
  | createProcedure => "CREATE PROCEDURE"
  | createFunction => "CREATE FUNCTION"
  | alter => "ALTER"
  | drop => "DROP"
  | truncate => "TRUNCATE"
  | declare => "DECLARE"
  | set => "SET"
  | exec => "EXEC"
  | use => "USE"
  | unknown => "UNKNOWN"

end StatementKind

/-- The parts of a statement whose place in the text is recorded. -/
inductive Clause
  | ctes
  | select
  | into
  | sources
  | joinCondition
  | filter
  | grouping
  | groupFilter
  | ordering
  | assignments
  | values
  | insertColumns
  | output
  | target
  | mergeSource
  | mergeAction
  | setOperation
  deriving DecidableEq, Repr

namespace Clause

/-- The clause as SQL writes it. -/
def sqlName : Clause → String
  | ctes => "WITH"
  | select => "SELECT"
  | into => "INTO"
  | sources => "FROM"
  | joinCondition => "ON"
  | filter => "WHERE"
  | grouping => "GROUP BY"
  | groupFilter => "HAVING"
  | ordering => "ORDER BY"
  | assignments => "SET"
  | values => "VALUES"
  | insertColumns => "INSERT COLUMNS"
  | output => "OUTPUT"
  | target => "TARGET"
  | mergeSource => "USING"
  | mergeAction => "WHEN"
  | setOperation => "UNION"

end Clause

structure ClauseRange where
  clause : Clause
  range : Range
  deriving DecidableEq, Repr

structure ColumnRef where
  /-- Alias, else the column's own name, else a made-up `exprN`. -/
  name : String
  /-- Table or alias that the column comes from, when known. -/
  source : Option String := none
  /-- `*` or `alias.*`. -/
  isStar : Bool := false
  dataType : Option String := none
  /-- Text of the expression, when the column is more than its name. -/
  expression : Option String := none
  deriving DecidableEq, Repr

def ColumnRef.star (qualifier : Option String) : ColumnRef :=
  { name := "*", source := qualifier, isStar := true }

/-- How long a temporary table lives: to the end of its batch, or across batches. -/
inductive TempKind
  | batchLocal
  | global
  deriving DecidableEq, Repr

/-- The kind that the number of `#` in front of a name gives. -/
def TempKind.ofName? (name : String) : Option TempKind :=
  match name.toList with
  | '#' :: '#' :: _ => some .global
  | '#' :: _ => some .batchLocal
  | _ => none

/-- A table named in a statement, or a derived table of it. -/
structure TableRef where
  database : Option String := none
  schema : Option String := none
  name : String
  aliasName : Option String := none
  isCte : Bool := false
  isDerived : Bool := false
  isFunction : Bool := false
  /-- Columns written behind the alias, or found by resolution. -/
  columns : List ColumnRef := []
  range : Range := default
  /-- Index of a derived table's query among the subqueries of its statement. -/
  subqueryIndex : Option Nat := none
  deriving DecidableEq, Repr

namespace TableRef

/-- The name under which columns refer to the table. -/
def displayName (t : TableRef) : String :=
  t.aliasName.getD t.name

def matchesAlias (t : TableRef) (name : String) : Bool :=
  t.aliasName.any (Ident.same · name)

def matchesName (t : TableRef) (name : String) : Bool :=
  t.matchesAlias name || Ident.same t.name name

def isTemp (t : TableRef) : Bool :=
  (TempKind.ofName? t.name).isSome

/-- Whether the reference is to an object of the catalog. -/
def isBase (t : TableRef) : Bool :=
  !(t.isCte || t.isDerived || t.isTemp)

def findColumn? (t : TableRef) (name : String) : Option ColumnRef :=
  t.columns.find? fun c => !c.isStar && Ident.same c.name name

end TableRef

inductive SubqueryKind
  | derived
  | expression
  deriving DecidableEq, Repr

structure TempTable where
  name : String
  kind : TempKind
  columns : List ColumnRef
  batch : Nat
  /-- Line of the statement's mention of the table. -/
  line : Nat
  deriving DecidableEq, Repr

mutual

/-- A common table expression of a `WITH`. -/
structure Cte where
  name : String
  /-- The column names written behind the name. -/
  columns : Option (List String)
  body : Statement
  /-- The body refers to the expression itself. -/
  isRecursive : Bool
  range : Range

/-- A query in parentheses. -/
structure Subquery where
  aliasName : Option String
  kind : SubqueryKind
  /-- Clause of the outer statement that the query stands in. -/
  clause : Option Clause
  range : Range
  body : Statement

structure Statement where
  kind : StatementKind := .unknown
  startLine : Nat := 0
  endLine : Nat := 0
  batch : Nat := 0
  range : Range := default
  /-- The tables of this level; for a DML statement with a target the target comes first. -/
  tables : List TableRef := []
  columns : List ColumnRef := []
  ctes : List Cte := []
  subqueries : List Subquery := []
  clauses : List ClauseRange := []
  insertColumns : List String := []
  tempTable : Option TempTable := none
  issues : List Issue := []
  database : Option String := none

end

namespace Statement

instance : Inhabited Statement := ⟨{}⟩

/-- The statements nested directly in a statement. -/
def nested (s : Statement) : List Statement :=
  s.ctes.map Cte.body ++ s.subqueries.map Subquery.body

theorem sizeOf_cte_lt {s : Statement} {c : Cte} (h : c ∈ s.ctes) : sizeOf c.body < sizeOf s := by
  cases s
  cases c
  have := List.sizeOf_lt_of_mem h
  simp at this ⊢
  omega

theorem sizeOf_subquery_lt {s : Statement} {q : Subquery} (h : q ∈ s.subqueries) :
    sizeOf q.body < sizeOf s := by
  cases s
  cases q
  have := List.sizeOf_lt_of_mem h
  simp at this ⊢
  omega

theorem sizeOf_nested_lt {s n : Statement} (h : n ∈ s.nested) : sizeOf n < sizeOf s := by
  simp only [nested, List.mem_append, List.mem_map] at h
  rcases h with ⟨c, hc, rfl⟩ | ⟨q, hq, rfl⟩
  · exact sizeOf_cte_lt hc
  · exact sizeOf_subquery_lt hq

theorem induction {P : Statement → Prop} (step : ∀ s, (∀ n ∈ s.nested, P n) → P s)
    (s : Statement) : P s :=
  step s fun n h =>
    have := sizeOf_nested_lt h
    induction step n
termination_by sizeOf s

/-- The statement itself and all statements nested in it, outer ones first. -/
def all (s : Statement) : List Statement :=
  s :: s.nested.attach.flatMap fun ⟨n, h⟩ =>
    have := sizeOf_nested_lt h
    n.all
termination_by sizeOf s

theorem all_eq (s : Statement) : s.all = s :: s.nested.flatMap all := by
  rw [all]
  simp

theorem mem_all_self (s : Statement) : s ∈ s.all := by
  rw [all_eq]
  exact List.mem_cons_self

theorem mem_all_of_nested {s n q : Statement} (hn : n ∈ s.nested) (hq : q ∈ n.all) :
    q ∈ s.all := by
  rw [all_eq]
  exact List.mem_cons_of_mem _ (List.mem_flatMap.2 ⟨n, hn, hq⟩)

/-- The range of the first clause with the given name. -/
def clauseRange? (s : Statement) (clause : Clause) : Option Range :=
  (s.clauses.find? fun c => c.clause = clause).map ClauseRange.range

/-- The clause at a position: the last one that starts at or before it. -/
def clauseAt? (s : Statement) (p : Position) : Option Clause :=
  (s.clauses.takeWhile fun c => c.range.start ≤ p).getLast?.map ClauseRange.clause

/-- The table that a DML statement changes. -/
def target? (s : Statement) : Option TableRef :=
  if s.kind.isDml then s.tables.head? else none

/-- The table that a name denotes: an alias first, then a table without alias, then any table. -/
def findTable? (s : Statement) (name : String) : Option TableRef :=
  (s.tables.find? fun t => t.matchesAlias name).or <|
    (s.tables.find? fun t => t.aliasName.isNone && Ident.same t.name name).or <|
      s.tables.find? fun t => Ident.same t.name name

def findCte? (s : Statement) (name : String) : Option Cte :=
  s.ctes.find? fun c => Ident.same c.name name

def hasErrors (s : Statement) : Bool :=
  s.issues.any Issue.isError

/-- Whether an unqualified reference to a name occurs in the statement or in one nested in it. -/
def refersTo (name : String) (s : Statement) : Bool :=
  s.all.any fun q =>
    q.tables.any fun t => t.schema.isNone && !t.isDerived && Ident.same t.name name

/-- The statement, and everything nested in it, as part of the given batch. -/
def inBatch (batch : Nat) (s : Statement) : Statement :=
  { s with
    batch := batch
    tempTable := s.tempTable.map fun t => { t with batch := batch }
    ctes := s.ctes.map fun c => { c with body := c.body.inBatch batch }
    subqueries := s.subqueries.map fun q => { q with body := q.body.inBatch batch } }
termination_by sizeOf s
decreasing_by
  · exact sizeOf_cte_lt ‹_›
  · exact sizeOf_subquery_lt ‹_›

end Statement

end Tsql
