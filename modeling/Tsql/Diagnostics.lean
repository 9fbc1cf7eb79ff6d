import Tsql.TempTable.Registry

/-!
The issues of a buffer: those found in its statements and everything nested in them, and uses of
temporary tables out of their reach.
-/

namespace Tsql.Diagnostics

/-- Issues are ordered by start, then by end. -/
def isBefore (a b : Issue) : Bool :=
  a.range.start < b.range.start || a.range.start = b.range.start && a.range.stop ≤ b.range.stop

/-- The issues in the order of the text, repetitions left out. -/
def sorted (issues : List Issue) : List Issue :=
  (issues.mergeSort isBefore).eraseReps

/-- The issues found in the statements. -/
def ofStatements (ss : List Statement) : List Issue :=
  sorted (ss.flatMap fun s => s.all.flatMap Statement.issues)

/-- The references to temporary tables in a statement, at any depth. -/
def tempRefs (s : Statement) : List TableRef :=
  s.all.flatMap fun n => n.tables.filter TableRef.isTemp

/-- Whether the statement itself creates the table. -/
def creates (s : Statement) (t : TableRef) : Bool :=
  s.kind = .createTable || s.tempTable.any fun temp => Ident.same temp.name t.name

/-- Whether a table that the buffer creates somewhere is not visible where it is named. -/
def isOutOfReach (r : TempRegistry) (s : Statement) (t : TableRef) : Bool :=
  !creates s t && (r.tables.any fun temp => Ident.same temp.name t.name) &&
    (r.find? t.name ⟨s.batch, t.range.start.line⟩).isNone

/-- The uses of temporary tables out of their reach. A `DROP` may name any table. -/
def ofTempTables (r : TempRegistry) (ss : List Statement) : List Issue :=
  ss.flatMap fun s =>
    if s.kind = .drop then []
    else ((tempRefs s).filter (isOutOfReach r s)).map fun t =>
      ⟨.tempTableNotInScope t.name, t.range⟩

/-- All issues of a buffer. -/
def ofBuffer (r : TempRegistry) (ss : List Statement) : List Issue :=
  sorted (ofStatements ss ++ ofTempTables r ss)

end Tsql.Diagnostics
