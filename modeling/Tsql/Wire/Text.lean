import Tsql.Batch.Basic
import Tsql.Json.Basic
import Tsql.Position
import Tsql.Statement.Basic

/-!
JSON forms of positions, ranges, batches and statements.
-/

namespace Tsql

/-! ### Positions and batches -/

def Position.toJson (p : Position) : Json :=
  .obj [("line", .ofNat p.line), ("col", .ofNat p.col)]

def Range.toJson (r : Range) : Json :=
  .obj [("start", r.start.toJson), ("end", r.stop.toJson)]

def Json.ofString? (s : Option String) : Json :=
  .ofOption .str s

def Batch.toJson (b : Batch) : Json :=
  .obj [("database", .ofString? b.database), ("sql", .str b.sql),
    ("original_had_use", .bool b.hadUse), ("batch_number", .ofNat b.number),
    ("start_line", .ofNat b.startLine)]

def Batch.Report.toJson (r : Batch.Report) : Json :=
  .obj [("batch_count", .ofNat r.sectionCount), ("use_statements", .ofNat r.useCount),
    ("databases", .ofList .ofString? r.databases)]

/-- The batches of a buffer together with the report on them. -/
def Batch.sourceToJson (source : String) (database : Option String) : Json :=
  .obj [("batches", .ofList Batch.toJson (Batch.ofSource source database)),
    ("debug", (Batch.report source database).toJson)]

/-! ### Statements -/

def StatementKind.code : StatementKind → String
  | .select => "select"
  | .insert => "insert"
  | .update => "update"
  | .delete => "delete"
  | .merge => "merge"
  | .createTable => "create_table"
  | .createView => "create_view"
  | .createProcedure => "create_procedure"
  | .createFunction => "create_function"
  | .alter => "alter"
  | .drop => "drop"
  | .truncate => "truncate"
  | .declare => "declare"
  | .set => "set"
  | .exec => "exec"
  | .use => "use"
  | .unknown => "unknown"

def Clause.code : Clause → String
  | .ctes => "with"
  | .select => "select"
  | .into => "into"
  | .sources => "from"
  | .joinCondition => "on"
  | .filter => "where"
  | .grouping => "group_by"
  | .groupFilter => "having"
  | .ordering => "order_by"
  | .assignments => "set"
  | .values => "values"
  | .insertColumns => "insert_columns"
  | .output => "output"
  | .target => "target"
  | .mergeSource => "using"
  | .mergeAction => "when"
  | .setOperation => "set_operation"

def SubqueryKind.code : SubqueryKind → String
  | .derived => "derived"
  | .expression => "expression"

def TempKind.code : TempKind → String
  | .batchLocal => "local"
  | .global => "global"

def Severity.code : Severity → String
  | .error => "error"
  | .warning => "warning"

def Issue.toJson (i : Issue) : Json :=
  .obj [("kind", .str i.anomaly.code), ("severity", .str i.anomaly.severity.code),
    ("message", .str i.anomaly.message), ("range", i.range.toJson)]

def ClauseRange.toJson (c : ClauseRange) : Json :=
  .obj [("clause", .str c.clause.code), ("range", c.range.toJson)]

def ColumnRef.toJson (c : ColumnRef) : Json :=
  .obj [("name", .str c.name), ("source_table", .ofString? c.source), ("is_star", .bool c.isStar),
    ("data_type", .ofString? c.dataType), ("expression", .ofString? c.expression)]

def TableRef.toJson (t : TableRef) : Json :=
  .obj [("database", .ofString? t.database), ("schema", .ofString? t.schema),
    ("name", .str t.name), ("alias", .ofString? t.aliasName), ("is_cte", .bool t.isCte),
    ("is_subquery", .bool t.isDerived), ("is_temp_table", .bool t.isTemp),
    ("is_tvf", .bool t.isFunction), ("columns", .ofList ColumnRef.toJson t.columns),
    ("range", t.range.toJson), ("subquery_index", .ofOption .ofNat t.subqueryIndex)]

def TempTable.toJson (t : TempTable) : Json :=
  .obj [("name", .str t.name), ("kind", .str t.kind.code),
    ("columns", .ofList ColumnRef.toJson t.columns), ("created_in_batch", .ofNat t.batch),
    ("created_at_line", .ofNat t.line)]

def Statement.toJson (s : Statement) : Json :=
  let ctes := s.ctes.attach.map fun ⟨c, _⟩ =>
    .obj [("name", .str c.name),
      ("explicit_columns", .ofOption (.ofList .str) c.columns),
      ("defining_chunk", c.body.toJson), ("is_recursive", .bool c.isRecursive),
      ("range", c.range.toJson)]
  let subqueries := s.subqueries.attach.map fun ⟨q, _⟩ =>
    .obj [("alias", .ofString? q.aliasName), ("kind", .str q.kind.code),
      ("clause", .ofOption (fun c => .str c.code) q.clause), ("range", q.range.toJson),
      ("chunk", q.body.toJson)]
  .obj [("statement_type", .str s.kind.code), ("start_line", .ofNat s.startLine),
    ("end_line", .ofNat s.endLine), ("go_batch_index", .ofNat s.batch),
    ("range", s.range.toJson), ("tables", .ofList TableRef.toJson s.tables),
    ("columns", .ofList ColumnRef.toJson s.columns), ("ctes", .arr ctes),
    ("subqueries", .arr subqueries), ("clause_positions", .ofList ClauseRange.toJson s.clauses),
    ("insert_columns", .ofList .str s.insertColumns),
    ("temp_table", .ofOption TempTable.toJson s.tempTable),
    ("issues", .ofList Issue.toJson s.issues), ("database", .ofString? s.database)]
termination_by sizeOf s
decreasing_by
  · exact sizeOf_cte_lt ‹_›
  · exact sizeOf_subquery_lt ‹_›

end Tsql
