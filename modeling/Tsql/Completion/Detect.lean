import Tsql.Buffer
import Tsql.Completion.Context
import Tsql.Completion.Mark
import Tsql.Diagnostics
import Tsql.Function.Builtin
import Tsql.Scan.Spans
import Tsql.Scope.Tree

/-!
From a cursor in a buffer to its completion context.

A cursor in a literal or comment gets nothing, save for a bracketed name that is being typed. A cursor
between statements gets the words that open one. Elsewhere the innermost scope and the clause at the
cursor decide what is offered, unless a structural error stands before the cursor.
-/

namespace Tsql

structure Detector where
  resolver : Resolver
  functions : FunctionRegistry

/-- A cursor in a text: the word in front of it and the tokens before that word. -/
structure CursorSite where
  state : Scan.State
  position : Position
  word : CursorWord
  before : List Token

namespace CursorSite

/-- The site of the cursor at a line and column. -/
def ofCursor (source : List Char) (p : Position) : CursorSite :=
  let offset := Cursor.offsetAt source p
  let state := Scan.stateAt source offset
  let word := CursorWord.atEnd (Text.takeSize offset source) (state = .bracket)
  let wordStart := Cursor.positionAt source word.start
  { state := state
    position := Cursor.positionAt source offset
    word := word
    before := (tokenize (String.ofList (Scan.mask source))).filter fun t => t.stop ≤ wordStart }

/-- Whether nothing can be typed here but the contents of a literal or comment. -/
def isInert (c : CursorSite) : Bool :=
  !c.state.isNormal && c.state ≠ .bracket

/-- The statement that the cursor continues: the last one that starts before it, unless something
behind that statement has ended it. -/
def statement? (c : CursorSite) (b : Buffer) : Option Statement :=
  (b.statements.reverse.find? fun s => s.range.start < c.position).filter fun s =>
    !((c.before.getLast?.any fun t => t.kind = .semicolon) ||
      c.before.any fun t => s.range.stop ≤ t.start)

/-- Whether a table is named here, because of the token before the word. -/
def isTablePlace (c : CursorSite) (clause : Option Clause) : Bool :=
  c.before.getLast?.any fun t =>
    t.isAnyKeyword [.FROM, .JOIN, .INTO, .UPDATE, .MERGE, .USING, .APPLY, .TABLE] ||
      (t.kind = .comma && clause = some .sources)

def mode (c : CursorSite) (clause : Option Clause) : CompletionMode :=
  if c.isTablePlace clause then .tables
  else if c.word.qualifier.isNone then .ofClause clause
  else if c.word.isBracketed then .qualifiedBracket
  else .qualified

/-- The tokens behind the last token with a property; all of them if there is none. -/
def behindLast (p : Token → Bool) (ts : List Token) : List Token :=
  (ts.reverse.takeWhile fun t => !p t).reverse

/-- The names before a dot. -/
def qualifiersIn : List Token → List String
  | t :: u :: ts =>
    if t.isName && u.kind = .dot then t.text :: qualifiersIn (u :: ts) else qualifiersIn (u :: ts)
  | _ => []

def isComparison (t : Token) : Bool :=
  ["=", "<>", "!=", "<", ">", "<=", ">="].any t.isOperator

/-- The qualifier on the left of the comparison that is being typed in a join condition. -/
def leftQualifier? (c : CursorSite) (s : Statement) : Option String := do
  let condition ← (s.clauses.filter fun r =>
    r.clause = .joinCondition && r.range.start ≤ c.position).getLast?
  let typed := c.before.filter fun t => condition.range.start ≤ t.start
  let operand := behindLast (fun t => t.isAnyKeyword [.ON, .AND, .OR]) typed
  if operand.any isComparison then
    (qualifiersIn (operand.takeWhile fun t => !isComparison t)).getLast?
  else none

end CursorSite

/-- The columns of a table that can be named. -/
def TableRef.concreteColumns (t : TableRef) : List ColumnRef :=
  t.columns.filter fun c => !c.isStar

namespace Detector

/-- Names of the functions offered in a mode: those that give a table where tables are named, and
the others where values are. -/
def functionNames (d : Detector) (mode : CompletionMode) : List String :=
  let offered (f : Function) : Bool :=
    if mode = .tables then f.type = .table else mode.offersFunctions && f.type ≠ .table
  (d.functions.functions.filter offered).map Function.name

/-- The context of a cursor that begins a new statement. -/
def betweenStatements (d : Detector) (b : Buffer) (temps : TempRegistry) (c : CursorSite) :
    CompletionContext :=
  let previous := b.statements.reverse.find? fun s => s.range.stop ≤ c.position
  let batch :=
    match previous with
    | none => 0
    | some s =>
      let isPast := b.statements.any fun n => s.batch < n.batch && n.range.start ≤ c.position
      if isPast then s.batch + 1 else s.batch
  { CompletionContext.ofWord .keyword c.word with
    database := (previous.bind Statement.database).or d.resolver.connection.database
    temps := temps.visibleAt ⟨batch, c.position.line⟩
    keywords := KeywordOffer.inMode .keyword none none }

/-- The columns of the table that the qualifier means. -/
def qualifiedColumns (d : Detector) (temps : List TempTable) (path : List Scope)
    (qualifier : Option String) : List ColumnRef :=
  match qualifier.bind fun q => Scope.findTable? q path with
  | none => []
  | some v =>
    match d.resolver.resolve v.scope.statement (.ofPath (v.scope :: v.outer) temps) v.table with
    | .ok t => t.concreteColumns
    | .error _ => []

/-- The columns of the table that a DML statement changes, found among the resolved tables. -/
def targetColumns (s : Statement) (tables : List TableRef) : List ColumnRef :=
  match s.target?.bind fun target =>
    tables.find? fun t => Ident.same t.displayName target.displayName with
  | none => []
  | some t => t.concreteColumns

/-- The target's columns that the column list of an `INSERT` does not name yet. The word being typed
does not count. -/
def unnamedColumns (s : Statement) (typed : String) (columns : List ColumnRef) : List ColumnRef :=
  columns.filter fun c =>
    !s.insertColumns.any fun n => Ident.same n c.name && !Ident.same n typed

/-- The columns that a mode offers. -/
def offeredColumns (d : Detector) (c : CursorSite) (mode : CompletionMode) (s : Statement)
    (path : List Scope) (temps : List TempTable) (tables : List TableRef) : List ColumnRef :=
  match mode with
  | .qualified => d.qualifiedColumns temps path c.word.qualifier
  | .qualifiedBracket => d.qualifiedColumns temps path c.word.qualifier
  | .joinCondition =>
    let left := ((c.leftQualifier? s).bind fun q => Scope.findTable? q path).map fun v =>
      v.table.displayName
    (tables.filter fun t => !left.any fun l => Ident.same t.displayName l).flatMap
      TableRef.concreteColumns
  | .assignments => targetColumns s tables
  | .insertColumns => unnamedColumns s c.word.typed (targetColumns s tables)
  | _ => if mode.offersColumns then tables.flatMap TableRef.concreteColumns else []

/-- Whether a table is in reach: not a temporary table of this buffer that is not alive here. -/
def isInReach (temps : TempRegistry) (alive : List TempTable) (t : TableRef) : Bool :=
  !t.isTemp || (alive.any fun v => Ident.same v.name t.name) ||
    !temps.tables.any fun created => Ident.same created.name t.name

/-- The context of a cursor inside a statement. -/
def insideStatement (d : Detector) (temps : TempRegistry) (c : CursorSite) (s : Statement) :
    CompletionContext :=
  let database := s.database.or d.resolver.connection.database
  let known : CompletionContext :=
    { CompletionContext.ofWord .error c.word with database := database, statement := some s }
  let isBroken := (Diagnostics.ofStatements [s]).any fun i =>
    i.isError && i.range.start ≤ c.position
  if isBroken then known
  else
    let path := (ScopeTree.build d.resolver.maxDepth s).pathAt c.position
    let inner := (path.head?.map Scope.statement).getD s
    let clause := inner.clauseAt? c.position
    let mode := c.mode clause
    let alive := temps.visibleAt ⟨s.batch, c.position.line⟩
    let tables := (d.resolver.resolveScope path alive).filter (isInReach temps alive)
    { known with
      mode := mode
      tableRef := c.word.qualifier
      clause := clause
      tables := tables
      ctes := (Scope.visibleCtes path).map Cte.name
      temps := alive
      keywords := KeywordOffer.inMode mode clause (some inner.kind)
      columns := d.offeredColumns c mode inner path alive tables
      functions := d.functionNames mode }

/-- The context at a line and column of a buffer that has been read. -/
def detectIn (d : Detector) (source : String) (b : Buffer) (temps : TempRegistry)
    (p : Position) : CompletionContext :=
  let site := CursorSite.ofCursor source.toList p
  if site.isInert then .ofWord .nothing site.word
  else
    match site.statement? b with
    | some s => d.insideStatement temps site s
    | none => d.betweenStatements b temps site

/-- The buffer with the given text. -/
def read (d : Detector) (source : String) : Buffer :=
  .parse source d.resolver.connection.database

/-- The context at a line and column of a text. -/
def detect (d : Detector) (source : String) (p : Position) : CompletionContext :=
  let b := d.read source
  d.detectIn source b (.ofStatements d.resolver b.statements) p

end Detector

end Tsql
