import Tsql.Statement.Column
import Tsql.Statement.CommonTable

/-!
From the tokens of a statement to its description.

`Statement.build` describes one level; what stands in its subqueries and common table expressions
is left to the function that reads a nested query. `Statement.parse` ties the knot, down to a
fixed depth of nesting. Nothing fails: of a statement that makes no sense there is a description
with what could be recognised, and issues.
-/

namespace Tsql

/-! ### Layout -/

/-- The tokens of a statement cut into regions. -/
structure Layout where
  /-- The tokens before the first region. -/
  lead : List Token
  regions : List Region

namespace Layout

/-- The tokens as the start of the first region, where they have a head. -/
def opening (clause : Clause) (l : Layout) (behind : List Token → List Token) : Layout :=
  match behind l.lead with
  | [] => l
  | t :: ts => ⟨[], ⟨clause, t, ts⟩ :: l.regions⟩

/-- The layout of a statement of the given kind with the tokens `ctes` of common table
expressions before its body. -/
def ofTokens (kind : StatementKind) (ctes body : List Token) : Layout :=
  let (lead, regions) := Region.cut kind { last := if kind.isDml then some .target else none } body
  let main : Layout := ⟨lead, regions⟩
  let layout := if kind.isDml then main.opening .target id else main
  if ctes.isEmpty then layout else layout.opening .ctes (ctes ++ ·)

/-- The pieces of the statement with the clause that each belongs to. -/
def pieces (l : Layout) : List (Option Clause × List Token) :=
  (none, l.lead) :: l.regions.map fun r => (some r.clause, r.tokens)

end Layout

/-! ### Contents of regions -/

/-- The tables, derived tables and issues in the regions, where `seen` tells whether there has
been a `SELECT`. -/
def Sources.ofRegions (nested : List Token → Statement) (seen : Bool) : List Region → Sources
  | [] => {}
  | r :: rs =>
    let found : Sources :=
      match r.clause with
      | .target => (targetTable nested r.tail).2
      | .select => if seen then {} else { issues := selectIssues (selectItems r.tail) }
      | .sources => tableList nested .sources (if r.startsFrom then r.tail else r.tokens)
      | .mergeSource => tableList nested .mergeSource r.tail
      | _ => {}
    found.inFrontOf (rs.flatMap Region.tokens).length ++
      ofRegions nested (seen || r.clause = .select) rs

namespace Region

def first? (clause : Clause) (rs : List Region) : Option Region :=
  rs.find? fun r => r.clause = clause

/-- The table that the statement changes. -/
def target? (nested : List Token → Statement) (rs : List Region) : Option TableRef :=
  (first? .target rs).bind fun r => (targetTable nested r.tail).1

/-- The output columns: those of the first `SELECT`. -/
def outputColumns (rs : List Region) : List ColumnRef :=
  ((first? .select rs).map fun r => columnsFrom 0 (selectItems r.tail)).getD []

/-- The names in the column list of an `INSERT`. -/
def insertColumns (rs : List Region) : List String :=
  ((rs.filter fun r => r.clause = .insertColumns).getLast?.map fun r =>
    namesIn (Group.after r.tail).inner).getD []

/-- The ranks of the column lists of an `INSERT`, where the last region ends with the tokens. -/
def columnLists : List Region → List Nat
  | [] => []
  | r :: rs =>
    if r.clause = .insertColumns then ((r :: rs).flatMap tokens).length :: columnLists rs
    else columnLists rs

/-- The temporary table that `SELECT INTO` creates. -/
def selectedInto (columns : List ColumnRef) (rs : List Region) : Option TempTable :=
  (rs.filterMap fun r =>
    if r.clause = .into then do
      let table ← (tableName r.tail).1
      let kind ← TempKind.ofName? table.name
      some ⟨table.name, kind, columns, 0, table.range.start.line⟩
    else none).getLast?

end Region

/-! ### Statements about objects -/

/-- What a statement about an object names, given its tokens from the verb on. -/
structure ObjectHead where
  table : Option TableRef := none
  tempTable : Option TempTable := none
  /-- The rank of the group of column definitions, or its index where tokens are read by index. -/
  definitions : Option Nat := none

namespace ObjectHead

/-- `TABLE name` with a group of column definitions. -/
def ofCreate (ts : List Token) : ObjectHead :=
  match ts.dropWhile fun t => !t.isKeyword .TABLE with
  | [] => {}
  | _ :: ts =>
    match tableName ts with
    | (none, _) => {}
    | (some table, rest) =>
      match rest with
      | [] => { table := some table }
      | t :: definitions =>
        if t.isOpen then
          { table := some table
            tempTable := (TempKind.ofName? table.name).map fun kind =>
              ⟨table.name, kind, columnDefinitions (Group.after definitions).inner, 0,
                table.range.start.line⟩
            definitions := some rest.length }
        else { table := some table }

/-- `TABLE name`, with or without `IF EXISTS`. -/
def ofNamed (ts : List Token) : ObjectHead :=
  match ts with
  | _ :: t :: rest =>
    if t.isKeyword .TABLE then
      match rest with
      | a :: b :: more =>
        if a.isKeyword .IF && b.isKeyword .EXISTS then { table := (tableName more).1 }
        else { table := (tableName rest).1 }
      | _ => { table := (tableName rest).1 }
    else {}
  | _ => {}

def ofBody (kind : StatementKind) (body : List Token) : ObjectHead :=
  match kind with
  | .createTable => ofCreate body
  | .truncate => ofNamed body
  | .drop => ofNamed body
  | .alter => ofNamed body
  | _ => {}

end ObjectHead

/-- The database that a `USE` names. -/
def usedDatabase? (kind : StatementKind) (body : List Token) : Option String :=
  if kind = .use then body[1]?.bind fun t => if t.isName then some t.text else none else none

/-- The tables with the target in front. `UPDATE` and `DELETE` may name their target by the alias
or the name of a table in their list; that table then is the target. -/
def placeTarget (kind : StatementKind) (target : Option TableRef) (tables : List TableRef) :
    List TableRef :=
  match target with
  | none => tables
  | some t =>
    let listed :=
      if (kind = .update ∨ kind = .delete) ∧ t.schema.isNone then
        (tables.findIdx? fun u => u.matchesAlias t.name).or <|
          tables.findIdx? fun u => u.aliasName.isNone && Ident.same u.name t.name
      else none
    match listed with
    | some i => tables[i]?.toList ++ tables.eraseIdx i
    | none => t :: tables

/-! ### Subqueries -/

/-- The queries in parentheses that are neither claimed nor inside a query or a claimed group. What is
claimed is known from the tokens that begin with the parenthesis. -/
def expressionQueries (nested : List Token → Statement) (claimed : List Token → Bool)
    (clause : Option Clause) (ts : List Token) : List Subquery :=
  match ts with
  | [] => []
  | t :: rest =>
    let group := Group.after rest
    if t.isOpen && claimed (t :: rest) then expressionQueries nested claimed clause group.rest
    else if t.isOpen && startsQuery group.inner then
      ⟨none, .expression, clause, .ofTokens (t :: group.tokens), nested group.inner⟩ ::
        expressionQueries nested claimed clause group.rest
    else expressionQueries nested claimed clause rest
termination_by ts.length
decreasing_by
  · have := Group.length_rest_le rest
    simp only [List.length_cons]
    omega
  · have := Group.length_rest_le rest
    simp only [List.length_cons]
    omega
  · simp

/-- Whether the group that the tokens begin with is claimed by its rank, where so many more tokens are
behind them. -/
def isClaimed (claimed : List Nat) (more : Nat) (ts : List Token) : Bool :=
  claimed.contains (ts.length + more)

/-- The queries in parentheses in the pieces of a statement, where some groups are claimed by their
ranks. -/
def Layout.expressionQueries (nested : List Token → Statement) (claimed : List Nat) :
    List (Option Clause × List Token) → List Subquery
  | [] => []
  | piece :: later =>
    Tsql.expressionQueries nested (isClaimed claimed (later.flatMap Prod.snd).length) piece.1 piece.2 ++
      expressionQueries nested claimed later

/-- The derived tables with the index of their query. -/
def linkDerived (subqueries : List Subquery) (tables : List TableRef) : List TableRef :=
  tables.map fun t =>
    if t.isDerived then
      { t with
        subqueryIndex := subqueries.findIdx? fun q =>
          q.kind = .derived ∧ q.range.start = t.range.start }
    else t

/-! ### Statements -/

namespace Statement

/-- The description of a statement, where `nested` describes the queries inside it. -/
def build (nested : List Token → Statement) (ts : List Token) : Statement :=
  match ts with
  | [] => {}
  | first :: rest =>
    let range := Range.ofTokens ts
    let heading : CteList :=
      if first.isKeyword .WITH then .ofTokens nested rest else { rest := ts }
    let body := heading.rest
    let kind := StatementKind.ofTokens body
    let layout := Layout.ofTokens kind (ts.take (ts.length - body.length)) body
    let regions := layout.regions
    let found := Sources.ofRegions nested false regions
    let head := ObjectHead.ofBody kind body
    let columns := Region.outputColumns regions
    let claimed :=
      heading.groups ++ head.definitions.toList ++ Region.columnLists regions ++ found.groups
    let expressions := Layout.expressionQueries nested claimed layout.pieces
    let subqueries := (found.subqueries ++ expressions).mergeSort fun a b =>
      a.range.start ≤ b.range.start
    let unbalanced := if isBalanced ts then [] else [⟨.unbalancedParentheses, range⟩]
    { kind := kind
      startLine := first.start.line
      endLine := range.stop.line
      range := range
      tables := linkDerived subqueries
        (placeTarget kind (Region.target? nested regions) (found.tables ++ head.table.toList))
      columns := columns
      ctes := heading.ctes
      subqueries := subqueries
      clauses := clauseRanges range.stop regions
      insertColumns := Region.insertColumns regions
      tempTable := (Region.selectedInto columns regions).or head.tempTable
      issues :=
        unbalanced ++ heading.issues ++ CteList.forwardReferences heading.ctes ++
          duplicateFroms false regions ++ found.issues
      database := usedDatabase? kind body }

/-- A query without the parentheses that enclose all of it. -/
def unwrapped (ts : List Token) : List Token :=
  match ts with
  | [] => []
  | t :: rest =>
    let group := Group.after rest
    if t.isOpen && group.isClosed && group.rest.isEmpty then unwrapped group.inner else t :: rest
termination_by ts.length
decreasing_by
  have := Group.length_inner_le rest
  simp only [List.length_cons]
  omega

/-- Number of levels of nesting that are described. -/
def maxNesting : Nat := 64

/-- The description of a nested query with at most `levels` levels in it. Below the last level
only the place of a query is known. -/
def ofQuery : Nat → List Token → Statement
  | 0, ts => { kind := .select, range := .ofTokens (unwrapped ts) }
  | levels + 1, ts => build (ofQuery levels) (unwrapped ts)

/-- The statement that the tokens form. -/
def parse (ts : List Token) : Statement :=
  (build (ofQuery maxNesting) ts).markedIn []

end Statement

end Tsql
