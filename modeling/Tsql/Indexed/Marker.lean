import Tsql.Indexed.Column
import Tsql.Statement.Parse

/-!
Where the clauses of a statement begin, by index, and what they hold.

A marker stands at the first token of a clause. The clause lasts to the next marker, or to the end
of the tokens.
-/

namespace Tsql

structure Marker where
  clause : Clause
  index : Nat
  /-- The index behind a clause that is a group. -/
  stop : Option Nat := none

namespace Marker

/-- The index of the first of some markers, or else that behind all tokens. -/
def firstIndex (length : Nat) (ms : List Marker) : Nat :=
  (ms.head?.map Marker.index).getD length

/-- The clause that the token at an index belongs to. -/
def clauseOf (ms : List Marker) (i : Nat) : Option Clause :=
  (ms.takeWhile fun m => m.index ≤ i).getLast?.map Marker.clause

/-- The markers that do not depend on a word at their place: of common table expressions in front of
the body of a statement, and of the head of a DML statement. -/
def opening (kind : StatementKind) (body length : Nat) : List Marker :=
  (if 0 < body then [⟨.ctes, 0, none⟩] else []) ++
    if kind.isDml ∧ body < length then [⟨.target, body, none⟩] else []

/-- Whether there has been a `FROM` since the last `SELECT` or set operation, and an issue if there
had been one before, where a clause begins with the token. -/
def sourcesAfter (seen : Bool) (clause : Clause) (t : Token) : Bool × List Issue :=
  match clause with
  | .select => (false, [])
  | .setOperation => (false, [])
  | .sources =>
    if t.isKeyword .FROM then (true, if seen then [⟨.duplicateFrom, t.range⟩] else [])
    else (seen, [])
  | _ => (seen, [])

end Marker

/-- A clause with the indices of its first token and behind its last one. -/
structure Extent where
  clause : Clause
  first : Nat
  stop : Nat

/-- The extents of the clauses at the markers. -/
def Marker.extents (length : Nat) : List Marker → List Extent
  | [] => []
  | m :: later =>
    let next := firstIndex length later
    ⟨m.clause, m.index, m.stop.elim next (min · next)⟩ :: extents length later

namespace TokenSlice

/-! ### Markers -/

/-- Whether the group at an index is the column list of an `INSERT`. -/
def isColumnList? (s : TokenSlice) (kind : StatementKind) (last : Option Marker) (i : Nat) :
    Option Bool :=
  (s.isQueryGroup? i).map fun isQuery =>
    !isQuery &&
      match kind with
      | .insert => last.map Marker.clause = some .target && (s.before? i).any Token.isName
      | .merge => (s.before? i).any fun t => t.isKeyword .INSERT
      | _ => false

/-- Whether a name stands between the last marker and an index. It is looked for at the `FROM` of a
`DELETE`. -/
def isNamed? (s : TokenSlice) (kind : StatementKind) (word : Keyword) (last : Option Marker)
    (i : Nat) : Option Bool :=
  match last with
  | some m =>
    if kind = .delete ∧ word = .FROM ∧ m.clause = .target then
      (between? s.tokens m.index i).map (·.any Token.isName)
    else some false
  | none => some false

/-- The clause that a keyword at an index begins, where `cases` are open. -/
def clause? (s : TokenSlice) (kind : StatementKind) (last : Option Marker) (cases : Nat) (t : Token)
    (word : Keyword) (i : Nat) : Option (Option Clause) :=
  (s.isNamed? kind word last i).map fun named =>
    Region.State.clause? { last := last.map Marker.clause, named := named, cases := cases } kind t
      word s.tokens[i + 1]?.toList

/-- The markers from an index on and the issues found with them, given the last marker in front. -/
def markers? (s : TokenSlice) (kind : StatementKind) (last : Option Marker) (seen : Bool)
    (cases i : Nat) : Option (List Marker × List Issue) :=
  if _h : i < s.tokens.length then
    s.tokens[i]?.bind fun t =>
      if t.isOpen then
        (s.isColumnList? kind last i).bind fun isList =>
          if _h : i < s.skipGroup i then
            if isList then do
              let m : Marker := ⟨.insertColumns, i, some (s.skipGroup i)⟩
              let (later, issues) ← s.markers? kind (some m) seen cases (s.skipGroup i)
              return (m :: later, issues)
            else s.markers? kind last seen cases (s.skipGroup i)
          else none
      else
        match t.kind with
        | .keyword word =>
          (s.clause? kind last cases t word i).bind fun clause =>
            let cases :=
              if word = .CASE then cases + 1 else if word = .END then cases - 1 else cases
            match clause with
            | some c => do
              let m : Marker := ⟨c, i, none⟩
              let (seen, issue) := Marker.sourcesAfter seen c t
              let width := if c = .grouping ∨ c = .ordering then 2 else 1
              let (later, issues) ← s.markers? kind (some m) seen cases (i + width)
              return (m :: later, issue ++ issues)
            | none => s.markers? kind last seen cases (i + 1)
        | _ => s.markers? kind last seen cases (i + 1)
  else some ([], [])
termination_by s.tokens.length - i
decreasing_by all_goals first | omega | (split <;> omega)

/-- Where the clauses at the markers stand. -/
def clauseRanges? (s : TokenSlice) (stop : Position) : List Marker → Option (List ClauseRange)
  | [] => some []
  | m :: later => do
    let first ← s.tokens[m.index]?
    let last ←
      match m.stop, later with
      | some i, _ => (s.before? i).map Token.stop
      | none, next :: _ => s.tokens[next.index]?.map Token.start
      | none, [] => some stop
    let ranges ← s.clauseRanges? stop later
    return ⟨m.clause, ⟨first.start, last⟩⟩ :: ranges

/-! ### Contents of clauses -/

section

variable (s : TokenSlice) (nested? : List Token → Option Statement)
  (clauseOf : Nat → Option Clause)

/-- The tables, derived tables and issues in the clauses, where `seen` tells whether there has been
a `SELECT`. -/
def sources? (seen : Bool) : List Extent → Option Sources
  | [] => some {}
  | x :: xs => do
    let found ←
      match x.clause with
      | .target => (s.targetTable? nested? clauseOf (x.first + 1) x.stop).map Prod.snd
      | .select =>
        if seen then some {}
        else (s.selectItems? (x.first + 1) x.stop).map fun items =>
          { issues := selectIssues items }
      | .sources =>
        s.tableList? nested? clauseOf
          (if s.is x.first (·.isKeyword .FROM) then x.first + 1 else x.first) x.stop
      | .mergeSource => s.tableList? nested? clauseOf (x.first + 1) x.stop
      | _ => some {}
    let later ← sources? (seen || x.clause = .select) xs
    return found ++ later

/-- The table that the statement changes. -/
def target? (xs : List Extent) : Option (Option TableRef) :=
  match xs.find? fun x => x.clause = .target with
  | some x => (s.targetTable? nested? clauseOf (x.first + 1) x.stop).map Prod.fst
  | none => some none

end

/-- The output columns: those of the first `SELECT`. -/
def outputColumns? (s : TokenSlice) (xs : List Extent) : Option (List ColumnRef) :=
  match xs.find? fun x => x.clause = .select with
  | some x => (s.selectItems? (x.first + 1) x.stop).bind (Indexed.columnsFrom? 0)
  | none => some []

/-- The names in the column list of an `INSERT`. -/
def insertColumns? (s : TokenSlice) (xs : List Extent) : Option (List String) := do
  let groups ← (xs.filter fun x => x.clause = .insertColumns).mapM fun x => s.groupInner? x.first
  return (groups.getLast?.map namesIn).getD []

/-- The temporary table that `SELECT INTO` creates. -/
def selectedInto? (s : TokenSlice) (columns : List ColumnRef) (xs : List Extent) :
    Option (Option TempTable) := do
  let names ← (xs.filter fun x => x.clause = .into).mapM fun x =>
    s.tableName? (x.first + 1) x.stop
  return (names.filterMap fun n => do
    let table ← n.1
    let kind ← TempKind.ofName? table.name
    some ⟨table.name, kind, columns, 0, table.range.start.line⟩).getLast?

/-! ### Statements about objects -/

/-- `TABLE name` with a group of column definitions. -/
def createdTable? (s : TokenSlice) (body : Nat) : Option ObjectHead := do
  let own ← between? s.tokens body s.tokens.length
  match own.findIdx? fun t => t.isKeyword .TABLE with
  | none => return {}
  | some k =>
    let first := body + k + 1
    let (table, next) ← s.tableName? first s.tokens.length
    match table with
    | none => return {}
    | some table =>
      if s.is next Token.isOpen then
        let inner ← s.groupInner? next
        let name ← s.tokens[first]?
        let temp ←
          match TempKind.ofName? table.name with
          | some kind =>
            (Indexed.columnDefinitions? inner).map fun columns =>
              some ⟨table.name, kind, columns, 0, name.start.line⟩
          | none => some none
        return { table := some table, tempTable := temp, definitions := some next }
      else return { table := some table }

/-- `TABLE name`, with or without `IF EXISTS`. -/
def namedObject? (s : TokenSlice) (body : Nat) : Option ObjectHead :=
  if s.is (body + 1) (·.isKeyword .TABLE) then
    let first :=
      if s.is (body + 2) (·.isKeyword .IF) && s.is (body + 3) (·.isKeyword .EXISTS) then body + 4
      else body + 2
    (s.tableName? first s.tokens.length).map fun name => { table := name.1 }
  else some {}

def objectHead? (s : TokenSlice) (kind : StatementKind) (body : Nat) : Option ObjectHead :=
  match kind with
  | .createTable => s.createdTable? body
  | .truncate => s.namedObject? body
  | .drop => s.namedObject? body
  | .alter => s.namedObject? body
  | _ => some {}

/-- The database that a `USE` names. -/
def usedDatabase? (s : TokenSlice) (kind : StatementKind) (body : Nat) : Option String :=
  if kind = .use then s.tokens[body + 1]?.bind fun t => if t.isName then some t.text else none
  else none

/-! ### Subqueries -/

/-- The queries in parentheses from an index on that are neither claimed nor inside a query or a
claimed group. -/
def expressionQueries? (s : TokenSlice) (nested? : List Token → Option Statement)
    (claimed : Nat → Bool) (clauseOf : Nat → Option Clause) (i : Nat) : Option (List Subquery) :=
  if _h : i < s.tokens.length then
    if s.is i Token.isOpen then
      if claimed i then
        if _h : i < s.skipGroup i then
          s.expressionQueries? nested? claimed clauseOf (s.skipGroup i)
        else none
      else
        (s.groupInner? i).bind fun inner =>
          (Indexed.startsQuery? inner).bind fun isQuery =>
            if isQuery then
              if _h : i < s.skipGroup i then do
                let body ← nested? inner
                let range ← s.groupRange? i
                let later ← s.expressionQueries? nested? claimed clauseOf (s.skipGroup i)
                return ⟨none, .expression, clauseOf i, range, body⟩ :: later
              else none
            else s.expressionQueries? nested? claimed clauseOf (i + 1)
    else s.expressionQueries? nested? claimed clauseOf (i + 1)
  else some []
termination_by s.tokens.length - i

end TokenSlice

end Tsql
