import Tsql.Indexed.CommonTable
import Tsql.Indexed.Marker
import Tsql.Statement.Split

/-!
From the tokens of a batch to the descriptions of its statements, by index.
-/

namespace Tsql

/-! ### Descriptions -/

namespace Indexed

/-- The common table expressions in front of a statement, and the index behind them. -/
def heading? (nested? : List Token → Option Statement) (first : Token) (s : TokenSlice) :
    Option CteSpan :=
  if first.isKeyword .WITH then s.cteList? nested? 1 else some { stop := 0 }

/-- The description of a statement, where `nested?` describes the queries inside it. -/
def build? (nested? : List Token → Option Statement) (ts : List Token) : Option Statement :=
  match ts with
  | [] => some {}
  | first :: _ => do
    let s ← TokenSlice.ofTokens? ts
    let range := Range.ofTokens ts
    let heading ← heading? nested? first s
    let body := heading.stop
    let own ← between? ts (min body ts.length) ts.length
    let kind ← kindOf? own
    let opening := Marker.opening kind body ts.length
    let (marked, duplicates) ← s.markers? kind opening.getLast? false 0 body
    let markers := opening ++ marked
    let clauses ← s.clauseRanges? range.stop markers
    let extents := Marker.extents ts.length markers
    let clauseOf := Marker.clauseOf markers
    let found ← s.sources? nested? clauseOf false extents
    let target ← s.target? nested? clauseOf extents
    let columns ← s.outputColumns? extents
    let inserted ← s.insertColumns? extents
    let selected ← s.selectedInto? columns extents
    let head ← s.objectHead? kind body
    let columnLists := (extents.filter fun x => x.clause = .insertColumns).map Extent.first
    let claimed := heading.groups ++ head.definitions.toList ++ columnLists ++ found.groups
    let expressions ← s.expressionQueries? nested? claimed.contains clauseOf 0
    let forward ← forwardReferences? heading.ctes
    let subqueries := (found.subqueries ++ expressions).mergeSort fun a b =>
      a.range.start ≤ b.range.start
    let unbalanced := if s.isBalanced then [] else [⟨.unbalancedParentheses, range⟩]
    return {
      kind := kind
      startLine := first.start.line
      endLine := range.stop.line
      range := range
      tables := linkDerived subqueries
        (placeTarget kind target (found.tables ++ head.table.toList))
      columns := columns
      ctes := heading.ctes
      subqueries := subqueries
      clauses := clauses
      insertColumns := inserted
      tempTable := selected.or head.tempTable
      issues := unbalanced ++ heading.issues ++ forward ++ duplicates ++ found.issues
      database := s.usedDatabase? kind body }

/-- A query without the parentheses that enclose all of it. -/
def unwrapped? (ts : List Token) : Option (List Token) :=
  if startsOpen ts then
    (TokenSlice.ofTokens? ts).bind fun s =>
      (difference? ts.length 1).bind fun last =>
        if s.closeOf? 0 = some last then
          match _h : between? ts 1 last with
          | some inner => if _h : inner.length < ts.length then unwrapped? inner else none
          | none => none
        else some ts
  else some ts
termination_by ts.length

/-- The description of a nested query with at most `levels` levels in it. -/
def ofQuery? : Nat → List Token → Option Statement
  | 0, ts => (unwrapped? ts).map fun inner => { kind := .select, range := .ofTokens inner }
  | levels + 1, ts => (unwrapped? ts).bind (build? (ofQuery? levels))

/-- The statement that the tokens form. -/
def parse? (ts : List Token) : Option Statement :=
  (build? (ofQuery? Statement.maxNesting) ts).map (Statement.markedIn [])

end Indexed

/-! ### Statements of a batch -/

namespace Indexed

/-- What is known of the statement being read. -/
structure Pending where
  kind : StatementKind
  awaitsBody : Bool
  hasSource : Bool := false

namespace Pending

/-- The statement that begins at an index. -/
def start? (ts : List Token) (i : Nat) : Option Pending := do
  let own ← between? ts i ts.length
  let kind ← kindOf? own
  let first ← ts[i]?
  return { kind := kind, awaitsBody := first.isKeyword .WITH }

/-- The statement after a keyword at an index, unless the keyword begins a new one. -/
def meets? (p : Pending) (ts : List Token) (i : Nat) (word : Keyword) :
    Option (Option Pending) := do
  let before ← difference? i 1
  let last ← ts[before]?
  let reading : Split.Reading :=
    { kind := p.kind, awaitsBody := p.awaitsBody, hasSource := p.hasSource, last := last }
  return (reading.meets? word (ts.drop (i + 1))).map fun r =>
    ⟨r.kind, r.awaitsBody, r.hasSource⟩

end Pending

/-- Where the division into statements stands in front of a token. -/
structure Splitting where
  /-- The index of the first token of the statement being read. -/
  start : Nat := 0
  depth : Nat := 0
  cases : Nat := 0
  pending : Option Pending := none

/-- A statement from one index up to another, unless it is empty. -/
def piece (i j : Nat) : List (Nat × Nat) :=
  if i < j then [(i, j)] else []

namespace Splitting

/-- Goes on behind a token with nothing being read; what has been read in front of it is a
statement. -/
def delimit (s : Splitting) (i next : Nat) (cases : Nat) :
    List (Nat × Nat) × Splitting × Nat :=
  (piece s.start i, { start := next, depth := s.depth, cases := cases }, next)

/-- Takes a keyword outside groups as one of the statement being read or as the first of the
next. -/
def meet? (s : Splitting) (ts : List Token) (i : Nat) (word : Keyword) :
    Option (List (Nat × Nat) × Splitting × Nat) :=
  match s.pending with
  | some p =>
    if s.start < i then
      (p.meets? ts i word).bind fun met =>
        match met with
        | some p => some ([], { s with pending := some p }, i + 1)
        | none => (Pending.start? ts i).map fun p =>
          (piece s.start i, { start := i, depth := s.depth, pending := some p }, i + 1)
    else some ([], s, i + 1)
  | none => some ([], s, i + 1)

/-- The statement that the token ends, if any, where the division stands then, and the index of the
next token to look at. -/
def take? (s : Splitting) (ts : List Token) (t : Token) (i : Nat) :
    Option (List (Nat × Nat) × Splitting × Nat) :=
  if t.isOpen || t.isClose then some ([], { s with depth := t.depthAfter s.depth }, i + 1)
  else if 0 < s.depth then some ([], s, i + 1)
  else match t.kind with
  | .semicolon => some (s.delimit i (i + 1) 0)
  | .keyword word =>
    if word = .CASE then { s with cases := s.cases + 1 }.meet? ts i word
    else if word = .END ∧ 0 < s.cases then { s with cases := s.cases - 1 }.meet? ts i word
    else if word = .END ∨ word = .ELSE ∧ s.cases = 0 then
      let closes := ts[i + 1]?.any fun u => u.isWord "TRY" || u.isWord "CATCH"
      some (s.delimit i (if closes then i + 2 else i + 1) s.cases)
    else if word = .BEGIN ∧ Split.opensBlock (ts.drop (i + 1)) then
      some (s.delimit i (i + 1) s.cases)
    else s.meet? ts i word
  | _ => some ([], s, i + 1)

/-- As `take?`, where a statement may begin with the token. -/
def step? (s : Splitting) (ts : List Token) (i : Nat) :
    Option (List (Nat × Nat) × Splitting × Nat) := do
  let t ← ts[i]?
  let pending ←
    if i = s.start ∧ s.pending.isNone then (Pending.start? ts i).map some else some s.pending
  { s with pending := pending }.take? ts t i

/-- The statements from an index on, as the indices of their first tokens and behind their last
ones. -/
def run? (s : Splitting) (ts : List Token) (i : Nat) : Option (List (Nat × Nat)) :=
  if _h : i < ts.length then
    (s.step? ts i).bind fun (done, s', next) =>
      if _h : i < next then do
        let later ← s'.run? ts next
        return done ++ later
      else none
  else some (piece s.start ts.length)
termination_by ts.length - i

end Splitting

/-- The statements of a batch, as the indices of their first tokens and behind their last ones. -/
def splitStatements? (ts : List Token) : Option (List (Nat × Nat)) :=
  Splitting.run? {} ts 0

/-- The descriptions of the statements of a batch. -/
def parseAll? (ts : List Token) : Option (List Statement) := do
  let ranges ← splitStatements? ts
  ranges.mapM fun (i, j) => (between? ts i j).bind parse?

end Indexed

end Tsql
