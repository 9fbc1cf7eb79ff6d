import Tsql.Statement.Kind

/-!
Where statements begin and end in the tokens of a batch.

Each token is marked: it opens a statement, continues one, or delimits statements and belongs to
none. Delimiters are the semicolons outside groups and the words `BEGIN`, `END` and `ELSE` of
blocks. A statement also ends where a keyword outside groups opens the next one; whether it does
depends on the statement being read.
-/

namespace Tsql

namespace Split

inductive Mark
  | opens
  | continues
  | delimits
  deriving DecidableEq, Repr

/-- What is known of the statement being read. -/
structure Reading where
  kind : StatementKind
  /-- A `WITH` whose main keyword has not come yet. -/
  awaitsBody : Bool
  /-- The query or call that an `INSERT` takes its rows from has begun. -/
  hasSource : Bool := false
  depth : Nat := 0
  last : Token

/-- The statement that opens with `t`, where `ts` are the tokens behind it. -/
def Reading.start (t : Token) (ts : List Token) : Reading :=
  { kind := .ofTokens (t :: ts)
    awaitsBody := t.isKeyword .WITH
    depth := t.depthAfter 0
    last := t }

/-- Whether the tokens behind a `WITH` are the head of a common table expression. -/
def headsCte : List Token → Bool
  | name :: follow :: _ => name.isName && (follow.isKeyword .AS || follow.isOpen)
  | _ => false

/-- Keywords that may open a statement. -/
def openers : List Keyword :=
  [.SELECT, .INSERT, .UPDATE, .DELETE, .MERGE, .CREATE, .ALTER, .DROP, .TRUNCATE, .WITH, .DECLARE,
   .SET, .EXEC, .EXECUTE, .USE, .IF, .WHILE, .PRINT]

/-- Kinds of objects that `IF EXISTS` may follow in a `DROP`. -/
def objectKinds : List Keyword :=
  [.TABLE, .VIEW, .PROCEDURE, .PROC, .FUNCTION, .INDEX, .TRIGGER, .SCHEMA]

/-- The statement after a keyword outside groups, unless the keyword opens a new one. -/
def Reading.meets? (r : Reading) (word : Keyword) (following : List Token) : Option Reading :=
  let stays (s : Bool) := if s then some r else none
  let unlessSource :=
    if r.kind = .insert && !r.hasSource then some { r with hasSource := true } else none
  if !openers.contains word then some r
  else if r.last.isAnyKeyword [.THEN, .ON, .FOR] then some r
  else if r.awaitsBody && word.dmlKind?.isSome then some { r with awaitsBody := false }
  else match word with
  | .SELECT =>
    if r.last.isAnyKeyword [.UNION, .ALL, .EXCEPT, .INTERSECT] then some r
    else unlessSource.or (stays (r.kind = .createView && r.last.isKeyword .AS))
  | .EXEC => if r.last.isKeyword .WITH then some r else unlessSource
  | .EXECUTE => if r.last.isKeyword .WITH then some r else unlessSource
  | .WITH =>
    stays (!headsCte following ||
      [.createView, .createProcedure, .createFunction, .createTable].contains r.kind)
  | .SET => stays ([.update, .merge, .alter].contains r.kind)
  | .DROP => stays (r.kind = .alter)
  | .IF =>
    stays (r.last.isAnyKeyword objectKinds && following.head?.any fun t => t.isWord "EXISTS")
  | _ => none

structure State where
  /-- The statement being read; none between statements. -/
  current : Option Reading := none
  /-- Number of `CASE` expressions that are open. They survive the `BEGIN` of a block. -/
  cases : Nat := 0
  /-- The last token was the `END` or `ELSE` of a block. -/
  closedBlock : Bool := false

/-- Whether `BEGIN` opens a block; otherwise it is the first word of a statement. -/
def opensBlock (following : List Token) : Bool :=
  !following.head?.any fun t =>
    ["TRAN", "TRANSACTION", "DISTRIBUTED", "TRY", "CATCH"].any t.isWord

/-- The token as part of the statement being read, or as the first of a new one. -/
def State.take (s : State) (t : Token) (following : List Token) : Mark × State :=
  match s.current with
  | some r =>
    (.continues, ⟨some { r with depth := t.depthAfter r.depth, last := t }, s.cases, false⟩)
  | none => (.opens, ⟨some (.start t following), s.cases, false⟩)

/-- The token as a keyword that continues a statement or opens the next one. -/
def State.meet (s : State) (t : Token) (word : Keyword) (following : List Token) :
    Mark × State :=
  match s.current with
  | some r =>
    match r.meets? word following with
    | some r => { s with current := some r }.take t following
    | none => State.take {} t following
  | none => s.take t following

def State.step (s : State) (t : Token) (following : List Token) : Mark × State :=
  if s.closedBlock && (t.isWord "TRY" || t.isWord "CATCH") then
    (.delimits, { s with closedBlock := false })
  else if (s.current.elim 0 Reading.depth) ≠ 0 then s.take t following
  else match t.kind with
  | .semicolon => (.delimits, {})
  | .keyword .CASE => { s with cases := s.cases + 1 }.meet t .CASE following
  | .keyword .END =>
    if s.cases = 0 then (.delimits, { closedBlock := true })
    else { s with cases := s.cases - 1 }.meet t .END following
  | .keyword .ELSE =>
    if s.cases = 0 then (.delimits, { closedBlock := true }) else s.meet t .ELSE following
  | .keyword .BEGIN =>
    if opensBlock following then (.delimits, { cases := s.cases })
    else s.meet t .BEGIN following
  | .keyword word => s.meet t word following
  | _ => s.take t following

/-- The mark of each token. -/
def marks (s : State) : List Token → List Mark
  | [] => []
  | t :: ts => (s.step t ts).1 :: marks (s.step t ts).2 ts

@[simp] theorem length_marks (s : State) (ts : List Token) : (marks s ts).length = ts.length := by
  induction ts generalizing s with
  | nil => rfl
  | cons t ts ih => simp [marks, ih]

/-- The tokens of a statement and the index of the first of them. -/
structure Segment where
  first : Nat
  tokens : List Token
  deriving Repr

/-- The index behind the last token. -/
def Segment.stop (s : Segment) : Nat :=
  s.first + s.tokens.length

/-- The tokens that continue the statement being read, and the statements behind it, where
`index` is that of the first token. -/
def gather (index : Nat) : List (Mark × Token) → List Token × List Segment
  | [] => ([], [])
  | (mark, t) :: ts =>
    let (tail, later) := gather (index + 1) ts
    match mark with
    | .continues => (t :: tail, later)
    | .opens => ([], ⟨index, t :: tail⟩ :: later)
    | .delimits => ([], later)

end Split

/-- The statements of a batch, as tokens. None of them is empty. -/
def splitStatements (ts : List Token) : List Split.Segment :=
  (Split.gather 0 ((Split.marks {} ts).zip ts)).2

end Tsql
