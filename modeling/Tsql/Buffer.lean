import Tsql.Batch.Basic
import Tsql.Statement.Parse
import Tsql.Statement.Split
import Tsql.Token.Lexer

/-!
The statements of a whole buffer.

Comments are masked rather than removed and `GO` lines only divide the tokens, so the positions in
the statements are those of the buffer.
-/

namespace Tsql

structure Buffer where
  /-- The statements in the order of the text. -/
  statements : List Statement
  /-- Number of batches, empty ones included. -/
  batchCount : Nat

namespace Buffer

/-- The tokens between separator lines. A token on a separator line belongs to none. -/
def tokensBetween (ts : List Token) : List Nat → List (List Token)
  | [] => [ts]
  | line :: lines =>
    let behind := ts.dropWhile fun t => t.start.line < line
    (ts.takeWhile fun t => t.start.line < line) ::
      tokensBetween (behind.dropWhile fun t => t.start.line = line) lines

/-- The statements of the tokens of one batch. -/
def statementsIn (batch : Nat) (ts : List Token) : List Statement :=
  (splitStatements ts).map fun s => (Statement.parse s.tokens).inBatch batch

/-- The statements with the database that is active at each. A `USE` changes it for the
statements behind it. -/
def withDatabases (database : Option String) : List Statement → List Statement
  | [] => []
  | s :: ss =>
    if s.kind = .use && s.database.isSome then s :: withDatabases s.database ss
    else { s with database := database } :: withDatabases database ss

/-- The tokens of a text, comments masked, where its first character stands at `start`. -/
def maskedTokens (start : Position) (source : String) : List Token :=
  tokenizeFrom start (String.ofList (Scan.mask source.toList))

/-- The tokens of each batch of a text. -/
def batchTokens (source : String) : List (List Token) :=
  tokensBetween (maskedTokens .origin source) (Batch.separators (Scan.mask source.toList))

/-- The buffer with the given text, where `database` is active before the first `USE`. -/
def parse (source : String) (database : Option String) : Buffer :=
  let batches := batchTokens source
  { statements :=
      withDatabases database (batches.zipIdx.flatMap fun (ts, batch) => statementsIn batch ts)
    batchCount := batches.length }

/-- The first statement that has text on the line. -/
def statementAt? (b : Buffer) (line : Nat) : Option Statement :=
  b.statements.find? fun s => s.startLine ≤ line && line ≤ s.endLine

/-- The statements of one batch. -/
def batch (b : Buffer) (number : Nat) : List Statement :=
  b.statements.filter fun s => s.batch = number

end Buffer

/-- The statements of a batch; all of them have its database. -/
def Batch.statements (b : Batch) : List Statement :=
  (Buffer.statementsIn b.number (Buffer.maskedTokens ⟨b.startLine, 1⟩ b.sql)).map fun s =>
    { s with database := b.database }

end Tsql
