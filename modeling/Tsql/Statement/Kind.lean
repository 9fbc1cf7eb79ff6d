import Tsql.Statement.Basic
import Tsql.Token.Group

/-!
The kind of a statement, read off its first words.
-/

namespace Tsql

/-- The kind of statement that a main keyword of a query or a change of data announces. -/
def Keyword.dmlKind? : Keyword → Option StatementKind
  | .SELECT => some .select
  | .INSERT => some .insert
  | .UPDATE => some .update
  | .DELETE => some .delete
  | .MERGE => some .merge
  | _ => none

namespace StatementKind

/-- The kind of a `CREATE` statement, given the tokens behind the keyword. -/
def ofCreated (ts : List Token) : StatementKind :=
  match ts.dropWhile fun t => t.isAnyKeyword [.OR, .ALTER] with
  | [] => unknown
  | t :: _ =>
    if t.isWord "TABLE" then createTable
    else if t.isWord "VIEW" then createView
    else if t.isWord "PROC" || t.isWord "PROCEDURE" then createProcedure
    else if t.isWord "FUNCTION" then createFunction
    else unknown

/-- The kind of the statement behind a list of common table expressions: that of the first main
keyword outside all groups. -/
def ofBody : Nat → List Token → StatementKind
  | _, [] => unknown
  | depth, t :: ts =>
    match t.kind with
    | .keyword word =>
      if depth = 0 then word.dmlKind?.getD (ofBody 0 ts) else ofBody depth ts
    | _ => ofBody (t.depthAfter depth) ts

/-- The kind of the statement that starts with the tokens. Only a `SELECT` can stand in
parentheses. -/
def ofTokens : List Token → StatementKind
  | [] => unknown
  | t :: ts =>
    match t.kind with
    | .parenOpen =>
      match ts.find? fun u => !u.isOpen with
      | some u => if u.isKeyword .SELECT then select else unknown
      | none => unknown
    | .keyword word =>
      match word with
      | .ALTER => alter
      | .DROP => drop
      | .TRUNCATE => truncate
      | .DECLARE => declare
      | .SET => set
      | .EXEC => exec
      | .EXECUTE => exec
      | .USE => use
      | .CREATE => ofCreated ts
      | .WITH => ofBody 0 ts
      | _ => word.dmlKind?.getD unknown
    | _ => unknown

end StatementKind

end Tsql
