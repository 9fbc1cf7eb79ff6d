import Tsql.Indexed.Source
import Tsql.Statement.CommonTable

/-!
Common table expressions, read by index.
-/

namespace Tsql

/-- What the list behind a `WITH` holds, and the index behind it. -/
structure CteSpan where
  ctes : List Cte := []
  issues : List Issue := []
  /-- The indices of the groups that hold a body or a list of column names. -/
  groups : List Nat := []
  stop : Nat

namespace CteSpan

/-- A list whose first part has been read, given what has been read behind it. -/
def followedBy (a b : CteSpan) : CteSpan :=
  { ctes := a.ctes ++ b.ctes
    issues := a.issues ++ b.issues
    groups := a.groups ++ b.groups
    stop := b.stop }

end CteSpan

namespace TokenSlice

/-- A group of column names at an index. -/
def columnList? (s : TokenSlice) (i : Nat) : Option (Option (List String) × Nat) :=
  match s.tokens[i]? with
  | some t =>
    if t.isOpen then
      (s.isQueryGroup? i).bind fun isQuery =>
        if isQuery then some (none, i)
        else (s.groupInner? i).map fun inner => (some (namesIn inner), s.skipGroup i)
    else some (none, i)
  | none => some (none, i)

def skipAs (s : TokenSlice) (i : Nat) : Nat :=
  if s.is i (·.isKeyword .AS) then i + 1 else i

/-- A common table expression without a query. What stands in its place is stepped over if it is a
group. -/
def cteWithoutBody (s : TokenSlice) (name : Token) (columns : Option (List String))
    (groups : List Nat) (i : Nat) : CteSpan :=
  { ctes := [⟨name.text, columns, {}, false, name.range⟩]
    issues := [⟨.cteWithoutBody name.text, name.range⟩]
    groups := groups
    stop := if s.is i Token.isOpen then s.skipGroup i else i }

/-- A common table expression with the query in the group at an index. -/
def cteWithBody? (s : TokenSlice) (nested? : List Token → Option Statement) (name : Token)
    (columns : Option (List String)) (groups : List Nat) (i : Nat) : Option CteSpan := do
  let inner ← s.groupInner? i
  let body ← nested? inner
  let isRecursive := body.refersTo name.text
  let last ← s.before? (s.skipGroup i)
  return {
    ctes := [⟨name.text, columns, body, isRecursive, ⟨name.start, last.stop⟩⟩]
    issues :=
      if isRecursive && !CteList.hasUnionAll 0 inner then
        [⟨.recursiveCteWithoutUnionAll name.text, name.range⟩]
      else []
    groups := groups ++ [i]
    stop := s.skipGroup i }

/-- One common table expression, where `i` is the index behind its name. -/
def oneCte? (s : TokenSlice) (nested? : List Token → Option Statement) (name : Token) (i : Nat) :
    Option CteSpan :=
  (s.columnList? i).bind fun (columns, behindColumns) =>
    let groups := if columns.isSome then [i] else []
    let first := s.skipAs behindColumns
    (s.isQueryGroup? first).bind fun isQuery =>
      if isQuery then s.cteWithBody? nested? name columns groups first
      else some (s.cteWithoutBody name columns groups first)

/-- The expressions of a list, where `i` is the index behind `WITH` or behind a comma. -/
def cteList? (s : TokenSlice) (nested? : List Token → Option Statement) (i : Nat) :
    Option CteSpan :=
  if _h : i < s.tokens.length then
    match s.tokens[i]? with
    | some name =>
      if name.isName then
        (s.oneCte? nested? name (i + 1)).bind fun first =>
          if s.is first.stop (·.kind = .comma) then
            if _h : i < first.stop + 1 then
              (s.cteList? nested? (first.stop + 1)).map first.followedBy
            else none
          else some first
      else some { stop := i }
    | none => some { stop := i }
  else some { stop := i }
termination_by s.tokens.length - i

end TokenSlice

namespace Indexed

/-- One issue for each reference to an expression that is declared later. -/
def forwardReferences? (ctes : List Cte) : Option (List Issue) := do
  let found ← ctes.zipIdx.mapM fun (c, i) => do
    let later ← between? ctes (i + 1) ctes.length
    return (later.filter fun l => c.body.refersTo l.name).map fun l =>
      (⟨.cteForwardReference c.name l.name, c.range⟩ : Issue)
  return found.flatten

end Indexed

end Tsql
