import Tsql.Statement.Kind

/-!
The regions of a statement: its tokens cut where a clause begins.

Clauses begin at keywords outside groups, and at the group of an insert column list. `cut` divides
the tokens into those before the first clause and one region for each clause, so nothing is lost:
`cut_flatten` puts the pieces together again.
-/

namespace Tsql

/-- A clause with all tokens up to the next one. -/
structure Region where
  clause : Clause
  head : Token
  tail : List Token
  deriving Repr

namespace Region

def tokens (r : Region) : List Token :=
  r.head :: r.tail

/-- Words that can begin a join. -/
def joinWords : List Keyword :=
  [.INNER, .LEFT, .RIGHT, .FULL, .CROSS, .OUTER, .JOIN]

/-- Whether a join begins with the token; `LEFT` and `RIGHT` are also names of functions. -/
def startsJoin (t : Token) (following : List Token) : Bool :=
  t.isAnyKeyword joinWords && !(t.isAnyKeyword [.LEFT, .RIGHT] && startsOpen following)

/-- What decides whether a token begins a clause. -/
structure State where
  /-- The clause that the token would continue. -/
  last : Option Clause := none
  /-- A name has stood in that clause. -/
  named : Bool := false
  /-- Number of open `CASE` expressions. -/
  cases : Nat := 0
  previous : Option Token := none

/-- Whether a group is the column list of an `INSERT`. -/
def State.isColumnList (s : State) (kind : StatementKind) (inner : List Token) : Bool :=
  !startsQuery inner &&
    match kind with
    | .insert => s.last = some .target && s.previous.any Token.isName
    | .merge => s.previous.any fun t => t.isKeyword .INSERT
    | _ => false

/-- The clause that a keyword begins. -/
def State.clause? (s : State) (kind : StatementKind) (t : Token) (word : Keyword)
    (following : List Token) : Option Clause :=
  let only (c : Clause) (holds : Bool) := if holds then some c else none
  let byFollows := following.head?.any fun u => u.isKeyword .BY
  if startsJoin t following then only .sources (s.last = some .joinCondition)
  else match word with
  | .SELECT => some .select
  | .INTO => only .into (kind = .select && s.last = some .select)
  | .FROM => only .sources (!(kind = .delete && s.last = some .target && !s.named))
  | .ON => some .joinCondition
  | .WHERE => some .filter
  | .GROUP => only .grouping byFollows
  | .ORDER => only .ordering byFollows
  | .HAVING => some .groupFilter
  | .UNION => some .setOperation
  | .EXCEPT => some .setOperation
  | .INTERSECT => some .setOperation
  | .SET => only .assignments (kind = .update || kind = .merge)
  | .VALUES => only .values (kind = .insert || kind = .merge)
  | .OUTPUT => only .output kind.isDml
  | .USING => only .mergeSource (kind = .merge)
  | .WHEN => only .mergeAction (kind = .merge && s.cases = 0)
  | _ => none

/-- The state behind a keyword. -/
def State.behind (s : State) (t : Token) (word : Keyword) (clause : Option Clause) : State :=
  let cases := if word = .CASE then s.cases + 1 else if word = .END then s.cases - 1 else s.cases
  match clause with
  | some c => { last := some c, cases := cases, previous := some t }
  | none => { s with cases := cases, previous := some t }

/-- The tokens that continue the current clause, and the regions behind them. -/
def cut (kind : StatementKind) (s : State) : List Token → List Token × List Region
  | [] => ([], [])
  | t :: ts =>
    let inGroup := (Group.after ts).tokens
    if t.isOpen then
      if s.isColumnList kind (Group.after ts).inner then
        let later := cut kind
          { last := some .insertColumns, cases := s.cases, previous := inGroup.getLast? }
          (Group.after ts).rest
        ([], ⟨.insertColumns, t, inGroup ++ later.1⟩ :: later.2)
      else
        let later := cut kind
          { s with named := s.named || inGroup.any Token.isName, previous := inGroup.getLast? }
          (Group.after ts).rest
        (t :: inGroup ++ later.1, later.2)
    else
      match t.kind with
      | .keyword word =>
        let clause := s.clause? kind t word ts
        let later := cut kind (s.behind t word clause) ts
        match clause with
        | some c => ([], ⟨c, t, later.1⟩ :: later.2)
        | none => (t :: later.1, later.2)
      | _ =>
        let later := cut kind
          { s with named := s.named || t.isName, previous := some t } ts
        (t :: later.1, later.2)
termination_by ts => ts.length
decreasing_by
  all_goals
    have := Group.length_rest_le ts
    simp only [List.length_cons]
    omega

/-- Cutting loses nothing. -/
theorem cut_flatten (kind : StatementKind) (s : State) (ts : List Token) :
    (cut kind s ts).1 ++ (cut kind s ts).2.flatMap Region.tokens = ts := by
  fun_induction cut kind s ts with
  | case1 => rfl
  | case2 s t ts => simp_all +zetaDelta [Region.tokens, Group.tokens_append_rest]
  | case3 s t ts => simp_all +zetaDelta [Group.tokens_append_rest]
  | case4 => simp_all +zetaDelta [Region.tokens]
  | case5 => simp_all +zetaDelta
  | case6 => simp_all +zetaDelta

/-- The end of a region that does not last to the next one: a column list ends with its group. -/
def stop? (r : Region) : Option Position :=
  if r.clause = .insertColumns then
    some (Range.ofTokens (r.head :: (Group.after r.tail).tokens)).stop
  else none

/-- Whether the region begins with the keyword `FROM`; otherwise a table list begins with a
join. -/
def startsFrom (r : Region) : Bool :=
  r.head.isKeyword .FROM

end Region

/-- Where the clauses of a statement stand; the last one lasts to the end of the statement. -/
def clauseRanges (stop : Position) : List Region → List ClauseRange
  | [] => []
  | [r] => [⟨r.clause, r.head.start, r.stop?.getD stop⟩]
  | r :: next :: rs =>
    ⟨r.clause, r.head.start, r.stop?.getD next.head.start⟩ :: clauseRanges stop (next :: rs)

/-- One issue for each further `FROM` between two set operations, where `seen` tells whether there
has been one. -/
def duplicateFroms (seen : Bool) : List Region → List Issue
  | [] => []
  | r :: rs =>
    match r.clause with
    | .select => duplicateFroms false rs
    | .setOperation => duplicateFroms false rs
    | .sources =>
      if r.startsFrom then
        (if seen then [⟨.duplicateFrom, r.head.range⟩] else []) ++ duplicateFroms true rs
      else duplicateFroms seen rs
    | _ => duplicateFroms seen rs

end Tsql
