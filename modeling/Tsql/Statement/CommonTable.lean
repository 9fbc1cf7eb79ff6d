import Tsql.Statement.Source

/-!
Common table expressions: the list behind `WITH`, and which table references mean one of them.

The body of an expression sees the expressions before it, and itself when it is recursive. The
statement behind the list and its subqueries see all of them.
-/

namespace Tsql

/-- What the list behind a `WITH` holds, and the tokens behind it. -/
structure CteList where
  ctes : List Cte := []
  issues : List Issue := []
  /-- The ranks of the groups that hold a body or a list of column names. -/
  groups : List Nat := []
  rest : List Token

namespace CteList

/-- A list whose first part has been read, given what has been read behind it. -/
def followedBy (a b : CteList) : CteList :=
  { ctes := a.ctes ++ b.ctes
    issues := a.issues ++ b.issues
    groups := a.groups ++ b.groups
    rest := b.rest }

/-- A group of column names. -/
def columnList (ts : List Token) : Option (List String) × List Token :=
  match ts with
  | [] => (none, [])
  | t :: rest =>
    let group := Group.after rest
    if t.isOpen && !startsQuery group.inner then (some (namesIn group.inner), group.rest)
    else (none, t :: rest)

def skipAs : List Token → List Token
  | [] => []
  | t :: ts => if t.isKeyword .AS then ts else t :: ts

/-- Whether a query has `UNION ALL` outside groups. -/
def hasUnionAll : Nat → List Token → Bool
  | depth, t :: u :: ts =>
    depth = 0 && t.isKeyword .UNION && u.isKeyword .ALL || hasUnionAll (t.depthAfter depth) (u :: ts)
  | _, _ => false

/-- An expression without a query. What stands in its place is stepped over if it is a group. -/
def withoutBody (name : Token) (columns : Option (List String)) (groups : List Nat)
    (ts : List Token) : CteList :=
  { ctes := [⟨name.text, columns, {}, false, name.range⟩]
    issues := [⟨.cteWithoutBody name.text, name.range⟩]
    groups := groups
    rest :=
      match ts with
      | [] => []
      | t :: rest => if t.isOpen then (Group.after rest).rest else t :: rest }

/-- An expression with the query in the group that opens with `t`. -/
def withBody (nested : List Token → Statement) (name : Token) (columns : Option (List String))
    (groups : List Nat) (t : Token) (ts : List Token) : CteList :=
  let group := Group.after ts
  let body := nested group.inner
  let isRecursive := body.refersTo name.text
  { ctes :=
      [⟨name.text, columns, body, isRecursive,
        ⟨name.start, (Range.ofTokens (t :: group.tokens)).stop⟩⟩]
    issues :=
      if isRecursive && !hasUnionAll 0 group.inner then
        [⟨.recursiveCteWithoutUnionAll name.text, name.range⟩]
      else []
    groups := groups ++ [(t :: ts).length]
    rest := group.rest }

/-- One expression, given the tokens behind its name. -/
def one (nested : List Token → Statement) (name : Token) (ts : List Token) : CteList :=
  let (columns, behindColumns) := columnList ts
  let groups := if columns.isSome then [ts.length] else []
  match skipAs behindColumns with
  | t :: rest =>
    if t.isOpen && startsQuery (Group.after rest).inner then
      withBody nested name columns groups t rest
    else withoutBody name columns groups (t :: rest)
  | [] => withoutBody name columns groups []

theorem length_columnList_le (ts : List Token) : (columnList ts).2.length ≤ ts.length := by
  unfold columnList
  split
  · simp
  · next t rest =>
    have := Group.length_rest_le rest
    dsimp only
    split
    · simp only [List.length_cons]; omega
    · simp

theorem length_skipAs_le (ts : List Token) : (skipAs ts).length ≤ ts.length := by
  unfold skipAs
  split
  · simp
  · split <;> simp

theorem length_rest_one_le (nested : List Token → Statement) (name : Token) (ts : List Token) :
    (one nested name ts).rest.length ≤ ts.length := by
  have h := Nat.le_trans (length_skipAs_le (columnList ts).2) (length_columnList_le ts)
  unfold one
  dsimp only
  split
  · next t rest heq =>
    have := Group.length_rest_le rest
    rw [heq, List.length_cons] at h
    split
    · simp only [withBody]; omega
    · simp only [withoutBody]
      split
      · omega
      · simp only [List.length_cons]; omega
  · simp [withoutBody]

/-- The expressions of a list, given the tokens behind `WITH` or behind a comma. -/
def ofTokens (nested : List Token → Statement) (ts : List Token) : CteList :=
  match ts with
  | [] => { rest := [] }
  | name :: rest =>
    if name.isName then
      let first := one nested name rest
      match _h : first.rest with
      | comma :: more =>
        if comma.kind = .comma then first.followedBy (ofTokens nested more) else first
      | [] => first
    else { rest := name :: rest }
termination_by ts.length
decreasing_by
  have := length_rest_one_le nested name rest
  simp only [_h, first, List.length_cons] at *
  omega

/-- One issue for each reference to an expression that is declared later. -/
def forwardReferences : List Cte → List Issue
  | [] => []
  | c :: later =>
    ((later.filter fun l => c.body.refersTo l.name).map fun l =>
      ⟨.cteForwardReference c.name l.name, c.range⟩) ++ forwardReferences later

end CteList

/-! ### References -/

/-- Whether a table reference may mean a common table expression. -/
def TableRef.mayBeCte (t : TableRef) : Bool :=
  t.schema.isNone && t.database.isNone && !t.isDerived && !t.isFunction

/-- The reference with its mark set if one of the visible expressions has its name. -/
def TableRef.markedIn (visible : List String) (t : TableRef) : TableRef :=
  if t.mayBeCte && visible.any fun name => Ident.same name t.name then { t with isCte := true }
  else t

/-- The names that the body of an expression sees, given those it would see without its own. -/
def Cte.namesInBody (c : Cte) (visible : List String) : List String :=
  if c.isRecursive then visible ++ [c.name] else visible

mutual

/-- The statement with its references to common table expressions marked, where `visible` are the
names of those declared around it. -/
def Statement.markedIn (visible : List String) (s : Statement) : Statement :=
  let inner := visible ++ s.ctes.map Cte.name
  { s with
    tables := s.tables.map (TableRef.markedIn inner)
    ctes := Cte.markedIn visible s.ctes
    subqueries := s.subqueries.attach.map fun ⟨q, _⟩ => { q with body := q.body.markedIn inner } }
termination_by sizeOf s
decreasing_by
  · cases s; simp; omega
  · exact Statement.sizeOf_subquery_lt ‹_›

/-- The expressions of one list with the references in their bodies marked. -/
def Cte.markedIn (visible : List String) : List Cte → List Cte
  | [] => []
  | c :: cs =>
    { c with body := c.body.markedIn (c.namesInBody visible) } ::
      Cte.markedIn (visible ++ [c.name]) cs
termination_by cs => sizeOf cs
decreasing_by
  · cases c; simp only [List.cons.sizeOf_spec, Cte.mk.sizeOf_spec]; omega
  · simp only [List.cons.sizeOf_spec]; omega

end

end Tsql
