import Tsql.Statement.Source
import Tsql.Token.Basic

/-!
Columns that a statement gives: the items of a select list, and the definitions of a `CREATE
TABLE`.
-/

namespace Tsql

/-! ### Casts -/

/-- The tokens behind the last `AS` outside groups. -/
def behindLastAs? : Nat → List Token → Option (List Token)
  | _, [] => none
  | depth, t :: ts =>
    (behindLastAs? (t.depthAfter depth) ts).or <|
      if depth = 0 ∧ t.isKeyword .AS then some ts else none

/-- The tokens of the type that a conversion function with the given arguments converts to. -/
def castTarget (function : Token) (arguments : List Token) : List Token :=
  if function.isWord "CAST" || function.isWord "TRY_CAST" then
    (behindLastAs? 0 arguments).getD []
  else if function.isWord "CONVERT" || function.isWord "TRY_CONVERT" then
    (splitTop .comma 0 arguments).headD []
  else []

/-- The type that an expression has because it is nothing but a conversion. -/
def castType? : List Token → Option String
  | function :: t :: ts =>
    let group := Group.after ts
    if t.isOpen && group.isClosed && group.rest.isEmpty then
      match castTarget function group.inner with
      | [] => none
      | type => some (tokensText type)
    else none
  | _ => none

/-! ### Select lists -/

/-- The tokens behind `DISTINCT`, `TOP` and the like. -/
def skipSelectWords (ts : List Token) : List Token :=
  match ts with
  | [] => []
  | t :: rest =>
    if t.isAnyKeyword [.DISTINCT, .ALL, .PERCENT] then skipSelectWords rest
    else if t.isKeyword .TOP then skipSelectWords (skipRowCount rest)
    else if t.isKeyword .WITH && rest.head?.any fun u => u.isKeyword .TIES then
      skipSelectWords rest.tail
    else t :: rest
termination_by ts.length
decreasing_by
  · simp
  · have := length_skipRowCount_le rest
    simp only [List.length_cons]
    omega
  · simp only [List.length_tail, List.length_cons]
    omega

/-- Whether an alias without `AS` may follow the token. -/
def Token.endsExpression (t : Token) : Bool :=
  t.isName || t.isAnyKeyword [.END, .NULL] || t.kind = .number || t.kind = .quoted || t.isClose

/-- An item of a select list without the alias at its end, and the alias. -/
def splitAlias (item : List Token) : List Token × Option String :=
  match item.reverse with
  | last :: before :: rest =>
    if before.isKeyword .AS && !rest.isEmpty && last.isName then (rest.reverse, some last.text)
    else if before.isKeyword .AS && !rest.isEmpty && last.kind = .quoted then
      (rest.reverse, some (aliasOfQuoted last.text))
    else if last.isKeyword .AS then ((before :: rest).reverse, none)
    else if last.isName && before.endsExpression then
      ((before :: rest).reverse, some last.text)
    else (item, none)
  | _ => (item, none)

/-- The expression of an item and the name that the item gives it. -/
def itemParts? : List Token → Option (List Token × Option String)
  | [] => none
  | t :: ts =>
    match ts with
    | op :: expression =>
      if t.isKeyword .AS then none
      else if t.isName && op.isOperator "=" && !expression.isEmpty then
        some (expression, some t.text)
      else some (splitAlias (t :: ts))
    | [] => if t.isKeyword .AS then none else some ([t], none)

/-- The star that an expression ends in, when it is `*` or a qualified one. -/
def starColumn? (expression : List Token) : Option ColumnRef :=
  match expression.reverse with
  | [star] => if star.isOperator "*" then some (.star none) else none
  | star :: dot :: qualifier :: _ =>
    if star.isOperator "*" && dot.kind = .dot && qualifier.isName then
      some (.star (some qualifier.text))
    else none
  | _ => none

/-- The last two parts of a dotted name, the column and its qualifier. -/
def columnPath? : List Token → Option (String × Option String)
  | [] => none
  | [t] => if t.isName then some (t.text, none) else none
  | t :: dot :: ts =>
    if t.isName && dot.kind = .dot then
      match columnPath? ts with
      | some (column, none) => some (column, some t.text)
      | path => path
    else none

/-- The column that an expression gives. Without a name of its own it takes that of the column it
stands for, or else the placeholder. -/
def ColumnRef.ofExpression (expression : List Token) (name : Option String)
    (placeholder : String) : ColumnRef :=
  match starColumn? expression, columnPath? expression with
  | some star, _ => star
  | none, some (column, qualifier) =>
    let name := name.getD column
    { name := name
      source := qualifier
      expression := if name = column then none else some column }
  | none, none =>
    { name := name.getD placeholder
      dataType := castType? expression
      expression := some (tokensText expression) }

/-- Whether only a placeholder can name the column. -/
def needsPlaceholder (expression : List Token) (name : Option String) : Bool :=
  name.isNone && (starColumn? expression).isNone && (columnPath? expression).isNone

/-- The columns of the items of a select list, where `unnamed` placeholders have been used. -/
def columnsFrom (unnamed : Nat) : List (List Token) → List ColumnRef
  | [] => []
  | item :: items =>
    match itemParts? item with
    | none => columnsFrom unnamed items
    | some (expression, name) =>
      let used := if needsPlaceholder expression name then unnamed + 1 else unnamed
      .ofExpression expression name ("expr" ++ toString used) :: columnsFrom used items

/-- The items of a select list, given the tokens behind `SELECT`. -/
def selectItems (ts : List Token) : List (List Token) :=
  splitTop .comma 0 (skipSelectWords ts)

/-- One issue for each item that begins with `AS`. -/
def selectIssues (items : List (List Token)) : List Issue :=
  items.filterMap fun item =>
    match item with
    | t :: _ => if t.isKeyword .AS then some ⟨.aliasWithoutExpression, t.range⟩ else none
    | [] => none

/-! ### Column definitions -/

/-- Words that end the type of a column definition. -/
def typeEnds : List Keyword :=
  [.NOT, .NULL, .PRIMARY, .UNIQUE, .CHECK, .CONSTRAINT, .DEFAULT, .IDENTITY, .REFERENCES,
   .COLLATE, .INDEX, .FOREIGN]

/-- The column that a definition gives; constraints of a table give none. -/
def columnDefinition? : List Token → Option ColumnRef
  | [] => none
  | t :: ts =>
    if t.isName then
      let type := ts.takeWhile fun u => !u.isAnyKeyword typeEnds
      some { name := t.text, dataType := if type.isEmpty then none else some (tokensText type) }
    else none

def columnDefinitions (ts : List Token) : List ColumnRef :=
  (splitTop .comma 0 ts).filterMap columnDefinition?

end Tsql
