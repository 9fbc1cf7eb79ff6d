import Tsql.Indexed.Source
import Tsql.Statement.Column

/-!
Columns that a statement gives, read by index: the items of a select list, and the definitions of a
`CREATE TABLE`.
-/

namespace Tsql

namespace Indexed

/-! ### Casts -/

/-- The index of the last `AS` outside groups, where `i` is the index of the first of the tokens. -/
def lastAs? (depth i : Nat) : List Token → Option Nat
  | [] => none
  | t :: ts =>
    (lastAs? (t.depthAfter depth) (i + 1) ts).or <|
      if depth = 0 ∧ t.isKeyword .AS then some i else none

/-- The tokens of the type that a conversion function with the given arguments converts to. -/
def castTarget? (function : Token) (arguments : List Token) : Option (List Token) :=
  if function.isWord "CAST" || function.isWord "TRY_CAST" then
    match lastAs? 0 0 arguments with
    | some i => between? arguments (i + 1) arguments.length
    | none => some []
  else (splitTop? .comma arguments).map fun parts => parts.headD []

/-- The type that an expression has because it is nothing but a conversion. -/
def castType? (expression : List Token) : Option (Option String) :=
  match expression with
  | [] => some none
  | function :: _ =>
    if ["CAST", "TRY_CAST", "CONVERT", "TRY_CONVERT"].any function.isWord then do
      let s ← TokenSlice.ofTokens? expression
      let last ← difference? expression.length 1
      if s.closeOf? 1 = some last then
        let arguments ← between? expression 2 last
        let type ← castTarget? function arguments
        return if type.isEmpty then none else some (tokensText type)
      else return none
    else some none

/-! ### Items of a select list -/

/-- The tokens of an item but for some at its end. -/
def withoutLast? (item : List Token) (count : Nat) : Option (List Token) :=
  (difference? item.length count).bind fun stop => between? item 0 stop

/-- An item of a select list without the alias at its end, and the alias. -/
def splitAlias? (item : List Token) : Option (List Token × Option String) :=
  match item.reverse with
  | last :: before :: _ =>
    if 3 ≤ item.length ∧ before.isKeyword .AS ∧ last.isName then
      (withoutLast? item 2).map fun expression => (expression, some last.text)
    else if 3 ≤ item.length ∧ before.isKeyword .AS ∧ last.kind = .quoted then
      (withoutLast? item 2).map fun expression => (expression, some (aliasOfQuoted last.text))
    else if last.isKeyword .AS then
      (withoutLast? item 1).map fun expression => (expression, none)
    else if last.isName && before.endsExpression then
      (withoutLast? item 1).map fun expression => (expression, some last.text)
    else some (item, none)
  | _ => some (item, none)

/-- The expression of an item and the name that the item gives it. -/
def itemParts? (item : List Token) : Option (Option (List Token × Option String)) :=
  match item with
  | [] => some none
  | first :: _ =>
    if first.isKeyword .AS then some none
    else if 2 < item.length ∧ first.isName then
      item[1]?.bind fun op =>
        if op.isOperator "=" then
          (between? item 2 item.length).map fun expression => some (expression, some first.text)
        else (splitAlias? item).map some
    else (splitAlias? item).map some

/-- The last two parts of a dotted name, the column and its qualifier. -/
def columnPath? (expression : List Token) : Option (Option (String × Option String)) :=
  let wellFormed := expression.zipIdx.all fun (t, i) =>
    if i % 2 = 0 then t.isName else t.kind = .dot
  if expression.length % 2 = 0 ∨ !wellFormed then some none
  else
    match expression.getLast? with
    | none => some none
    | some column =>
      if 3 ≤ expression.length then do
        let i ← difference? expression.length 3
        let qualifier ← expression[i]?
        return some (column.text, some qualifier.text)
      else some (some (column.text, none))

/-- The column that an expression gives, where `unnamed` placeholders have been used, and the number
of those that have been used then. -/
def column? (unnamed : Nat) (expression : List Token) (name : Option String) :
    Option (ColumnRef × Nat) :=
  match starColumn? expression with
  | some star => some (star, unnamed)
  | none =>
    (columnPath? expression).bind fun path =>
      match path with
      | some (column, qualifier) =>
        let name := name.getD column
        some ({ name := name
                source := qualifier
                expression := if name = column then none else some column }, unnamed)
      | none =>
        let used := if name.isNone then unnamed + 1 else unnamed
        (castType? expression).map fun type =>
          ({ name := name.getD ("expr" ++ toString used)
             dataType := type
             expression := some (tokensText expression) }, used)

/-- The columns of the items of a select list, where `unnamed` placeholders have been used. -/
def columnsFrom? (unnamed : Nat) : List (List Token) → Option (List ColumnRef)
  | [] => some []
  | item :: items =>
    (itemParts? item).bind fun parts =>
      match parts with
      | none => columnsFrom? unnamed items
      | some (expression, name) => do
        let (column, used) ← column? unnamed expression name
        let later ← columnsFrom? used items
        return column :: later

/-! ### Column definitions -/

/-- The column that a definition gives; constraints of a table give none. -/
def columnDefinition? : List Token → Option (Option ColumnRef)
  | [] => some none
  | t :: ts =>
    if t.isName then
      let stop := (ts.findIdx? fun u => u.isAnyKeyword typeEnds).getD ts.length
      (between? ts 0 stop).map fun type =>
        some { name := t.text, dataType := if type.isEmpty then none else some (tokensText type) }
    else some none

def columnDefinitions? (ts : List Token) : Option (List ColumnRef) := do
  let parts ← splitTop? .comma ts
  let columns ← parts.mapM columnDefinition?
  return columns.reduceOption

end Indexed

namespace TokenSlice

/-! ### Select lists -/

/-- The index behind `DISTINCT`, `TOP` and the like. -/
def skipSelectWords? (s : TokenSlice) (i stop : Nat) : Option Nat :=
  match _h : s.inside? i stop with
  | some t =>
    if t.isAnyKeyword [.DISTINCT, .ALL, .PERCENT] then s.skipSelectWords? (i + 1) stop
    else if t.isKeyword .TOP then
      if _h : i < s.skipRowCount (i + 1) then s.skipSelectWords? (s.skipRowCount (i + 1)) stop
      else none
    else if t.isKeyword .WITH && s.is (i + 1) (·.isKeyword .TIES) then
      s.skipSelectWords? (i + 2) stop
    else some i
  | none => some i
termination_by stop - i
decreasing_by all_goals
  have := lt_of_inside? (by assumption)
  omega

/-- The items of a select list, where `i` is the index behind `SELECT`. -/
def selectItems? (s : TokenSlice) (i stop : Nat) : Option (List (List Token)) := do
  let first ← s.skipSelectWords? i stop
  if stop ≤ first then return []
  let items ← between? s.tokens first stop
  Indexed.splitTop? .comma items

end TokenSlice

end Tsql
