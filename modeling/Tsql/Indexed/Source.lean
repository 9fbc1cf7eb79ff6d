import Tsql.Indexed.Basic
import Tsql.Statement.Source

/-!
The tables that a statement names, read by index.

A reader takes the index to read from and the index behind the region that is read, and answers
what it found and the index it came to. What a region does not hold may still be looked at where the
reader asks for the next token, and the end of a group may lie behind the region.

A group that is no expression is known by the index of its parenthesis.
-/

namespace Tsql

namespace TokenSlice

/-! ### Names and aliases -/

/-- The parts of a dotted name behind its first part. -/
def nameTail (s : TokenSlice) (i stop : Nat) : Option (List String) × Nat :=
  match _h : s.inside? i stop with
  | some t =>
    if t.kind = .dot then
      match s.inside? (i + 1) stop with
      | some u =>
        if u.isName then
          ((s.nameTail (i + 2) stop).1.map (u.text :: ·), (s.nameTail (i + 2) stop).2)
        else if u.kind = .dot then
          ((s.nameTail (i + 1) stop).1.map ("" :: ·), (s.nameTail (i + 1) stop).2)
        else (none, i + 1)
      | none => (none, i + 1)
    else (some [], i)
  | none => (some [], i)
termination_by stop - i
decreasing_by all_goals
  have := lt_of_inside? _h
  omega

/-- The name of a table. -/
def tableName? (s : TokenSlice) (i stop : Nat) : Option (Option TableRef × Nat) :=
  match s.inside? i stop with
  | some t =>
    if t.isName then
      match s.nameTail (i + 1) stop with
      | (some parts, next) => do
        let last ← s.before? next
        return (some (.ofParts (t.text :: parts) ⟨t.start, last.stop⟩), next)
      | (none, next) => some (none, next)
    else some (none, i)
  | none => some (none, i)

/-- An alias, with or without `AS`. -/
def tableAlias (s : TokenSlice) (i stop : Nat) : Option String × Nat :=
  match s.inside? i stop with
  | some t =>
    if t.isKeyword .AS then
      match s.inside? (i + 1) stop with
      | some a =>
        if a.isName then (some a.text, i + 2)
        else if a.kind = .quoted then (some (aliasOfQuoted a.text), i + 2)
        else (none, i + 1)
      | none => (none, i + 1)
    else if t.isName then (some t.text, i + 1)
    else (none, i)
  | none => (none, i)

/-! ### Hints and conditions -/

/-- Whether the group at an index holds hints. -/
def isHintGroup? (s : TokenSlice) (i : Nat) : Option Bool :=
  (s.groupInner? i).map areHints

/-- The index behind hints, with or without `WITH`. -/
def skipHints? (s : TokenSlice) (i stop : Nat) : Option Nat :=
  match _h : s.inside? i stop with
  | some t =>
    if t.isKeyword .WITH && (s.inside? (i + 1) stop).any Token.isOpen then
      if _h : i < s.skipGroup (i + 1) then s.skipHints? (s.skipGroup (i + 1)) stop else none
    else if t.isOpen then
      (s.isHintGroup? i).bind fun hints =>
        if hints then
          if _h : i < s.skipGroup i then s.skipHints? (s.skipGroup i) stop else none
        else some i
    else some i
  | none => some i
termination_by stop - i
decreasing_by all_goals
  have := lt_of_inside? (by assumption)
  omega

/-- The index behind a join condition: that of the next join or comma. -/
def skipCondition? (s : TokenSlice) (i stop : Nat) : Option Nat :=
  match _h : s.inside? i stop with
  | some t =>
    if t.isOpen then
      if _h : i < s.skipGroup i then s.skipCondition? (s.skipGroup i) stop else none
    else if t.kind = .comma || Region.startsJoin t s.tokens[i + 1]?.toList then some i
    else s.skipCondition? (i + 1) stop
  | none => some (min i stop)
termination_by stop - i
decreasing_by all_goals
  have := lt_of_inside? (by assumption)
  omega

/-! ### Tables -/

/-- A group of names behind an alias, if the alias may have columns. -/
def columnNames? (s : TokenSlice) (mayHave : Bool) (i stop : Nat) :
    Option (List ColumnRef × Nat) :=
  if mayHave && (s.inside? i stop).any Token.isOpen then
    (s.groupInner? i).map fun inner =>
      ((namesIn inner).map fun n => { name := n }, s.skipGroup i)
  else some ([], i)

/-- Whether the arguments of a function begin at the index. -/
def isCall? (s : TokenSlice) (i stop : Nat) : Option Bool :=
  if (s.inside? i stop).any Token.isOpen then (s.isHintGroup? i).map (!·) else some false

/-- A named table or a function call, with alias, hints and the columns that an alias gives to the
result of a function. -/
def namedTable? (s : TokenSlice) (i stop : Nat) : Option (Option TableRef × Nat) := do
  let (table, behindName) ← s.tableName? i stop
  match table with
  | none => return (none, behindName)
  | some table =>
    let isCall ← s.isCall? behindName stop
    let behindHints ←
      s.skipHints? (if isCall then s.skipGroup behindName else behindName) stop
    let (name, behindAlias) := s.tableAlias behindHints stop
    let (columns, behindColumns) ← s.columnNames? (name.isSome && isCall) behindAlias stop
    let next ← s.skipHints? behindColumns stop
    let last ← s.before? (max next (i + 1))
    return (some { table with
      aliasName := name
      isFunction := isCall
      columns := columns
      range := ⟨table.range.start, last.stop⟩ }, next)

/-- A query in parentheses in place of a table, at an index. -/
def derivedTable? (s : TokenSlice) (nested? : List Token → Option Statement)
    (clauseOf : Nat → Option Clause) (i stop : Nat) :
    Option (Option TableRef × Sources × Nat) := do
  let inner ← s.groupInner? i
  let body ← nested? inner
  let range ← s.groupRange? i
  let (name, behindAlias) := s.tableAlias (s.skipGroup i) stop
  let (columns, next) ← s.columnNames? name.isSome behindAlias stop
  let table ← name.mapM fun n => do
    let last ← s.before? next
    return {
      name := n
      aliasName := some n
      isDerived := true
      columns := columns
      range := ⟨range.start, last.stop⟩ }
  let issues :=
    if name.isNone && (s.closeOf? i).isSome then [⟨.derivedTableWithoutAlias, range⟩] else []
  return (table,
    { subqueries := [⟨name, .derived, clauseOf i, range, body⟩], issues := issues, groups := [i] },
    next)

/-! ### Lists of tables -/

/-- The index behind a `PIVOT` whose parentheses are looked for at an index. -/
def behindPivot (s : TokenSlice) (i stop : Nat) : Nat :=
  (s.tableAlias (s.skipGroup i) stop).2

/-- The tables in a list separated by commas and joins. -/
def tableList? (s : TokenSlice) (nested? : List Token → Option Statement)
    (clauseOf : Nat → Option Clause) (i stop : Nat) : Option Sources :=
  match _h : s.inside? i stop with
  | some t =>
    if t.kind = .comma || t.isAnyKeyword (.APPLY :: Region.joinWords) then
      s.tableList? nested? clauseOf (i + 1) stop
    else if t.isKeyword .ON then
      (s.skipCondition? (i + 1) stop).bind fun next =>
        if _h : i < next then s.tableList? nested? clauseOf next stop else none
    else if t.isKeyword .AS then
      (s.tableList? nested? clauseOf (i + 2) stop).map fun found =>
        { issues := [⟨.aliasWithoutTable, t.range⟩] } ++ found
    else if t.isAnyKeyword [.PIVOT, .UNPIVOT] then
      if _h : i < s.behindPivot (i + 1) stop then
        s.tableList? nested? clauseOf (s.behindPivot (i + 1) stop) stop
      else none
    else if t.isOpen then
      (s.isQueryGroup? i).bind fun isQuery =>
        if isQuery then
          (s.derivedTable? nested? clauseOf i stop).bind fun (table, found, next) =>
            (s.tableList? nested? clauseOf (max next (i + 1)) stop).map fun later =>
              found ++ { tables := table.toList } ++ later
        else
          (s.tableList? nested? clauseOf (i + 1) (min (s.stopOf i) stop)).bind fun inner =>
            (s.tableList? nested? clauseOf (max (s.skipGroup i) (i + 1)) stop).map fun later =>
              inner ++ later
    else if t.isName then
      (s.namedTable? i stop).bind fun (table, next) =>
        (s.tableList? nested? clauseOf (max next (i + 1)) stop).map fun later =>
          { tables := table.toList } ++ later
    else s.tableList? nested? clauseOf (i + 1) stop
  | none => some {}
termination_by stop - i
decreasing_by all_goals
  have := lt_of_inside? (by assumption)
  omega

/-! ### Targets -/

/-- The index behind the number of rows that follows `TOP`. -/
def skipRowCount (s : TokenSlice) (i : Nat) : Nat :=
  if s.is i Token.isOpen then s.skipGroup i
  else if s.is i (·.kind = .number) then i + 1
  else i

/-- The index behind the words that may stand between the verb of a DML statement and its target. -/
def skipTargetWords? (s : TokenSlice) (i stop : Nat) : Option Nat :=
  match _h : s.inside? i stop with
  | some t =>
    if t.isAnyKeyword [.INTO, .FROM, .PERCENT] then s.skipTargetWords? (i + 1) stop
    else if t.isKeyword .TOP then
      if _h : i < s.skipRowCount (i + 1) then s.skipTargetWords? (s.skipRowCount (i + 1)) stop
      else none
    else some i
  | none => some i
termination_by stop - i
decreasing_by all_goals
  have := lt_of_inside? (by assumption)
  omega

/-- The target of a DML statement, where `i` is the index behind its verb, and what else its head
holds. -/
def targetTable? (s : TokenSlice) (nested? : List Token → Option Statement)
    (clauseOf : Nat → Option Clause) (i stop : Nat) : Option (Option TableRef × Sources) :=
  (s.skipTargetWords? i stop).bind fun first =>
    if (s.inside? first stop).any Token.isOpen then
      (s.isQueryGroup? first).bind fun isQuery =>
        if isQuery then
          (s.derivedTable? nested? clauseOf first stop).map fun (table, found, _) => (table, found)
        else
          (s.tableList? nested? clauseOf (first + 1) (min (s.stopOf first) stop)).map fun found =>
            (none, found)
    else (s.namedTable? first stop).map fun (table, _) => (table, {})

end TokenSlice

end Tsql
