import Tsql.Delimited
import Tsql.Statement.Region

/-!
The tables that a statement names: the target of a DML statement, the lists behind `FROM`, the
joins, and `USING`.

A reader takes a list of tokens and answers what it found and the tokens that it left. What a list
of tables holds is a `Sources`; a parenthesised query in it becomes a derived table, whose body is
read by the function `nested` that is passed along. Words that make no sense in a table list are
stepped over.

A group that is no expression is known by its rank, the number of tokens from its parenthesis to the
end of the list: of `n` tokens, the one with index `i` has rank `n - i`.
-/

namespace Tsql

/-- The range of the tokens that a reader took, given those before and after it. -/
def Range.taken (before after : List Token) : Range :=
  .ofTokens (before.take (before.length - after.length))

/-- What a string literal stands for as an alias; a literal without an end stands for itself. -/
def aliasOfQuoted (text : String) : String :=
  let cs := text.toList
  let inner := if cs.head? = some 'N' then cs.tail else cs
  let bare :=
    if inner.head? = some '\'' ∧ inner.tail.getLast? = some '\'' then inner.tail.dropLast
    else inner
  String.ofList (Delimited.undoubled '\'' bare)

/-- The texts of the names among some tokens. -/
def namesIn (ts : List Token) : List String :=
  (ts.filter Token.isName).map Token.text

/-! ### Names and aliases -/

/-- The parts of a dotted name behind its first part. Two dots in a row leave a part empty; a name
that ends in a dot is still being typed and has no parts. -/
def nameTail : List Token → Option (List String) × List Token
  | [] => (some [], [])
  | t :: ts =>
    if t.kind = .dot then
      match ts with
      | [] => (none, [])
      | u :: rest =>
        if u.isName then ((nameTail rest).1.map (u.text :: ·), (nameTail rest).2)
        else if u.kind = .dot then ((nameTail (u :: rest)).1.map ("" :: ·), (nameTail (u :: rest)).2)
        else (none, u :: rest)
    else (some [], t :: ts)

/-- The reference that the parts of a name stand for: server, database, schema and name, of which
only the last one is needed. An empty part is not given. -/
def TableRef.ofParts (parts : List String) (range : Range) : TableRef :=
  let given (part : Option String) := part.filter fun s => !s.isEmpty
  match parts.reverse with
  | [] => { name := "", range := range }
  | name :: outer =>
    { name := name
      schema := given outer[0]?
      database := given outer[1]?
      range := range }

/-- The name of a table. -/
def tableName : List Token → Option TableRef × List Token
  | [] => (none, [])
  | t :: ts =>
    if t.isName then
      let (parts, rest) := nameTail ts
      (parts.map fun ps => .ofParts (t.text :: ps) (.taken (t :: ts) rest), rest)
    else (none, t :: ts)

/-- An alias, with or without `AS`. -/
def tableAlias : List Token → Option String × List Token
  | [] => (none, [])
  | t :: ts =>
    if t.isKeyword .AS then
      match ts with
      | a :: rest =>
        if a.isName then (some a.text, rest)
        else if a.kind = .quoted then (some (aliasOfQuoted a.text), rest)
        else (none, ts)
      | [] => (none, [])
    else if t.isName then (some t.text, ts)
    else (none, t :: ts)

theorem length_nameTail_le (ts : List Token) : (nameTail ts).2.length ≤ ts.length := by
  fun_induction nameTail ts <;> simp_all <;> omega

theorem length_tableName_lt {t : Token} {ts : List Token} (h : t.isName) :
    (tableName (t :: ts)).2.length < (t :: ts).length := by
  have := length_nameTail_le ts
  simp [tableName, h]
  omega

theorem length_tableAlias_le (ts : List Token) : (tableAlias ts).2.length ≤ ts.length := by
  unfold tableAlias
  split
  · simp
  · split
    · split
      · split
        · simp; omega
        · split <;> simp; omega
      · simp
    · split <;> simp

/-! ### Hints and conditions -/

/-- Hints that may stand in parentheses behind a table. -/
def tableHints : List String :=
  ["NOLOCK", "READUNCOMMITTED", "READCOMMITTED", "REPEATABLEREAD", "SERIALIZABLE", "HOLDLOCK",
   "UPDLOCK", "ROWLOCK", "PAGLOCK", "TABLOCK", "TABLOCKX", "XLOCK", "READPAST", "NOWAIT", "INDEX"]

/-- Whether the tokens of a group are hints. -/
def areHints (inner : List Token) : Bool :=
  !inner.isEmpty && inner.all fun t =>
    t.kind = .comma || tableHints.any fun h => Text.sameFolded t.text.toList h.toList

/-- The tokens behind hints, with or without `WITH`. -/
def skipHints (ts : List Token) : List Token :=
  match ts with
  | [] => []
  | t :: rest =>
    if t.isKeyword .WITH && startsOpen rest then skipHints (Group.after rest.tail).rest
    else if t.isOpen && areHints (Group.after rest).inner then skipHints (Group.after rest).rest
    else t :: rest
termination_by ts.length
decreasing_by
  · have := Group.length_rest_le rest.tail
    simp only [List.length_tail, List.length_cons] at *
    omega
  · have := Group.length_rest_le rest
    simp only [List.length_cons]
    omega

theorem length_skipHints_le (ts : List Token) : (skipHints ts).length ≤ ts.length := by
  fun_induction skipHints ts with
  | case1 => simp
  | case2 t rest _ ih =>
    have := Group.length_rest_le rest.tail
    simp only [List.length_tail, List.length_cons] at *
    omega
  | case3 t rest _ _ ih =>
    have := Group.length_rest_le rest
    simp only [List.length_cons]
    omega
  | case4 => simp

/-- The tokens behind a join condition: from the next join or comma on. -/
def skipCondition (ts : List Token) : List Token :=
  match ts with
  | [] => []
  | t :: rest =>
    if t.isOpen then skipCondition (Group.after rest).rest
    else if t.kind = .comma || Region.startsJoin t rest then t :: rest
    else skipCondition rest
termination_by ts.length
decreasing_by
  · have := Group.length_rest_le rest
    simp only [List.length_cons]
    omega
  · simp

theorem length_skipCondition_le (ts : List Token) : (skipCondition ts).length ≤ ts.length := by
  fun_induction skipCondition ts with
  | case1 => simp
  | case2 t rest _ ih =>
    have := Group.length_rest_le rest
    simp only [List.length_cons]
    omega
  | case3 => simp
  | case4 t rest _ _ ih =>
    simp only [List.length_cons]
    omega

/-! ### Tables -/

/-- A group of names behind an alias: the columns that the alias gives. -/
def columnNames (ts : List Token) : List ColumnRef × List Token :=
  match ts with
  | [] => ([], [])
  | t :: rest =>
    if t.isOpen then
      ((namesIn (Group.after rest).inner).map fun n => { name := n }, (Group.after rest).rest)
    else ([], t :: rest)

theorem length_columnNames_le (ts : List Token) : (columnNames ts).2.length ≤ ts.length := by
  unfold columnNames
  split
  · simp
  · next t rest =>
    have := Group.length_rest_le rest
    split <;> simp
    omega

/-- The tokens behind the arguments of a function in place of a table, if there are any. -/
def callArguments : List Token → Option (List Token)
  | [] => none
  | t :: rest =>
    if t.isOpen && !areHints (Group.after rest).inner then some (Group.after rest).rest else none

/-- A named table or a function call, with alias, hints and the columns that an alias gives to
the result of a function. -/
def namedTable (ts : List Token) : Option TableRef × List Token :=
  match tableName ts with
  | (none, rest) => (none, rest)
  | (some table, rest) =>
    let call := callArguments rest
    let (name, behindAlias) := tableAlias (skipHints (call.getD rest))
    let (columns, behindColumns) :=
      if name.isSome && call.isSome then columnNames behindAlias else ([], behindAlias)
    let after := skipHints behindColumns
    (some { table with
      aliasName := name
      isFunction := call.isSome
      columns := columns
      range := .taken ts after }, after)

theorem length_callArguments_le {ts rest : List Token} (h : callArguments ts = some rest) :
    rest.length ≤ ts.length := by
  unfold callArguments at h
  split at h
  · simp at h
  · next t ts =>
    have := Group.length_rest_le ts
    split at h
    · cases h
      simp only [List.length_cons]
      omega
    · simp at h

theorem length_namedTable_lt {t : Token} {ts : List Token} (h : t.isName) :
    (namedTable (t :: ts)).2.length < (t :: ts).length := by
  have hlt : (tableName (t :: ts)).2.length < (t :: ts).length := length_tableName_lt h
  unfold namedTable
  split
  · next rest heq => simpa [heq] using hlt
  · next table rest heq =>
    simp only [heq] at hlt
    have hcall : ((callArguments rest).getD rest).length ≤ rest.length := by
      cases hc : callArguments rest with
      | none => simp
      | some r => simpa using length_callArguments_le hc
    have hhints := length_skipHints_le ((callArguments rest).getD rest)
    have halias := length_tableAlias_le (skipHints ((callArguments rest).getD rest))
    dsimp only
    refine Nat.lt_of_le_of_lt (length_skipHints_le _) ?_
    split
    · have := length_columnNames_le (tableAlias (skipHints ((callArguments rest).getD rest))).2
      omega
    · dsimp only
      omega

/-! ### Lists of tables -/

/-- What a list of tables holds. -/
structure Sources where
  tables : List TableRef := []
  subqueries : List Subquery := []
  issues : List Issue := []
  /-- The ranks of the groups that hold the queries, or their indices where tokens are read by
  index. -/
  groups : List Nat := []

instance : Append Sources where
  append a b :=
    ⟨a.tables ++ b.tables, a.subqueries ++ b.subqueries, a.issues ++ b.issues, a.groups ++ b.groups⟩

/-- What a list holds, as part of a list with so many more tokens behind it. -/
def Sources.inFrontOf (more : Nat) (found : Sources) : Sources :=
  { found with groups := found.groups.map (· + more) }

/-- A query in parentheses in place of a table, where `ts` are the tokens behind the opening
parenthesis `t`. Without an alias there is no table; that is an issue unless the query is still
being typed. -/
def derivedTable (nested : List Token → Statement) (clause : Clause) (t : Token)
    (ts : List Token) : Option TableRef × Sources × List Token :=
  let group := Group.after ts
  let range := Range.ofTokens (t :: group.tokens)
  let (name, behindAlias) := tableAlias group.rest
  let (columns, rest) := if name.isSome then columnNames behindAlias else ([], behindAlias)
  let table := name.map fun n =>
    { name := n
      aliasName := some n
      isDerived := true
      columns := columns
      range := .taken (t :: ts) rest }
  let issues := if name.isNone && group.isClosed then [⟨.derivedTableWithoutAlias, range⟩] else []
  (table,
    { subqueries := [⟨name, .derived, some clause, range, nested group.inner⟩]
      issues := issues
      groups := [(t :: ts).length] },
    rest)

theorem length_derivedTable_le (nested : List Token → Statement) (clause : Clause) (t : Token)
    (ts : List Token) : (derivedTable nested clause t ts).2.2.length ≤ ts.length := by
  have hgroup := Group.length_rest_le ts
  have halias := length_tableAlias_le (Group.after ts).rest
  have hcolumns := length_columnNames_le (tableAlias (Group.after ts).rest).2
  unfold derivedTable
  dsimp only
  split
  · exact Nat.le_trans hcolumns (Nat.le_trans halias hgroup)
  · exact Nat.le_trans halias hgroup

/-- The tokens behind a `PIVOT` with its parentheses. Without them the list ends there. -/
def behindPivot (ts : List Token) : List Token :=
  if startsOpen ts then (tableAlias (Group.after ts.tail).rest).2 else []

theorem length_behindPivot_le (ts : List Token) : (behindPivot ts).length ≤ ts.length := by
  have hgroup := Group.length_rest_le ts.tail
  have halias := length_tableAlias_le (Group.after ts.tail).rest
  simp only [List.length_tail] at hgroup
  unfold behindPivot
  split
  · omega
  · simp

/-- The tables in a list separated by commas and joins. Parentheses that hold no query hold a list
again; join conditions are skipped. -/
def tableList (nested : List Token → Statement) (clause : Clause) (ts : List Token) : Sources :=
  match ts with
  | [] => {}
  | t :: rest =>
    if t.isKeyword .ON then tableList nested clause (skipCondition rest)
    else if t.isKeyword .AS then
      { issues := [⟨.aliasWithoutTable, t.range⟩] } ++ tableList nested clause rest.tail
    else if t.isAnyKeyword [.PIVOT, .UNPIVOT] then tableList nested clause (behindPivot rest)
    else if t.isOpen then
      let group := Group.after rest
      if startsQuery group.inner then
        let derived := derivedTable nested clause t rest
        derived.2.1 ++ { tables := derived.1.toList } ++ tableList nested clause derived.2.2
      else
        (tableList nested clause group.inner).inFrontOf (rest.length - group.inner.length) ++
          tableList nested clause group.rest
    else if _h : t.isName then
      let named := namedTable (t :: rest)
      { tables := named.1.toList } ++ tableList nested clause named.2
    else tableList nested clause rest
termination_by ts.length
decreasing_by
  · have := length_skipCondition_le rest
    simp only [List.length_cons]
    omega
  · simp only [List.length_tail, List.length_cons]
    omega
  · have := length_behindPivot_le rest
    simp only [List.length_cons]
    omega
  · exact Nat.lt_succ_of_le (length_derivedTable_le ..)
  · have := Group.length_inner_le rest
    simp only [List.length_cons]
    omega
  · have := Group.length_rest_le rest
    simp only [List.length_cons]
    omega
  · exact length_namedTable_lt _h
  · simp

/-! ### Targets -/

/-- The tokens behind the number of rows that follows `TOP`. -/
def skipRowCount : List Token → List Token
  | [] => []
  | t :: ts =>
    if t.isOpen then (Group.after ts).rest else if t.kind = .number then ts else t :: ts

theorem length_skipRowCount_le (ts : List Token) : (skipRowCount ts).length ≤ ts.length := by
  unfold skipRowCount
  split
  · simp
  · next t rest =>
    have := Group.length_rest_le rest
    simp only [List.length_cons]
    split
    · omega
    · split <;> simp

/-- The tokens behind the words that may stand between the verb of a DML statement and its
target. -/
def skipTargetWords (ts : List Token) : List Token :=
  match ts with
  | [] => []
  | t :: rest =>
    if t.isAnyKeyword [.INTO, .FROM, .PERCENT] then skipTargetWords rest
    else if t.isKeyword .TOP then skipTargetWords (skipRowCount rest)
    else t :: rest
termination_by ts.length
decreasing_by
  · simp
  · have := length_skipRowCount_le rest
    simp only [List.length_cons]
    omega

/-- The target of a DML statement, given the tokens behind its verb, and what else its head
holds. -/
def targetTable (nested : List Token → Statement) (ts : List Token) :
    Option TableRef × Sources :=
  match skipTargetWords ts with
  | [] => (none, {})
  | t :: rest =>
    if t.isOpen then
      let group := Group.after rest
      if startsQuery group.inner then
        let (table, found, _) := derivedTable nested .target t rest
        (table, found)
      else
        (none, (tableList nested .target group.inner).inFrontOf (rest.length - group.inner.length))
    else ((namedTable (t :: rest)).1, {})

end Tsql
