import Tsql.Proofs.Statement.Issues
import Tsql.Proofs.Statement.Joined
import Tsql.Proofs.Token.Parts

/-!
Queries of names only, and what is read of them.

The columns of such a query and its tables are dotted names with labels. Its clauses are the two
lists (`SimpleSelect.Parts.regions`). The list of columns is cut at its commas and each part read on
its own (`forall₂_splitTop`, `columnsFrom_items`); the list of tables is read in one pass, table by
table (`AreTables.holds_tableList`). So the query is read as it is meant
(`SimpleSelect.isReadAs_parse_of_spelled`).
-/

namespace Tsql

/-! ### Queries as they are written -/

/-- `[column]`, `[qualifier].[column]`, and either with `AS [label]`. -/
structure SelectItem where
  qualifier : Option String
  column : String
  label : Option String

namespace SelectItem

def written (i : SelectItem) : DottedItem :=
  ⟨i.qualifier.toList.map .bracketed, .bracketed i.column, i.label.map .bracketed⟩

/-- The name under which the column is selected. -/
def outputName (i : SelectItem) : String :=
  i.label.getD i.column

/-- The column that the item is. -/
def ref (i : SelectItem) : ColumnRef :=
  { name := i.outputName
    source := i.qualifier
    expression := if i.outputName = i.column then none else some i.column }

end SelectItem

/-- `[name]`, `[schema].[name]`, `[database].[schema].[name]`, and any of them with `AS [label]`. -/
structure ListedTable where
  database : Option String
  schema : Option String
  name : String
  label : Option String
  /-- A schema stands between the name of a database and that of the table. -/
  schema_of_database : database.isSome → schema.isSome
  schema_ne_empty : ∀ s ∈ schema, s ≠ ""

namespace ListedTable

def written (t : ListedTable) : DottedItem :=
  ⟨(t.database.toList ++ t.schema.toList).map .bracketed, .bracketed t.name,
    t.label.map .bracketed⟩

/-- The reference that the table is, without its place. An empty name is that of no database. -/
def ref (t : ListedTable) : TableRef :=
  { database := t.database.filter (· ≠ "")
    schema := t.schema
    name := t.name
    aliasName := t.label }

end ListedTable

/-- What stands between two tables. -/
inductive TableSeparator
  | comma
  | crossJoin

namespace TableSeparator

def text : TableSeparator → String
  | comma => ", "
  | crossJoin => " CROSS JOIN "

def spelled : TableSeparator → List (TokenKind × String)
  | comma => [(.comma, ",")]
  | crossJoin => [Keyword.CROSS.spelled, Keyword.JOIN.spelled]

end TableSeparator

/-- A query of columns from tables. -/
structure SimpleSelect where
  item : SelectItem
  items : List SelectItem
  table : ListedTable
  tables : List (TableSeparator × ListedTable)

namespace SelectItem

/-- Items with commas between them. -/
def listText (i : SelectItem) (is : List SelectItem) : String :=
  i.written.text ++ String.join (is.map fun i => ", " ++ i.written.text)

def listSpelled (i : SelectItem) (is : List SelectItem) : List (TokenKind × String) :=
  i.written.spelled ++ is.flatMap fun i => (.comma, ",") :: i.written.spelled

end SelectItem

namespace ListedTable

/-- Tables with what stands between them. -/
def listText (t : ListedTable) (ts : List (TableSeparator × ListedTable)) : String :=
  t.written.text ++ String.join (ts.map fun t => t.1.text ++ t.2.written.text)

def listSpelled (t : ListedTable) (ts : List (TableSeparator × ListedTable)) :
    List (TokenKind × String) :=
  t.written.spelled ++ ts.flatMap fun t => t.1.spelled ++ t.2.written.spelled

end ListedTable

namespace SimpleSelect

/-- All columns. -/
def columns (q : SimpleSelect) : List ColumnRef :=
  (q.item :: q.items).map SelectItem.ref

/-- All tables, without their places. -/
def refs (q : SimpleSelect) : List TableRef :=
  q.table.ref :: q.tables.map fun t => t.2.ref

def text (q : SimpleSelect) : String :=
  "SELECT " ++ q.item.listText q.items ++ " FROM " ++ q.table.listText q.tables

def spelled (q : SimpleSelect) : List (TokenKind × String) :=
  Keyword.SELECT.spelled ::
    (q.item.listSpelled q.items ++ Keyword.FROM.spelled :: q.table.listSpelled q.tables)

/-- The statement has the columns and the tables of the query, and no issues. -/
structure IsReadAs (q : SimpleSelect) (s : Statement) : Prop where
  columns : s.columns = q.columns
  tables : s.tables.map TableRef.unplaced = q.refs
  /-- A table is temporary if and only if its name begins with `#`. -/
  isTemp_iff : ∀ t ∈ s.tables, t.isTemp ↔ t.name.toList.head? = some '#'
  issues : s.issues = []

end SimpleSelect

/-! ### Reading a list of tables -/

/-- What a list of tables holds: the given tables and no issues. -/
structure Sources.Holds (found : Sources) (refs : List TableRef) : Prop where
  refs : found.refs = refs
  issues : found.issues = []

namespace ListedTable

/-- The parts of a listed table are its reference. -/
theorem ofParts_written (t : ListedTable) (range : Range) :
    TableRef.ofParts ((t.written.outer ++ [t.written.last.table]).map WrittenName.name) range =
      { t.ref with aliasName := none, range := range } := by
  obtain ⟨database, schema, name, label, hschema, hne⟩ := t
  have hempty : ∀ s : String, s.isEmpty = decide (s = "") :=
    fun s => Bool.eq_iff_iff.2 (by simp)
  cases schema with
  | none =>
      obtain rfl : database = none := by simpa using hschema
      simp [written, ref, TableRef.ofParts]
  | some s =>
      have hs : s ≠ "" := hne s rfl
      cases database <;> simp [written, ref, TableRef.ofParts, Option.filter, hempty, hs]

theorem exists_namedTable {t : ListedTable} {ts rest : List Token}
    (hts : ts.map Token.spelled = t.written.spelled) (h : EndsTable rest) :
    ∃ range, namedTable (ts ++ rest) = (some { t.ref with range := range }, rest) := by
  obtain ⟨range, hnamed⟩ := namedTable_dotted hts h
  have hlabel : t.written.last.label.map WrittenName.name = t.label := by
    cases hlabel : t.label <;> simp [written, hlabel]
  rw [t.ofParts_written, hlabel] at hnamed
  exact ⟨range, hnamed⟩

theorem holds_tableList (nested : List Token → Statement) (clause : Clause) {t : ListedTable}
    {ts rest : List Token} {refs : List TableRef} (hts : ts.map Token.spelled = t.written.spelled)
    (h : EndsTable rest) (hrest : (tableList nested clause rest).Holds refs) :
    (tableList nested clause (ts ++ rest)).Holds (t.ref :: refs) := by
  obtain ⟨range, hnamed⟩ := exists_namedTable hts h
  obtain ⟨n, ns, rfl, hname⟩ := DottedItem.exists_name hts
  rw [List.cons_append] at hnamed ⊢
  rw [tableList_name nested clause hname, hnamed]
  refine ⟨?_, hrest.issues⟩
  rw [Sources.refs_append, hrest.refs]
  rfl

end ListedTable

namespace TableSeparator

variable {s : TableSeparator}

theorem isLinkWord {t : Token} (h : t.spelled ∈ s.spelled) : t.isLinkWord := by
  have hkind : t.kind = .comma ∨ t.kind = .keyword .CROSS ∨ t.kind = .keyword .JOIN := by
    cases s <;> simp_all [spelled, Token.spelled, Keyword.spelled]
    tauto
  rcases hkind with hkind | hkind | hkind <;>
  simp [Token.isLinkWord, Token.isAnyKeyword, hkind, Region.joinWords]

theorem isLinkWord_of_map {ts : List Token} (h : ts.map Token.spelled = s.spelled) :
    ∀ t ∈ ts, t.isLinkWord :=
  fun _ ht => isLinkWord (h ▸ List.mem_map_of_mem ht)

theorem exists_cons {ts : List Token} (h : ts.map Token.spelled = s.spelled) :
    ∃ t us, ts = t :: us := by
  refine List.exists_cons_of_ne_nil fun hnil => ?_
  cases s <;> simp [hnil, spelled] at h

end TableSeparator

/-- The tokens of the tables behind the first one. -/
def AreTables (tables : List (TableSeparator × ListedTable)) (ts : List Token) : Prop :=
  ts.map Token.spelled = tables.flatMap fun t => t.1.spelled ++ t.2.written.spelled

namespace AreTables

variable {tables : List (TableSeparator × ListedTable)} {ts : List Token}

theorem exists_parts {s : TableSeparator} {t : ListedTable} (h : AreTables ((s, t) :: tables) ts) :
    ∃ hs is us, ts = hs ++ (is ++ us) ∧ hs.map Token.spelled = s.spelled ∧
      is.map Token.spelled = t.written.spelled ∧ AreTables tables us := by
  obtain ⟨front, us, rfl, hfront, hus⟩ := List.map_eq_append_iff.1 h
  obtain ⟨hs, is, rfl, hhs, his⟩ := List.map_eq_append_iff.1 hfront
  exact ⟨hs, is, us, List.append_assoc hs is us, hhs, his, hus⟩

theorem endsTable (h : AreTables tables ts) : EndsTable ts := by
  cases tables with
  | nil =>
      obtain rfl := List.map_eq_nil_iff.1 h
      exact fun t ht => by contradiction
  | cons t tables =>
      obtain ⟨hs, is, us, rfl, hhs, -, -⟩ := h.exists_parts
      obtain ⟨j, js, rfl⟩ := TableSeparator.exists_cons hhs
      have hj := TableSeparator.isLinkWord_of_map hhs j List.mem_cons_self
      intro u hu
      obtain rfl := Option.some.inj hu
      simp [Token.endsTable, hj]

/-- Behind the first table the list is read to its end. -/
theorem holds_tableList (h : AreTables tables ts) (nested : List Token → Statement)
    (clause : Clause) : (tableList nested clause ts).Holds (tables.map fun t => t.2.ref) := by
  induction tables generalizing ts with
  | nil =>
      obtain rfl := List.map_eq_nil_iff.1 h
      rw [tableList]
      exact ⟨rfl, rfl⟩
  | cons t tables ih =>
      obtain ⟨hs, is, us, rfl, hhs, his, hus⟩ := h.exists_parts
      rw [tableList_linkWords nested clause (TableSeparator.isLinkWord_of_map hhs)]
      exact ListedTable.holds_tableList nested clause his hus.endsTable (ih hus)

end AreTables

/-! ### Reading columns -/

section

variable {ts : List Token}

theorem splitAlias_label {expression : List Token} {as a : Token} (hne : expression ≠ [])
    (has : as.kind = .keyword .AS) (ha : a.isName) :
    splitAlias (expression ++ [as, a]) = (expression, some a.text) := by
  have hrest : expression.reverse.isEmpty = false := by simpa using hne
  simp [splitAlias, Token.isKeyword, has, ha, hrest]

theorem splitAlias_qualified {q d c : Token} (hd : d.kind = .dot) (hc : c.isName) :
    splitAlias [q, d, c] = ([q, d, c], none) := by
  obtain ⟨-, hword⟩ := Token.of_isName hc
  simp [splitAlias, Token.isKeyword, Token.endsExpression, Token.isName, Token.isClose,
    Token.isAnyKeyword, hd, hword]

/-- An item that begins with a name is split at its label, if no `=` follows the name. -/
theorem itemParts?_name {n t : Token} (hn : n.isName) (ht : t.kind ≠ .operator) (ts : List Token) :
    itemParts? (n :: t :: ts) = some (splitAlias (n :: t :: ts)) := by
  obtain ⟨-, hword⟩ := Token.of_isName hn
  simp [itemParts?, Token.isKeyword, Token.isOperator, hword, ht]

/-- The tokens are the column of the item with its qualifier. -/
def SelectItem.IsPath (i : SelectItem) (ts : List Token) : Prop :=
  ts.map Token.spelled = DottedItem.dotted i.written.outer ++ [i.written.last.table.spelled]

namespace SelectItem.IsPath

variable {i : SelectItem}

theorem cases (h : i.IsPath ts) :
    (i.qualifier = none ∧ ∃ c, ts = [c] ∧ c.isName ∧ c.text = i.column) ∨
      ∃ q d c, i.qualifier = some q.text ∧ ts = [q, d, c] ∧ q.isName ∧ d.kind = .dot ∧ c.isName ∧
        c.text = i.column := by
  obtain ⟨qualifier, column, label⟩ := i
  cases qualifier with
  | none =>
      obtain ⟨c, rfl, hc⟩ := List.map_eq_singleton_iff.1 h
      exact .inl ⟨rfl, c, rfl, Token.of_spelled hc⟩
  | some q =>
      obtain ⟨n, ts, rfl, hn, hts⟩ := List.map_eq_cons_iff.1 h
      obtain ⟨d, ts, rfl, hd, hts⟩ := List.map_eq_cons_iff.1 hts
      obtain ⟨c, rfl, hc⟩ := List.map_eq_singleton_iff.1 hts
      obtain ⟨hname, htext⟩ := Token.of_spelled hn
      exact .inr ⟨n, d, c, congrArg some htext.symm, rfl, hname, congrArg Prod.fst hd,
        Token.of_spelled hc⟩

theorem columnPath?_eq (h : i.IsPath ts) : columnPath? ts = some (i.column, i.qualifier) := by
  rcases h.cases with ⟨hq, c, rfl, hc, htext⟩ | ⟨q, d, c, hq, rfl, hname, hd, hc, htext⟩
  · simp [columnPath?, hc, htext, hq]
  · simp [columnPath?, hname, hd, hc, htext, hq]

/-- The path ends in a name, so in no star. -/
theorem starColumn?_eq_none (h : i.IsPath ts) : starColumn? ts = none := by
  have hstar : ∀ {c : Token}, c.isName → c.isOperator "*" = false := by
    intro c hc
    unfold Token.isName at hc
    cases hkind : c.kind <;> simp_all [Token.isOperator]
  rcases h.cases with ⟨-, c, rfl, hc, -⟩ | ⟨q, d, c, -, rfl, -, -, hc, -⟩ <;>
  simp [starColumn?, hstar hc]

/-- The column that a path gives, with the label as its name if there is one. -/
theorem ofExpression_eq (h : i.IsPath ts) (placeholder : String) :
    ColumnRef.ofExpression ts i.label placeholder = i.ref := by
  rw [ColumnRef.ofExpression, h.starColumn?_eq_none, h.columnPath?_eq]
  rfl

end SelectItem.IsPath

/-- An item is its path and its label. -/
theorem itemParts?_written {i : SelectItem} (h : ts.map Token.spelled = i.written.spelled) :
    ∃ path, itemParts? ts = some (path, i.label) ∧ i.IsPath path := by
  obtain ⟨path, us, rfl, hpath, hus⟩ := DottedItem.exists_label h
  have hpath : i.IsPath path := hpath
  refine ⟨path, ?_, hpath⟩
  cases hlabel : i.label with
  | none =>
      simp only [SelectItem.written, hlabel, Option.map_none, Option.elim_none,
        List.map_eq_nil_iff] at hus
      rw [hus, List.append_nil]
      rcases hpath.cases with ⟨-, c, rfl, hc, -⟩ | ⟨q, d, c, -, rfl, hname, hd, hc, -⟩
      · obtain ⟨-, hword⟩ := Token.of_isName hc
        simp [itemParts?, Token.isKeyword, hword]
      · rw [itemParts?_name hname (by simp [hd]), splitAlias_qualified hd hc]
  | some a =>
      simp only [SelectItem.written, hlabel, Option.map_some, Option.elim_some] at hus
      obtain ⟨as, vs, rfl, has, hvs⟩ := List.map_eq_cons_iff.1 hus
      obtain ⟨l, rfl, hl⟩ := List.map_eq_singleton_iff.1 hvs
      obtain ⟨hname, htext⟩ := Token.of_spelled hl
      have has : as.kind = .keyword .AS := congrArg Prod.fst has
      have hsplit : splitAlias (path ++ [as, l]) = (path, some a) := by
        rw [splitAlias_label ?_ has hname, htext]
        · rfl
        · rcases hpath.cases with ⟨-, c, rfl, -⟩ | ⟨q, d, c, -, rfl, -⟩ <;> simp
      rw [← hsplit]
      rcases hpath.cases with ⟨-, c, rfl, hc, -⟩ | ⟨q, d, c, -, rfl, hq, hd, -, -⟩
      · exact itemParts?_name hc (by simp [has]) [l]
      · exact itemParts?_name hq (by simp [hd]) _

/-- The tokens are those of the item. -/
def SelectItem.IsRead (i : SelectItem) (ts : List Token) : Prop :=
  ts.map Token.spelled = i.written.spelled

theorem columnsFrom_items {items : List SelectItem} {parts : List (List Token)}
    (h : List.Forall₂ SelectItem.IsRead items parts) (unnamed : Nat) :
    columnsFrom unnamed parts = items.map SelectItem.ref := by
  induction h generalizing unnamed with
  | nil => rfl
  | cons hitem _ ih =>
      obtain ⟨path, hparts, hpath⟩ := itemParts?_written hitem
      simp only [columnsFrom, hparts, hpath.ofExpression_eq, ih, List.map_cons]

/-- An item begins with a name, not with `AS`. -/
theorem selectIssues_items {items : List SelectItem} {parts : List (List Token)}
    (h : List.Forall₂ SelectItem.IsRead items parts) : selectIssues parts = [] := by
  induction h with
  | nil => rfl
  | cons hitem _ ih =>
      obtain ⟨n, ns, rfl, hname⟩ := DottedItem.exists_name hitem
      obtain ⟨-, hword⟩ := Token.of_isName hname
      have hnone : n.isKeyword .AS = false := by simp [Token.isKeyword, hword]
      simpa [selectIssues, hnone] using ih

/-- A list of items is cut into them. -/
theorem forall₂_splitTop {i : SelectItem} {items : List SelectItem}
    (h : ts.map Token.spelled = i.listSpelled items) :
    List.Forall₂ SelectItem.IsRead (i :: items) (splitTop .comma 0 ts) := by
  induction items generalizing i ts with
  | nil =>
      have his : i.IsRead ts := by simpa [SelectItem.IsRead, SelectItem.listSpelled] using h
      have hparts := DottedItem.isPart_of_map his
      have huncut : Uncut .comma 0 ts := .of_ne (fun t ht => (hparts t ht).kind_ne_comma) 0
      rw [splitTop_of_uncut huncut]
      exact .cons his .nil
  | cons j items ih =>
      obtain ⟨is, us, rfl, his, hus⟩ := List.map_eq_append_iff.1 h
      rw [List.flatMap_cons, List.cons_append] at hus
      obtain ⟨c, us, rfl, hc, hus⟩ := List.map_eq_cons_iff.1 hus
      -- No comma stands in an item, so the next one is that behind it.
      have hparts := DottedItem.isPart_of_map his
      have huncut : Uncut .comma 0 is := .of_ne (fun t ht => (hparts t ht).kind_ne_comma) 0
      have hflat : depthAfter 0 is = 0 := depthAfter_eq_self (fun t ht => (hparts t ht).isFlat) 0
      rw [splitTop_append_separator huncut hflat (congrArg Prod.fst hc)]
      exact .cons his (ih hus)

/-- No word in front of a list of items is taken for one that changes what is selected. -/
theorem skipSelectWords_name {n : Token} (h : n.isName) (ts : List Token) :
    skipSelectWords (n :: ts) = n :: ts := by
  obtain ⟨-, hword⟩ := Token.of_isName h
  rw [skipSelectWords]
  simp [Token.isAnyKeyword_of_ne hword, Token.isKeyword, hword]

end

/-! ### Queries -/

namespace Region

/-- Tokens that go on with a list of tables are not cut. -/
theorem cut_sources {s : State} {ts : List Token} (h : ∀ t ∈ ts, t.Continues ∨ t.isLinkWord)
    (hlast : s.last = some .sources) : cut .select s ts = (ts, []) := by
  induction ts generalizing s with
  | nil => rw [cut]
  | cons t ts ih =>
      obtain ⟨ht, hts⟩ := List.forall_mem_cons.1 h
      have hopen : startsOpen ts = false := by
        cases ts with
        | nil => rfl
        | cons u us =>
            rcases hts u List.mem_cons_self with hu | hu
            · exact hu.1
            · exact (Token.of_endsTable (t := u) (by simp [Token.endsTable, hu])).2.1
      -- Neither kind of token changes the clause, which is all that the state has to keep.
      obtain ⟨s', hlast', hcut⟩ : ∃ s' : State, s'.last = some .sources ∧
          cut .select s ([t] ++ ts) = ([t] ++ (cut .select s' ts).1, (cut .select s' ts).2) := by
        rcases ht with ht | ht
        · obtain ⟨s', hlast', hcut⟩ := cut_continues (List.forall_mem_singleton.2 ht) .select s ts
          exact ⟨s', hlast'.trans hlast, hcut⟩
        · exact cut_linkWords (List.forall_mem_singleton.2 ht) hopen hlast
      rw [← List.singleton_append, hcut, ih hts hlast']

end Region

theorem Token.of_isLinkWord {t : Token} (h : t.isLinkWord) :
    t.isOpen = false ∧ t.isClose = false := by
  unfold Token.isLinkWord Token.isAnyKeyword at h
  cases hkind : t.kind <;> simp_all [Token.isOpen, Token.isClose]

theorem SelectItem.isPart_or_comma {i : SelectItem} {is : List SelectItem} {t : Token}
    (h : t.spelled ∈ i.listSpelled is) : DottedItem.IsPart t ∨ t.kind = .comma := by
  rcases List.mem_append.1 h with hi | his
  · exact .inl (DottedItem.isPart_of_mem hi)
  · obtain ⟨j, -, hj⟩ := List.mem_flatMap.1 his
    rcases List.mem_cons.1 hj with hcomma | hj
    · exact .inr (congrArg Prod.fst hcomma)
    · exact .inl (DottedItem.isPart_of_mem hj)

theorem ListedTable.isPart_or_isLinkWord {t : ListedTable}
    {ts : List (TableSeparator × ListedTable)} {u : Token} (h : u.spelled ∈ t.listSpelled ts) :
    DottedItem.IsPart u ∨ u.isLinkWord := by
  rcases List.mem_append.1 h with ht | hts
  · exact .inl (DottedItem.isPart_of_mem ht)
  · obtain ⟨v, -, hv⟩ := List.mem_flatMap.1 hts
    rcases List.mem_append.1 hv with hseparator | hv
    · exact .inr (TableSeparator.isLinkWord hseparator)
    · exact .inl (DottedItem.isPart_of_mem hv)

namespace SimpleSelect

/-- The two words and the two lists of the query. -/
structure Parts (q : SimpleSelect) (select : Token) (is : List Token) (sources : Token)
    (us : List Token) : Prop where
  select_kind : select.kind = .keyword .SELECT
  items : is.map Token.spelled = q.item.listSpelled q.items
  sources_kind : sources.kind = .keyword .FROM
  tables : us.map Token.spelled = q.table.listSpelled q.tables

variable {q : SimpleSelect}

theorem exists_parts {ts : List Token} (h : ts.map Token.spelled = q.spelled) :
    ∃ select is sources us,
      ts = select :: (is ++ sources :: us) ∧ q.Parts select is sources us := by
  obtain ⟨select, ts, rfl, hselect, hts⟩ := List.map_eq_cons_iff.1 h
  obtain ⟨is, ts, rfl, his, hts⟩ := List.map_eq_append_iff.1 hts
  obtain ⟨sources, us, rfl, hsources, hus⟩ := List.map_eq_cons_iff.1 hts
  exact ⟨select, is, sources, us, rfl, congrArg Prod.fst hselect, his, congrArg Prod.fst hsources,
    hus⟩

namespace Parts

variable {select sources : Token} {is us : List Token} (h : q.Parts select is sources us)

include h

theorem startsSelect : startsSelect (select :: (is ++ sources :: us)) := by
  simp [Tsql.startsSelect, Token.isKeyword, h.select_kind]

/-- The clauses of the query are its two lists. -/
theorem regions : (Region.cut .select {} (select :: (is ++ sources :: us))).2 =
    [⟨.select, select, is⟩, ⟨.sources, sources, us⟩] := by
  have hitems : ∀ t ∈ is, t.Continues := by
    intro t ht
    rcases SelectItem.isPart_or_comma (h.items ▸ List.mem_map_of_mem ht) with hpart | hcomma
    · exact hpart.continues
    · exact Token.continues_of_ne (by simp [Token.isOpen, hcomma]) (by simp [hcomma])
  have htables : ∀ u ∈ us, u.Continues ∨ u.isLinkWord := by
    intro u hu
    exact (ListedTable.isPart_or_isLinkWord (h.tables ▸ List.mem_map_of_mem hu)).imp_left
      DottedItem.IsPart.continues
  obtain ⟨s, hlast, hcut⟩ :=
    Region.exists_cut_select h.select_kind hitems h.sources_kind us
  rw [hcut, Region.cut_sources htables hlast]

theorem isFlat : IsFlat (select :: (is ++ sources :: us)) := by
  intro t ht
  simp only [List.mem_cons, List.mem_append] at ht
  rcases ht with rfl | ht | rfl | ht
  · simp [Token.isOpen, Token.isClose, h.select_kind]
  · rcases SelectItem.isPart_or_comma (h.items ▸ List.mem_map_of_mem ht) with hpart | hcomma
    · exact hpart.isFlat
    · simp [Token.isOpen, Token.isClose, hcomma]
  · simp [Token.isOpen, Token.isClose, h.sources_kind]
  · rcases ListedTable.isPart_or_isLinkWord (h.tables ▸ List.mem_map_of_mem ht) with hpart | hlink
    · exact hpart.isFlat
    · exact Token.of_isLinkWord hlink

/-- Each item gives its column, and none an issue. -/
theorem columnsFrom_items :
    columnsFrom 0 (selectItems is) = q.columns ∧ selectIssues (selectItems is) = [] := by
  have hparts := forall₂_splitTop h.items
  obtain ⟨ts, vs, rfl, hts, -⟩ := List.map_eq_append_iff.1 h.items
  obtain ⟨n, ns, rfl, hname⟩ := DottedItem.exists_name hts
  rw [selectItems, List.cons_append, skipSelectWords_name hname, ← List.cons_append]
  exact ⟨columnsFrom_items hparts 0, selectIssues_items hparts⟩

/-- The two lists hold the tables of the query. -/
theorem holds (nested : List Token → Statement) :
    (Sources.ofRegions nested false
      [⟨.select, select, is⟩, ⟨.sources, sources, us⟩]).Holds q.refs := by
  obtain ⟨ts, vs, rfl, hts, hvs⟩ := List.map_eq_append_iff.1 h.tables
  have hvs : AreTables q.tables vs := hvs
  have hlist := ListedTable.holds_tableList nested .sources hts hvs.endsTable
    (hvs.holds_tableList nested .sources)
  have hstarts : (Region.mk .sources sources (ts ++ vs)).startsFrom := by
    simp [Region.startsFrom, Token.isKeyword, h.sources_kind]
  simp only [Sources.ofRegions, hstarts, if_true, Bool.false_eq_true, if_false,
    h.columnsFrom_items.2]
  constructor
  · rw [Sources.refs_append, Sources.refs_append, Sources.refs_inFrontOf, Sources.refs_inFrontOf,
      hlist.refs]
    exact List.append_nil _
  · rw [Sources.issues_append, Sources.issues_append, Sources.issues_inFrontOf,
      Sources.issues_inFrontOf, hlist.issues]
    rfl

end Parts

/-- Whatever the layout of the query, it is read as it is meant. -/
theorem isReadAs_parse_of_spelled {ts : List Token} (h : ts.map Token.spelled = q.spelled) :
    q.IsReadAs (Statement.parse ts) := by
  obtain ⟨select, is, sources, us, rfl, hparts⟩ := exists_parts h
  have hfound := hparts.holds (Statement.ofQuery Statement.maxNesting)
  have hselect := hparts.startsSelect
  have hquery := (Statement.isQueryOf_build (Statement.ofQuery Statement.maxNesting)
    hselect).markedIn []
  constructor
  · rw [Statement.parse, hquery.columns, hparts.regions]
    exact hparts.columnsFrom_items.1
  · refine Statement.unplaced_tables_parse hselect ?_ ?_
    · rw [hparts.regions, hfound.refs]
    · intro t ht
      rcases List.mem_cons.1 ht with rfl | ht
      · rfl
      · obtain ⟨listed, -, rfl⟩ := List.mem_map.1 ht
        rfl
  · exact fun t _ => t.isTemp_iff
  · have hwith : select.isKeyword .WITH = false := by simp [Token.isKeyword, hparts.select_kind]
    have hlayout : (Layout.ofTokens .select [] (select :: (is ++ sources :: us))).regions =
        [⟨.select, select, is⟩, ⟨.sources, sources, us⟩] := hparts.regions
    rw [Statement.parse, Statement.issues_markedIn, Statement.issues_build _ hwith hparts.isFlat,
      Statement.kind_of_startsSelect hselect, hlayout, hfound.issues, List.append_nil]
    simp [duplicateFroms]

end SimpleSelect

end Tsql
