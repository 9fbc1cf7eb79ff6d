import Tsql.Catalog.Sample
import Tsql.Proofs.Buffer.Databases
import Tsql.Proofs.Completion.FilterText
import Tsql.Proofs.Completion.Temporaries
import Tsql.Proofs.Statement.Marks

/-!
What is offered for a half-typed name behind an alias.

In `SELECT * FROM t a WHERE a.p` the columns of `t` are offered behind the dot, whatever has been
typed of the name, unless it ends in a keyword that ends the `WHERE` clause
(`detect_filterText_iff`): one that opens a statement, or one that begins another clause.
-/

namespace Tsql

open Text Scan

namespace Keyword

/-- The keywords that end a `WHERE` clause although nothing stands behind them: those that open a
statement, and those that begin another clause. -/
def leavesFilter : List Keyword :=
  [.SELECT, .INSERT, .UPDATE, .DELETE, .MERGE, .CREATE, .ALTER, .DROP, .TRUNCATE, .DECLARE, .SET,
   .EXEC, .EXECUTE, .USE, .IF, .WHILE, .PRINT, .FROM, .ON, .HAVING, .UNION, .EXCEPT, .INTERSECT]

theorem mem_leavesFilter (k : Keyword) :
    k ∈ leavesFilter ↔ Split.Mark.ofTyped k = .opens ∨
      Split.Mark.ofTyped k = .continues ∧ k ∈ Region.clauseWords := by
  have hall : ∀ k ∈ all, k ∈ leavesFilter ↔ Split.Mark.ofTyped k = .opens ∨
      Split.Mark.ofTyped k = .continues ∧ k ∈ Region.clauseWords := by
    decide +kernel
  exact hall k (mem_all k)

end Keyword

/-! ### The statements of the query -/

namespace Statement

theorem ctes_markedIn_of_eq_nil {s : Statement} (h : s.ctes = []) (visible : List String) :
    (s.markedIn visible).ctes = [] := by
  rw [ctes_markedIn, h, Cte.markedIn]

theorem IsFilterQuery.markedIn {s : Statement} {t a : String} (h : s.IsFilterQuery t a) :
    (s.markedIn []).IsFilterQuery t a := by
  obtain ⟨range, htables⟩ := h.tables
  refine ⟨?_, ctes_markedIn_of_eq_nil h.ctes [], ?_, ?_, range, ?_⟩
  · rw [Statement.markedIn]
    exact h.kind
  · rw [subqueries_markedIn, h.subqueries]
    rfl
  · rw [Statement.markedIn]
    exact h.issues
  · rw [Statement.markedIn]
    simp [h.ctes, htables, TableRef.markedIn]

end Statement

namespace Buffer.IsReadFrom

variable {s : Statement} {ts : List Token} (h : IsReadFrom s ts)

include h

theorem clauseAt? (p : Position) :
    s.clauseAt? p = (Statement.build (.ofQuery Statement.maxNesting) ts).clauseAt? p := by
  rw [h, Statement.clauseAt?, Statement.inBatch, Statement.parse, Statement.markedIn]
  rfl

theorem nested_eq_nil
    (hctes : (Statement.build (.ofQuery Statement.maxNesting) ts).ctes = [])
    (hsubqueries : (Statement.build (.ofQuery Statement.maxNesting) ts).subqueries = []) :
    s.ctes = [] ∧ s.subqueries = [] := by
  have hctes' : (Statement.parse ts).ctes = [] := Statement.ctes_markedIn_of_eq_nil hctes []
  have hsubqueries' : (Statement.parse ts).subqueries = [] := by
    rw [Statement.parse, Statement.subqueries_markedIn, hsubqueries]
    rfl
  rw [h, Statement.inBatch]
  dsimp only
  rw [hctes', hsubqueries']
  exact ⟨rfl, rfl⟩

theorem isFilterQuery {t a : String}
    (hquery : (Statement.build (.ofQuery Statement.maxNesting) ts).IsFilterQuery t a) :
    s.IsFilterQuery t a := by
  obtain ⟨hctes, hsubqueries⟩ := nested_eq_nil h hquery.ctes hquery.subqueries
  have hparse : (Statement.parse ts).IsFilterQuery t a := hquery.markedIn
  refine ⟨?_, hctes, hsubqueries, ?_, ?_⟩
  · rw [h, Statement.inBatch]
    exact hparse.kind
  · rw [h, Statement.inBatch]
    exact hparse.issues
  · rw [h, Statement.inBatch]
    exact hparse.tables

end Buffer.IsReadFrom

/-- A cursor continues the last statement if nothing behind that statement has ended it. -/
theorem CursorSite.statement?_of_concat {c : CursorSite} {b : Buffer} {ss : List Statement}
    {s : Statement} (h : b.statements = ss ++ [s]) (hstart : s.range.start < c.position)
    (hsemicolon : (c.before.getLast?.any fun t => t.kind = .semicolon) = false)
    (hinside : ∀ t ∈ c.before, t.start < s.range.stop) : c.statement? b = some s := by
  have hlast : b.statements.reverse.find? (fun s => s.range.start < c.position) = some s := by
    rw [h]
    exact find?_reverse_of_last ss (decide_eq_true hstart) (List.forall_mem_nil _)
  have hended : (c.before.any fun t => s.range.stop ≤ t.start) = false := by
    rw [List.any_eq_false]
    intro t ht
    simpa [Position.not_le] using hinside t ht
  rw [statement?, hlast, Option.filter_some, hsemicolon, hended]
  rfl

namespace FilterSite

variable {t a p : String} (f : FilterSite t a p)

theorem statementTokens_eq :
    Buffer.statementTokens (filterText t a p) =
      (splitStatements (f.head.tokens ++ f.rest)).map Split.Segment.tokens := by
  rw [Buffer.statementTokens, Buffer.batchTokens, f.separators, f.maskedTokens,
    Buffer.tokensBetween, List.flatMap_singleton]

/-- The tokens stand in the order of the text. -/
theorem isOrdered_tokens : IsOrdered (f.head.tokens ++ f.rest) := by
  obtain ⟨es, -, -, htokens⟩ := Buffer.exists_uncommented_mask (filterText t a p)
  rw [← f.maskedTokens, htokens]
  exact Elements.isOrdered_tokensFrom .origin es

theorem start_le : ∀ u ∈ f.head.tokens ++ f.rest, u.start ≤ (filterSite t a p).position :=
  fun u hu => Position.le_trans (Position.le_of_lt (f.isOrdered_tokens.start_lt_stop u hu)) (f.stop_le u hu)

/-- The cursor continues the last statement, as long as something of it has been typed behind the
head. -/
theorem exists_statement? (database : Option String) (front : List (List Token)) {us : List Token}
    (h : Buffer.statementTokens (filterText t a p) = front ++ [us])
    (hreach : ∃ u ∈ us, u ∈ f.rest) :
    ∃ s, (filterSite t a p).statement? (.parse (filterText t a p) database) = some s ∧
      Buffer.IsReadFrom s us ∧ (front = [] → s.database = s.selected?.or database) := by
  obtain ⟨u, hu, hrest⟩ := hreach
  obtain ⟨ss, s, hss, hlength, hreads⟩ := Buffer.exists_reads_of_concat h database
  obtain ⟨hstart, hstop⟩ := Buffer.range_of_mem hreads.isReadFrom hreads.mem hu
  have hmem : u ∈ f.head.tokens ++ f.rest := List.mem_append_right _ hrest
  have hlt := f.isOrdered_tokens.start_lt_stop u hmem
  refine ⟨s, CursorSite.statement?_of_concat hss ?_ ?_ ?_, hreads.isReadFrom, ?_⟩
  · exact Position.lt_of_le_of_lt hstart (Position.lt_of_lt_of_le hlt (f.stop_le u hmem))
  · rw [f.before]
    simp [FilterHead.tokens, f.head.filter_kind]
  · rw [f.before]
    intro v hv
    -- the token of the statement is behind the head
    have hbehind := (List.pairwise_append.1 f.isOrdered_tokens.pairwise).2.2 v hv u hrest
    have hv := f.isOrdered_tokens.start_lt_stop v (List.mem_append_left _ hv)
    exact Position.lt_of_lt_of_le hv
      (Position.le_trans hbehind (Position.le_trans (Position.le_of_lt hlt) hstop))
  · rintro rfl
    obtain rfl := List.eq_nil_of_length_eq_zero hlength
    exact Buffer.database_of_statements_cons hss

/-! ### What has been typed -/

include f

theorem isFlat_tokens : IsFlat (f.head.tokens ++ f.rest) := by
  have hrest : IsFlat f.rest := by
    rcases f.rest_plain with ⟨-, hplain, -⟩ | ⟨k, ts, w, -, heq, hplain, -, hw⟩
    · exact isFlat_of_isPlain hplain
    · rw [heq]
      intro u hu
      rcases List.mem_append.1 hu with hu | hu
      · exact (hplain u hu).flat
      · obtain rfl := List.mem_singleton.1 hu
        exact Token.flat_of_keyword hw
  intro u hu
  exact (List.mem_append.1 hu).elim (f.head.isFlat_tokens u) (hrest u)

/-- The text is one query, and the cursor is in its `WHERE` clause. -/
theorem exists_query {us tail : List Token} {later : List Region}
    (hts : Buffer.statementTokens (filterText t a p) = [f.head.tokens ++ us])
    (hne : us ≠ []) (hsub : us ⊆ f.rest)
    (hcut : (Region.cut .select {} (f.head.tokens ++ us)).2 = f.head.regions tail ++ later)
    (hlater : ∀ r ∈ later, r.clause = .filter) (database : Option String) :
    ∃ s, (filterSite t a p).statement? (.parse (filterText t a p) database) = some s ∧
      s.IsFilterQuery t a ∧ s.clauseAt? (filterSite t a p).position = some .filter ∧
        s.database = database := by
  obtain ⟨u, hu⟩ := List.exists_mem_of_ne_nil us hne
  have hsub' : f.head.tokens ++ us ⊆ f.head.tokens ++ f.rest :=
    List.append_subset.2 ⟨List.subset_append_left _ _, List.subset_append_of_subset_right _ hsub⟩
  obtain ⟨s, hs, hread, hdatabase⟩ := f.exists_statement? database [] hts
    ⟨u, List.mem_append_right _ hu, hsub hu⟩
  have hquery := hread.isFilterQuery
    (f.head.isFilterQuery_build _ (f.isFlat_tokens.mono hsub') hcut hlater)
  refine ⟨s, hs, hquery, ?_, ?_⟩
  · rw [hread.clauseAt?, f.head.clauseAt?_build _ fun u hu => f.start_le u (hsub' hu), hcut]
    exact f.head.getLast?_regions hlater
  · rw [hdatabase rfl, Statement.selected?, hquery.kind]
    rfl

/-- Nothing that leaves the clause has been typed. -/
theorem exists_query_of_notMem
    (h : ∀ k, typedKeyword? p.toList = some k → k ∉ Keyword.leavesFilter)
    (database : Option String) :
    ∃ s, (filterSite t a p).statement? (.parse (filterText t a p) database) = some s ∧
      s.IsFilterQuery t a ∧ s.clauseAt? (filterSite t a p).position = some .filter ∧
        s.database = database := by
  have htokens := f.statementTokens_eq
  rcases f.rest_plain with ⟨-, hplain, hne⟩ | ⟨k, ts, w, hsome, heq, hplain, hne, hw⟩
  · obtain ⟨tail, hcut⟩ := f.head.exists_regions hplain
    rw [f.head.map_splitStatements hplain] at htokens
    exact f.exists_query htokens hne (List.Subset.refl _)
      (hcut.trans (List.append_nil _).symm) (List.forall_mem_nil _) database
  · obtain ⟨hopens, hclause⟩ := not_or.1 (mt (Keyword.mem_leavesFilter k).2 (h k hsome))
    rw [heq, f.head.map_splitStatements_keyword hplain hne hw] at htokens
    cases hmark : Split.Mark.ofTyped k with
    | opens => exact absurd hmark hopens
    | continues =>
        rw [hmark] at htokens
        obtain ⟨tail, later, hcut, hlater, -⟩ := f.head.exists_regions_keyword hplain hw
        exact f.exists_query htokens (List.append_ne_nil_of_left_ne_nil hne _)
          (heq ▸ List.Subset.refl _) hcut (hlater fun hmem => hclause ⟨hmark, hmem⟩) database
    | delimits =>
        rw [hmark] at htokens
        obtain ⟨tail, hcut⟩ := f.head.exists_regions hplain
        exact f.exists_query htokens hne (heq ▸ List.subset_append_left ts [w])
          (hcut.trans (List.append_nil _).symm) (List.forall_mem_nil _) database

/-- The typed keyword is a statement of its own, which has no `WHERE`. -/
theorem exists_statement?_of_opens {ts : List Token} {w : Token} {k : Keyword}
    (hmem : w ∈ f.rest) (hw : w.kind = .keyword k) (hk : k ∈ Keyword.leavesFilter)
    (hts : Buffer.statementTokens (filterText t a p) = [f.head.tokens ++ ts, [w]])
    (database : Option String) :
    ∃ s, (filterSite t a p).statement? (.parse (filterText t a p) database) = some s ∧
      s.ctes = [] ∧ s.subqueries = [] ∧
        s.clauseAt? (filterSite t a p).position ≠ some .filter := by
  have hother : ∀ word, word ∉ Keyword.leavesFilter → w.isKeyword word = false := by
    intro word hword
    rw [Token.isKeyword, hw]
    refine decide_eq_false fun heq => hword ?_
    obtain rfl := TokenKind.keyword.inj heq
    exact hk
  have hwith := hother .WITH (by decide)
  have hflat : IsFlat [w] := f.isFlat_tokens.mono
    (List.cons_subset.2 ⟨List.mem_append_right _ hmem, List.nil_subset _⟩)
  obtain ⟨s, hs, hread, -⟩ := f.exists_statement? database [f.head.tokens ++ ts] hts
    ⟨w, List.mem_singleton_self w, hmem⟩
  obtain ⟨hctes, hsubqueries⟩ := hread.nested_eq_nil
    (Statement.ctes_of_not_with _ hwith) (Statement.subqueries_build _ hflat)
  refine ⟨s, hs, hctes, hsubqueries, fun hfilter => ?_⟩
  rw [hread.clauseAt?] at hfilter
  obtain ⟨u, hu, hwhere⟩ := Statement.exists_where_of_clauseAt? hfilter
  obtain rfl := List.mem_singleton.1 hu
  rw [hother .WHERE (by decide)] at hwhere
  exact Bool.false_ne_true hwhere

/-- The typed keyword begins another clause of the query. -/
theorem exists_statement?_of_clauseWord {ts : List Token} {w : Token} {k : Keyword}
    (heq : f.rest = ts ++ [w]) (hplain : ∀ u ∈ ts, u.IsPlain) (hw : w.kind = .keyword k)
    (hk : k ∈ Region.clauseWords)
    (hts : Buffer.statementTokens (filterText t a p) = [f.head.tokens ++ f.rest])
    (database : Option String) :
    ∃ s, (filterSite t a p).statement? (.parse (filterText t a p) database) = some s ∧
      s.ctes = [] ∧ s.subqueries = [] ∧
        s.clauseAt? (filterSite t a p).position ≠ some .filter := by
  have hmem : w ∈ f.rest := by simp [heq]
  obtain ⟨s, hs, hread, -⟩ := f.exists_statement? database [] hts
    ⟨w, List.mem_append_right _ hmem, hmem⟩
  obtain ⟨hctes, hsubqueries⟩ := f.head.nested_build (.ofQuery Statement.maxNesting) f.isFlat_tokens
  obtain ⟨hctes', hsubqueries'⟩ := hread.nested_eq_nil hctes hsubqueries
  obtain ⟨tail, later, hcut, -, hlater⟩ := f.head.exists_regions_keyword hplain hw
  obtain ⟨c, hc, rfl⟩ := hlater hk
  refine ⟨s, hs, hctes', hsubqueries', ?_⟩
  rw [hread.clauseAt?, f.head.clauseAt?_build _ f.start_le, heq, hcut]
  simpa using hc

/-- A keyword that leaves the clause has been typed. -/
theorem exists_statement?_of_mem {k : Keyword} (h : typedKeyword? p.toList = some k)
    (hk : k ∈ Keyword.leavesFilter) (database : Option String) :
    ∃ s, (filterSite t a p).statement? (.parse (filterText t a p) database) = some s ∧
      s.ctes = [] ∧ s.subqueries = [] ∧
        s.clauseAt? (filterSite t a p).position ≠ some .filter := by
  rcases f.rest_plain with ⟨hnone, -, -⟩ | ⟨k', ts, w, hsome, heq, hplain, hne, hw⟩
  · rw [hnone] at h
    exact absurd h (Option.some_ne_none k).symm
  obtain rfl := Option.some.inj (h.symm.trans hsome)
  have htokens := f.statementTokens_eq
  have hsplit := f.head.map_splitStatements_keyword hplain hne hw
  rw [← heq] at hsplit
  rw [hsplit] at htokens
  rcases (Keyword.mem_leavesFilter k).1 hk with hmark | ⟨hmark, hclause⟩
  · rw [hmark] at htokens
    exact f.exists_statement?_of_opens (by simp [heq]) hw hk htokens database
  · rw [hmark] at htokens
    exact f.exists_statement?_of_clauseWord heq hplain hw hclause htokens database

end FilterSite

/-! ### The context -/

theorem Statement.IsFilterQuery.ofStatements_eq_nil {s : Statement} {t a : String}
    (h : s.IsFilterQuery t a) : Diagnostics.ofStatements [s] = [] := by
  have hnested : s.nested = [] := by
    rw [Statement.nested, h.ctes, h.subqueries]
    rfl
  rw [Diagnostics.ofStatements, List.flatMap_singleton, Statement.all_eq, hnested,
    List.flatMap_nil, List.flatMap_singleton, h.issues, Diagnostics.sorted, List.mergeSort_nil]
  rfl

/-- A table under an alias, not a temporary one, has the columns that the metadata has of it. -/
theorem Resolver.resolve_of_lookup {r : Resolver} {owner : Statement} {t a : String} {range : Range}
    {found : List ColumnDescriptor} (htemp : t.toList.head? ≠ some '#')
    (h : r.lookup owner { name := t, aliasName := some a, range := range } =
      found.map fun c => c.toColumn a) (e : Environment) :
    r.resolve owner e { name := t, aliasName := some a, range := range } =
      .ok { name := t, aliasName := some a, range := range,
            columns := found.map fun c => c.toColumn a } := by
  have hkind : TableRef.isTemp { name := t, aliasName := some a, range := range } = false :=
    Bool.eq_false_iff.2 (mt (TableRef.isTemp_iff _).1 htemp)
  have hlabelled : labelled a (found.map fun c => c.toColumn a) =
      found.map fun c => c.toColumn a := by
    rw [labelled, List.map_map]
    rfl
  rw [resolve, columns, columnsAt, columnsWith, if_neg Bool.false_ne_true,
    if_neg Bool.false_ne_true]
  dsimp only
  rw [hkind, if_neg Bool.false_ne_true, Bool.false_and, if_neg Bool.false_ne_true, h]
  exact congrArg (fun columns => Except.ok (TableRef.mk none none t (some a) false false false
    columns range none)) hlabelled

namespace Detector

variable {d : Detector} {temps : TempRegistry} {c : CursorSite} {s : Statement} {t a : String}

/-- In a statement with nothing nested in it the clause is that of the statement. -/
theorem clauseAt?_of_insideStatement (hctes : s.ctes = []) (hsubqueries : s.subqueries = [])
    {clause : Clause} (h : (d.insideStatement temps c s).clause = some clause) :
    s.clauseAt? c.position = some clause := by
  rw [insideStatement] at h
  split at h
  · exact absurd h (Option.some_ne_none clause).symm
  · dsimp only at h
    rw [ScopeTree.pathAt_of_nested hctes hsubqueries] at h
    exact h

/-- The columns behind the alias are those that the metadata has of the table. -/
theorem qualifiedColumns_of_isFilterQuery (h : s.IsFilterQuery t a) (htemp : t.toList.head? ≠ some '#')
    {source : MetadataSource} (hsource : d.resolver.source = some source) {found : TableDescriptor}
    (hfound : source.table ⟨none, none, t⟩ d.resolver.connection = .ok (some found))
    (hdatabase : s.database = d.resolver.connection.database) (alive : List TempTable) :
    d.qualifiedColumns alive [.ofStatement s] (some a) =
      found.columns.map fun c => c.toColumn a := by
  obtain ⟨range, htables⟩ := h.tables
  have htable : s.findTable? a = some { name := t, aliasName := some a, range := range } := by
    simp [Statement.findTable?, htables, TableRef.matchesAlias, Ident.same_refl]
  have hlookup : d.resolver.lookup s { name := t, aliasName := some a, range := range } =
      found.columns.map fun c => c.toColumn a := by
    rw [Resolver.lookup, hsource, hdatabase, Option.or_self]
    dsimp only
    rw [hfound]
    rfl
  have hstar : ∀ c ∈ found.columns.map fun c => c.toColumn a, !c.isStar := by
    intro c hc
    obtain ⟨column, -, rfl⟩ := List.mem_map.1 hc
    rfl
  rw [qualifiedColumns, Option.bind_some, Scope.findTable?]
  dsimp only [Scope.ofStatement]
  rw [htable]
  dsimp only
  rw [Resolver.resolve_of_lookup htemp hlookup]
  exact List.filter_eq_self.2 hstar

/-- What is offered behind the alias in the `WHERE` clause of a query. -/
theorem insideStatement_of_isFilterQuery (h : s.IsFilterQuery t a)
    (hclause : s.clauseAt? c.position = some .filter)
    (hplace : c.isTablePlace (some .filter) = false) (hqualifier : c.word.qualifier = some a)
    (hbracket : c.word.isBracketed = false) :
    let context := d.insideStatement temps c s
    context.mode = .qualified ∧ context.tableRef = some a ∧ context.typed = c.word.typed ∧
      context.clause = some .filter ∧
      context.columns = d.qualifiedColumns (temps.visibleAt ⟨s.batch, c.position.line⟩)
        [.ofStatement s] (some a) := by
  have hmode : c.mode (some .filter) = .qualified := by
    rw [CursorSite.mode, hplace, hqualifier, hbracket]
    rfl
  have hpath := ScopeTree.pathAt_of_nested h.ctes h.subqueries d.resolver.maxDepth c.position
  intro context
  have hcontext : context = d.insideStatement temps c s := rfl
  rw [insideStatement, h.ofStatements_eq_nil, List.any_nil, if_neg Bool.false_ne_true, hpath]
    at hcontext
  dsimp only [List.head?_cons, Option.map_some, Option.getD_some, Scope.ofStatement] at hcontext
  rw [hclause, hmode, hqualifier] at hcontext
  rw [hcontext]
  refine ⟨rfl, rfl, rfl, rfl, ?_⟩
  rw [← hqualifier]
  rfl

end Detector

theorem FilterSite.isTablePlace {t a p : String} (f : FilterSite t a p) (clause : Option Clause) :
    (filterSite t a p).isTablePlace clause = false := by
  rw [CursorSite.isTablePlace, f.before]
  simp [FilterHead.tokens, Token.isAnyKeyword, f.head.filter_kind]

namespace Detector

/-- The context at the end of the text is that of the statement there. -/
theorem exists_detect_eq {t a p : String} (f : FilterSite t a p) (d : Detector) {s : Statement}
    (h : (filterSite t a p).statement?
      (.parse (filterText t a p) d.resolver.connection.database) = some s) :
    ∃ temps, d.detect (filterText t a p)
        (Position.origin.advance (filterText t a p).toList) =
      d.insideStatement temps (filterSite t a p) s := by
  refine ⟨.ofStatements d.resolver (d.read (filterText t a p)).statements, ?_⟩
  rw [detect]
  generalize TempRegistry.ofStatements _ _ = temps
  have hsite : CursorSite.ofCursor (filterText t a p).toList
      (Position.origin.advance (filterText t a p).toList) = filterSite t a p := rfl
  rw [detectIn, hsite, f.isInert, if_neg Bool.false_ne_true, read, h]

/-- The columns of the table behind the alias are offered, whatever has been typed of a name, unless
it ends in a keyword that leaves the `WHERE` clause. -/
theorem detect_filterText_iff (d : Detector) (t a p : String) (source : MetadataSource)
    (found : TableDescriptor) (ht : IsIdentifier t) (ha : IsIdentifier a)
    (hp : ∀ c ∈ p.toList, isWordChar c) (htemp : t.toList.head? ≠ some '#')
    (hsource : d.resolver.source = some source)
    (hfound : source.table ⟨none, none, t⟩ d.resolver.connection = .ok (some found)) :
    let context := d.detect (filterText t a p)
      (Position.origin.advance (filterText t a p).toList)
    (context.mode = .qualified ∧ context.tableRef = some a ∧ context.typed = p ∧
        context.clause = some .filter ∧
        context.columns = found.columns.map fun c => c.toColumn a) ↔
      ∀ k, typedKeyword? p.toList = some k → k ∉ Keyword.leavesFilter := by
  intro context
  obtain ⟨f⟩ := nonempty_filterSite ht ha hp
  constructor
  · rintro ⟨-, -, -, hclause, -⟩ k hk hmem
    obtain ⟨s, hs, hctes, hsubqueries, hleaves⟩ :=
      f.exists_statement?_of_mem hk hmem d.resolver.connection.database
    obtain ⟨temps, hcontext⟩ := exists_detect_eq f d hs
    rw [show context = _ from hcontext] at hclause
    exact hleaves (clauseAt?_of_insideStatement hctes hsubqueries hclause)
  · intro h
    obtain ⟨s, hs, hquery, hclause, hdatabase⟩ :=
      f.exists_query_of_notMem h d.resolver.connection.database
    obtain ⟨temps, hcontext⟩ := exists_detect_eq f d hs
    obtain ⟨hmode, href, htyped, hfilter, hcolumns⟩ :=
      @insideStatement_of_isFilterQuery d temps _ s t a hquery hclause (f.isTablePlace _)
        f.qualifier f.isBracketed
    rw [show context = _ from hcontext]
    refine ⟨hmode, href, htyped.trans f.typed, hfilter, hcolumns.trans ?_⟩
    exact qualifiedColumns_of_isFilterQuery hquery htemp hsource hfound hdatabase _

/-- The first letters of a column. -/
theorem detect_filterText_half_typed :
    let rates : TableDescriptor :=
      { schema := some "dbo", name := "Rates"
        columns := [Catalog.sampleColumn "FromDate" "date", Catalog.sampleColumn "ToDate" "date"] }
    let catalog : Catalog := { entries := [(none, rates)] }
    let d : Detector := { resolver := { source := some catalog.source, maxDepth := 32 },
                          functions := ⟨[]⟩ }
    let context := d.detect (filterText "Rates" "r" "Fro")
      (Position.origin.advance (filterText "Rates" "r" "Fro").toList)
    context.mode = .qualified ∧ context.tableRef = some "r" ∧ context.typed = "Fro" ∧
      context.clause = some .filter ∧
      context.columns = rates.columns.map fun c => c.toColumn "r" := by
  intro rates catalog d context
  have ht : IsIdentifier "Rates" :=
    ⟨'R', "ates".toList, rfl, by decide, List.all_eq_true.1 (by decide), by decide⟩
  have ha : IsIdentifier "r" := ⟨'r', [], rfl, by decide, List.forall_mem_nil _, by decide⟩
  have hfound : catalog.find? ⟨none, none, "Rates"⟩ d.resolver.connection = some rates := by
    decide +kernel
  refine (detect_filterText_iff d "Rates" "r" "Fro" catalog.source rates ht ha
    (List.all_eq_true.1 (by decide)) (by decide) rfl (congrArg Except.ok hfound)).2 fun k hk => ?_
  have hnone : typedKeyword? "Fro".toList = none := by decide
  rw [hnone] at hk
  exact absurd hk (Option.some_ne_none k).symm

/-- The next letter makes a keyword of it, and nothing is offered any more. -/
theorem detect_filterText_from :
    let rates : TableDescriptor :=
      { schema := some "dbo", name := "Rates"
        columns := [Catalog.sampleColumn "FromDate" "date", Catalog.sampleColumn "ToDate" "date"] }
    let catalog : Catalog := { entries := [(none, rates)] }
    let d : Detector := { resolver := { source := some catalog.source, maxDepth := 32 },
                          functions := ⟨[]⟩ }
    let context := d.detect (filterText "Rates" "r" "From")
      (Position.origin.advance (filterText "Rates" "r" "From").toList)
    context.mode = .error ∧ context.tableRef = none ∧ context.clause = none ∧
      context.columns = [] := by
  decide +kernel

end Detector

end Tsql
