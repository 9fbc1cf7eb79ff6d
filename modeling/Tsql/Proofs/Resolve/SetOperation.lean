import Tsql.Catalog.Sample
import Tsql.Proofs.Scope.Visible
import Tsql.Proofs.Statement.Derived
import Tsql.Resolve.Columns
import Tsql.Token.Lexer

/-!
The output of a set operation.

The statement of `A UNION B` has the select list of `A`, but the tables of both queries, and the
columns of the list are looked up among all of these. So the output is that of `A`, if no item of its
select list means a table of `B` (`isSetOperation_parse`); a star without a qualifier does whenever
`B` names a table (`output_star_of_both`).
-/

namespace Tsql

namespace Resolver

/-- The tables that the item of a select list means are the same when further tables are listed behind
those of the statement. -/
def MeansOwnTables (s : Statement) (others : List TableRef) (c : ColumnRef) : Prop :=
  let joined := { s with tables := s.tables ++ others }
  if c.isStar then starTables joined c.source = starTables s c.source
  else (c.dataType.isSome || isCall c) ∨ columnTable? joined c.source = columnTable? s c.source

instance (s : Statement) (others : List TableRef) (c : ColumnRef) :
    Decidable (MeansOwnTables s others c) := by
  unfold MeansOwnTables
  infer_instance

end Resolver

/-! ### Queries of two lists -/

namespace Sources

variable {found : Sources}

/-- Each derived table finds a query at its place. -/
def FindsQueries (found : Sources) : Prop :=
  ∀ t ∈ found.tables, t.isDerived →
    (found.subqueries.find? (Subquery.isDerivedAt t.range.start)).isSome

theorem Derives.findsQueries {nested : List Token → Statement} {ts : List Token}
    (h : found.Derives nested ts) : found.FindsQueries := by
  intro t ht hderived
  obtain ⟨q, hq, hkind, hstart, -⟩ := h.tables t ht hderived
  refine List.find?_isSome.2 ⟨q, hq, ?_⟩
  simp [Subquery.isDerivedAt, hkind, hstart]

theorem FindsQueries.markedIn (h : found.FindsQueries) (visible : List String) :
    (found.markedIn visible).FindsQueries := by
  intro t ht hderived
  obtain ⟨t', ht', rfl⟩ := List.mem_map.1 ht
  rw [TableRef.isDerived_markedIn] at hderived
  rw [TableRef.range_markedIn, Sources.markedIn, Statement.find?_isDerivedAt_markedIn,
    Option.isSome_map]
  exact h t' ht' hderived

end Sources

namespace Statement

/-- The statement has the columns of `a` and the tables of `a` and `b`, and those of `a` have the same
queries as there. -/
structure Joins (s a b : Statement) : Prop where
  columns : s.columns = a.columns
  ctes : s.ctes = a.ctes
  database : s.database = a.database
  tables : s.tables = linkDerived s.subqueries (a.tables ++ b.tables)
  query : ∀ t ∈ a.tables, t.isDerived → s.queryOf? (t.linkedIn s.subqueries) = a.queryOf? t

/-- Two queries join where the derived tables of the first find their queries among its own, because
these are in front of those of the second. -/
theorem IsQueryOf.joins {s a b : Statement} {columns columns' : List ColumnRef}
    {found left right : Sources} (hs : s.IsQueryOf columns found) (ha : a.IsQueryOf columns left)
    (hb : b.IsQueryOf columns' right) (htables : found.tables = left.tables ++ right.tables)
    (hsubqueries : found.subqueries = left.subqueries ++ right.subqueries)
    (hleft : left.FindsQueries) : s.Joins a b where
  columns := hs.columns.trans ha.columns.symm
  ctes := hs.ctes.trans ha.ctes.symm
  database := hs.database.trans ha.database.symm
  tables := by
    rw [hs.tables, htables, ha.tables, hb.tables]
    simp only [linkDerived_append, linkDerived_linkDerived]
  query t ht hderived := by
    rw [ha.tables, linkDerived_eq] at ht
    obtain ⟨t', ht', rfl⟩ := List.mem_map.1 ht
    rw [TableRef.isDerived_linkedIn] at hderived
    rw [TableRef.linkedIn_linkedIn, s.queryOf?_linkedIn hderived, a.queryOf?_linkedIn hderived,
      hs.query, ha.query, hsubqueries, List.find?_append, Option.or_of_isSome (hleft t' ht' hderived)]

/-- A set operator joins two queries. -/
theorem joins_setOperation (nested : List Token → Statement) (visible : List String)
    {ts ops us : List Token} (hts : startsSelect ts) (hclosed : depthAfter 0 ts = 0)
    (hops : isSetOperator ops) (hus : startsSelect us) :
    ((build nested (ts ++ ops ++ us)).markedIn visible).Joins
      ((build nested ts).markedIn visible) ((build nested us).markedIn visible) := by
  obtain ⟨r, hr, hregions⟩ := Region.cut_setOperation hclosed hops hus
  have hcolumns : Region.outputColumns (Region.cut .select {} (ts ++ ops ++ us)).2 =
      Region.outputColumns (Region.cut .select {} ts).2 := by
    rw [hregions, Region.outputColumns_append (Region.first?_cut_isSome hts)]
  have hwhole := startsSelect_append (startsSelect_append hts ops) us
  have hs := (isQueryOf_build nested hwhole).markedIn visible
  rw [hcolumns] at hs
  have hleft : (Sources.ofRegions nested false (Region.cut .select {} ts).2).FindsQueries :=
    (Sources.derives_ofRegions false fun r hr _ => isInfix_flatMap hr).findsQueries
  refine hs.joins ((isQueryOf_build nested hts).markedIn visible)
    ((isQueryOf_build nested hus).markedIn visible) ?_ ?_ (hleft.markedIn visible)
  · simp only [Sources.markedIn, hregions, Sources.tables_ofRegions_append, List.map_append]
    simp [Sources.ofRegions, hr, Sources.tables_append]
  · simp only [Sources.markedIn, hregions, Sources.subqueries_ofRegions_append, List.map_append]
    simp [Sources.ofRegions, hr, Sources.subqueries_append]

/-! ### Tables of a joined list -/

theorem findTable?_linked {s s' : Statement} {qs : List Subquery}
    (h : s.tables = linkDerived qs s'.tables) (name : String) :
    s.findTable? name = (s'.findTable? name).map (TableRef.linkedIn qs) := by
  have hfind : ∀ p : TableRef → Bool, (∀ t, p (t.linkedIn qs) = p t) →
      s.tables.find? p = (s'.tables.find? p).map (TableRef.linkedIn qs) := by
    intro p hp
    have hcomp : p ∘ TableRef.linkedIn qs = p := funext hp
    rw [h, linkDerived_eq, List.find?_map, hcomp]
  unfold findTable?
  rw [hfind _ (by simp [TableRef.matchesAlias]), hfind _ (by simp), hfind _ (by simp)]
  cases s'.tables.find? fun t => t.matchesAlias name with
  | some t => rfl
  | none =>
      cases s'.tables.find? fun t => t.aliasName.isNone && Ident.same t.name name with
      | some t => rfl
      | none => rfl

end Statement

namespace Resolver

theorem starTables_linked {s s' : Statement} {qs : List Subquery}
    (h : s.tables = linkDerived qs s'.tables) (source : Option String) :
    starTables s source = (starTables s' source).map (TableRef.linkedIn qs) := by
  cases source with
  | none => exact h
  | some qualifier =>
      simp only [starTables, Statement.findTable?_linked h]
      cases s'.findTable? qualifier <;> rfl

theorem columnTable?_linked {s s' : Statement} {qs : List Subquery}
    (h : s.tables = linkDerived qs s'.tables) (source : Option String) :
    columnTable? s source = (columnTable? s' source).map (TableRef.linkedIn qs) := by
  cases source with
  | none =>
      simp only [columnTable?, h, linkDerived_eq, List.length_map, List.head?_map]
      split <;> rfl
  | some qualifier => exact Statement.findTable?_linked h qualifier

theorem mem_tables_of_mem_starTables {s : Statement} {source : Option String} {t : TableRef}
    (h : t ∈ starTables s source) : t ∈ s.tables := by
  cases source with
  | none => exact h
  | some qualifier => exact (Statement.of_findTable? (Option.mem_toList.1 h)).1

theorem mem_tables_of_columnTable? {s : Statement} {source : Option String} {t : TableRef}
    (h : columnTable? s source = some t) : t ∈ s.tables := by
  cases source with
  | none =>
      simp only [columnTable?] at h
      split at h
      · exact List.mem_of_mem_head? h
      · contradiction
  | some qualifier => exact (Statement.of_findTable? h).1

/-! ### Columns -/

theorem mapM_congr {ε α β : Type} {f g : α → Except ε β} {l : List α} (h : ∀ a ∈ l, f a = g a) :
    l.mapM f = l.mapM g := by
  have hmap : l.map f = l.map g := List.map_congr_left h
  calc
    l.mapM f = (l.map f).mapM id := by rw [List.mapM_map]; rfl
    _ = (l.map g).mapM id := by rw [hmap]
    _ = l.mapM g := by rw [List.mapM_map]; rfl

variable {s a b : Statement} (r : Resolver)
  (output : Statement → Environment → Except ColumnError (List ColumnRef)) (e : Environment)

/-- A table of the first query has the same columns as there. -/
theorem columnsWith_linkedIn (h : s.Joins a b) {t : TableRef} (ht : t ∈ a.tables) :
    r.columnsWith output s e (t.linkedIn s.subqueries) = r.columnsWith output a e t := by
  cases hderived : t.isDerived with
  | true =>
      have hquery := h.query t ht hderived
      unfold Statement.queryOf? at hquery
      simp [columnsWith, hderived, hquery]
  | false =>
      rw [TableRef.linkedIn_of_not_isDerived _ hderived]
      simp [columnsWith, hderived, lookup, h.database]

theorem expand_joins (h : s.Joins a b) {c : ColumnRef} (hc : MeansOwnTables a b.tables c) :
    expand (r.columnsWith output s e) s c = expand (r.columnsWith output a e) a c := by
  let joined : Statement := { a with tables := a.tables ++ b.tables }
  have hjoined : s.tables = linkDerived s.subqueries joined.tables := h.tables
  unfold expand
  unfold MeansOwnTables at hc
  split
  · next hstar =>
    simp only [hstar, if_true] at hc
    rw [starTables_linked hjoined, hc, List.mapM_map]
    congr 1
    refine mapM_congr fun t ht => ?_
    exact r.columnsWith_linkedIn output e h (mem_tables_of_mem_starTables ht)
  · next hstar =>
    simp only [hstar] at hc
    split
    · rfl
    · next htyped =>
      have hc := hc.resolve_left htyped
      rw [columnTable?_linked hjoined, hc]
      cases ht : columnTable? a c.source with
      | none => rfl
      | some t =>
          simp only [Option.map_some]
          rw [r.columnsWith_linkedIn output e h (mem_tables_of_columnTable? ht)]

theorem outputAt_joins (h : s.Joins a b) (hmeans : ∀ c ∈ a.columns, MeansOwnTables a b.tables c)
    (levels : Nat) : r.outputAt levels s e = r.outputAt levels a e := by
  cases levels with
  | zero => rfl
  | succ levels =>
      simp only [outputAt, outputWith, h.columns]
      congr 1
      exact mapM_congr fun c hc => r.expand_joins _ e h (hmeans c hc)

end Resolver

/-! ### Set operations -/

namespace Statement

/-- The statement has the select list of `a` and the tables of `a` and `b`. Its output is that of `a`
unless the select list means a table of `b`. -/
structure IsSetOperation (s a b : Statement) : Prop where
  columns : s.columns = a.columns
  tables : s.tables = linkDerived s.subqueries (a.tables ++ b.tables)
  output : ∀ (r : Resolver) (levels : Nat) (e : Environment),
    (∀ c ∈ a.columns, Resolver.MeansOwnTables a b.tables c) →
      r.outputAt levels s e = r.outputAt levels a e

theorem Joins.isSetOperation {s a b : Statement} (h : s.Joins a b) : s.IsSetOperation a b where
  columns := h.columns
  tables := h.tables
  output r levels e hmeans := r.outputAt_joins e h hmeans levels

theorem unwrapped_of_startsSelect {ts : List Token} (h : startsSelect ts) : unwrapped ts = ts := by
  cases ts with
  | nil => simp [startsSelect] at h
  | cons t ts =>
      have hopen : t.isOpen = false := by
        simp [Token.isOpen, Token.kind_of_isKeyword h]
      rw [unwrapped]
      simp [hopen]

/-- Two queries with a set operator between them have the select list of the first one, read over the
tables of both; as a statement, and at every level of nesting as the query of a derived table or of a
common table expression. -/
theorem isSetOperation_parse {ts ops us : List Token} (hts : startsSelect ts)
    (hclosed : depthAfter 0 ts = 0) (hops : isSetOperator ops) (hus : startsSelect us) :
    (parse (ts ++ ops ++ us)).IsSetOperation (parse ts) (parse us) ∧
      ∀ (levels : Nat) (visible : List String),
        ((ofQuery (levels + 1) (ts ++ ops ++ us)).markedIn visible).IsSetOperation
          ((ofQuery (levels + 1) ts).markedIn visible)
          ((ofQuery (levels + 1) us).markedIn visible) := by
  have hjoins := fun nested visible =>
    joins_setOperation nested visible hts hclosed hops hus
  refine ⟨(hjoins _ []).isSetOperation, fun levels visible => ?_⟩
  have hwhole : startsSelect (ts ++ ops ++ us) :=
    startsSelect_append (startsSelect_append hts ops) us
  simp only [ofQuery, unwrapped_of_startsSelect hts, unwrapped_of_startsSelect hus,
    unwrapped_of_startsSelect hwhole]
  exact (hjoins _ visible).isSetOperation

/-- Qualified columns keep to the first query. -/
theorem isSetOperation_parse_qualified :
    let tokens := tokenize "SELECT c.Email FROM Customers c UNION ALL SELECT * FROM Departments"
    let r : Resolver := { source := some (Catalog.source .sample), maxDepth := 32 }
    r.output (parse tokens) ⟨[], []⟩ = r.output (parse (tokens.take 7)) ⟨[], []⟩ := by
  intro tokens r
  have hfacts : tokens.take 7 ++ (tokens.drop 7).take 2 ++ tokens.drop 9 = tokens ∧
      startsSelect (tokens.take 7) ∧ depthAfter 0 (tokens.take 7) = 0 ∧
      isSetOperator ((tokens.drop 7).take 2) ∧ startsSelect (tokens.drop 9) ∧
      ∀ c ∈ (parse (tokens.take 7)).columns,
        Resolver.MeansOwnTables (parse (tokens.take 7)) (parse (tokens.drop 9)).tables c := by
    decide +kernel
  obtain ⟨hparts, hfirst, hclosed, hops, hsecond, hmeans⟩ := hfacts
  have hset := (isSetOperation_parse hfirst hclosed hops hsecond).1
  rw [hparts] at hset
  exact hset.output r _ _ hmeans

/-- A star takes the tables of the second query, too. -/
theorem output_star_of_both :
    let tokens := tokenize "SELECT * FROM Customers UNION SELECT * FROM Departments"
    let r : Resolver := { source := some (Catalog.source .sample), maxDepth := 32 }
    startsSelect (tokens.take 4) ∧ isSetOperator ((tokens.drop 4).take 1) ∧
      startsSelect (tokens.drop 5) ∧
      r.output (parse tokens) ⟨[], []⟩ ≠ r.output (parse (tokens.take 4)) ⟨[], []⟩ := by
  intro tokens r
  have hfacts : startsSelect (tokens.take 4) ∧ isSetOperator ((tokens.drop 4).take 1) ∧
      startsSelect (tokens.drop 5) ∧
      (r.output (parse tokens) ⟨[], []⟩).toOption.map List.length ≠
        (r.output (parse (tokens.take 4)) ⟨[], []⟩).toOption.map List.length := by
    decide +kernel
  obtain ⟨hfirst, hops, hsecond, hlength⟩ := hfacts
  exact ⟨hfirst, hops, hsecond, fun heq => hlength (by rw [heq])⟩

end Statement

end Tsql
