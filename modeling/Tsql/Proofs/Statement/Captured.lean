import Tsql.Proofs.Statement.Counted
import Tsql.Proofs.Token.Reserved

/-!
Which queries in parentheses a statement captures.

Each outermost query among its tokens, save for those in lists of names and definitions, becomes the
body of one common table expression or one subquery, there are no other subqueries, and a derived table
is linked to its own (`Statement.Captures`). That holds at every level of nesting that is described
(`Statement.captures_parse`). The exception is a query whose parenthesis stands behind an `AS` in place
of a table: derived tables that are found in it by mistake are recorded as well.
-/

namespace Tsql

namespace Statement

/-- The outermost queries among the tokens that are not in a list of names or definitions. -/
def ownQueries (ts : List Token) : List (List Token) :=
  queryGroups (listStarts ts) ts

/-- The statement records the queries in parentheses among the tokens. -/
structure Captures (s : Statement) (ts : List Token) : Prop where
  /-- Each is the body of one common table expression or one subquery. -/
  once : ∀ g ∈ ownQueries ts,
    ((s.ctes.map Cte.range).countP fun r => r.stop = (Range.ofTokens g).stop) +
      ((s.subqueries.map Subquery.range).countP fun r => r.start = (Range.ofTokens g).start) = 1
  /-- The body is what the group holds. -/
  cte : ∀ g ∈ ownQueries ts, ∀ c ∈ s.ctes, c.range.stop = (Range.ofTokens g).stop →
    c.body.range = .ofTokens (unwrapped (Group.after g.tail).inner)
  subquery : ∀ g ∈ ownQueries ts, ∀ q ∈ s.subqueries, q.range.start = (Range.ofTokens g).start →
    q.range = .ofTokens g ∧ q.body.range = .ofTokens (unwrapped (Group.after g.tail).inner)
  /-- There are no other subqueries, but for those in a query that has been stepped into. -/
  no_other : ∀ q ∈ s.subqueries, ∃ g ∈ ownQueries ts, q.range = .ofTokens g ∨
    q.kind = .derived ∧ (Range.ofTokens g).start < q.range.start ∧
      q.range.stop ≤ (Range.ofTokens g).stop ∧ SteppedInto s.issues ts g
  /-- A derived table has the index of its query. -/
  linked : ∀ t ∈ s.tables, t.isDerived → ∃ i q, t.subqueryIndex = some i ∧
    s.subqueries[i]? = some q ∧ t.IsReadBy q

section

variable {nested : List Token → Statement} {ts : List Token} {g : List Token}

theorem body_of_mem_ctes (hts : IsOrdered ts) (hg : g ∈ ownQueries ts) {c : Cte}
    (hc : c ∈ (build nested ts).ctes) (hstop : c.range.stop = (Range.ofTokens g).stop) :
    c.body = nested (Group.after g.tail).inner := by
  have hmem : (Range.ofTokens g).stop ∈ ((build nested ts).ctes.map Cte.range).map Range.stop :=
    List.mem_map.2 ⟨_, List.mem_map_of_mem hc, hstop⟩
  rw [stop_mem_ctes_iff hts hg] at hmem
  obtain ⟨d, hd, hdstop, hbody⟩ := exists_cte_of_mem_bodyStarts hts hg hmem
  have hnodup : ((build nested ts).ctes.map (Range.stop ∘ Cte.range)).Nodup := by
    rw [← List.map_map]
    exact (follow_ctes hts).nodup_stop
  rwa [List.inj_on_of_nodup_map hnodup hc hd (hstop.trans hdstop.symm)]

theorem exists_of_mem_subqueries (hts : IsOrdered ts) (hreserves : ReservesTable ts) {q : Subquery}
    (hq : q ∈ (build nested ts).subqueries) :
    ∃ g ∈ ownQueries ts, (q.range = .ofTokens g ∧ q.body = nested (Group.after g.tail).inner) ∨
      (q.kind = .derived ∧ (Range.ofTokens g).start < q.range.start ∧
        q.range.stop ≤ (Range.ofTokens g).stop ∧ SteppedInto (build nested ts).issues ts g) := by
  rw [(perm_subqueries_build nested ts).mem_iff] at hq
  rcases List.mem_append.1 hq with hq | hq
  · exact exists_of_mem_found hts hreserves hq
  · obtain ⟨g, hg, hread⟩ := exists_of_mem_expressions hts hq
    exact ⟨g, hg, .inl hread⟩

theorem body_of_mem_subqueries (hts : IsOrdered ts) (hreserves : ReservesTable ts)
    (hg : g ∈ ownQueries ts) {q : Subquery} (hq : q ∈ (build nested ts).subqueries)
    (hstart : q.range.start = (Range.ofTokens g).start) :
    q.range = .ofTokens g ∧ q.body = nested (Group.after g.tail).inner := by
  have hfollow := follow_queryGroups hts (listStarts ts)
  have hwidth : q.range.start < q.range.stop := by
    obtain ⟨span, hin, hreads⟩ := exists_reads_of_mem_subqueries hq
    rw [hreads.range_eq]
    exact (hts.mono hin).start_lt_stop_ofTokens hreads.ne_nil
  obtain ⟨g', hg', ⟨hrange, hbody⟩ | ⟨-, hlt, hle, -⟩⟩ := exists_of_mem_subqueries hts hreserves hq
  · have hsame := congrArg Range.start hrange
    obtain ⟨t, us, ht, -, heq⟩ := exists_of_mem_queryGroups hg
    rw [hstart] at hsame
    have hg'' := eq_of_mem_queryGroups hts hg' ht (by rw [← hsame, heq, Range.ofTokens_cons])
    obtain rfl := heq.trans hg''.symm
    exact ⟨hrange, hbody⟩
  · -- two of the queries would overlap
    have hsymm : Std.Symm fun a b : List Token => (Range.ofTokens a).Apart (Range.ofTokens b) :=
      ⟨fun _ _ => Or.symm⟩
    have hpair : (ownQueries ts).Pairwise fun a b => (Range.ofTokens a).Apart (Range.ofTokens b) :=
      (List.pairwise_map.1 hfollow.pairwise).imp Or.inl
    have hne : g' ≠ g := by
      rintro rfl
      exact Position.lt_irrefl _ (hstart ▸ hlt)
    have hgwidth := hfollow.start_lt_stop _ (List.mem_map_of_mem hg)
    rcases hpair.forall hg' hg hne with happart | happart
    · have hcontra := Position.lt_of_lt_of_le hwidth (Position.le_trans hle happart)
      exact absurd (hstart ▸ hcontra) (Position.lt_irrefl _)
    · have hle := Position.le_trans happart (Position.le_of_lt hlt)
      have hcontra := Position.lt_of_lt_of_le hgwidth hle
      exact absurd (hstart ▸ hcontra) (Position.lt_irrefl _)

theorem exists_linked (hts : IsOrdered ts) {t : TableRef} (ht : t ∈ (build nested ts).tables)
    (hderived : t.isDerived) :
    ∃ i q, t.subqueryIndex = some i ∧ (build nested ts).subqueries[i]? = some q ∧ t.IsReadBy q := by
  obtain ⟨q, hq, hreads, hindex⟩ := exists_isReadBy_of_mem_tables ht hderived
  have hmem : q ∈ (build nested ts).subqueries :=
    (perm_subqueries_build nested ts).mem_iff.2 (List.mem_append_left _ hq)
  have hat : q.isDerivedAt t.range.start := by simp [Subquery.isDerivedAt, hreads.1, hreads.2.1]
  obtain ⟨i, hi⟩ : ∃ i, (build nested ts).subqueries.findIdx?
      (Subquery.isDerivedAt t.range.start) = some i := by
    rw [← Option.isSome_iff_exists, List.findIdx?_isSome, List.any_eq_true]
    exact ⟨q, hmem, hat⟩
  obtain ⟨hlt, hfirst, -⟩ := List.findIdx?_eq_some_iff_getElem.1 hi
  -- the query at the index is the one that was found, since no two of them begin at one place
  have hsame : (build nested ts).subqueries[i] = q := by
    rw [Subquery.isDerivedAt, decide_eq_true_eq] at hfirst
    have hother := List.getElem_mem hlt
    rw [(perm_subqueries_build nested ts).mem_iff] at hother
    rcases List.mem_append.1 hother with hother | hother
    · have hnodup : ((found nested ts).subqueries.map (Range.start ∘ Subquery.range)).Nodup := by
        rw [← List.map_map]
        exact (follow_found hts).nodup_start
      exact List.inj_on_of_nodup_map hnodup hother hq (hfirst.2.trans hreads.2.1.symm)
    · rw [Layout.kind_of_mem_expressionQueries hother] at hfirst
      exact absurd hfirst.1 (by simp)
  exact ⟨i, q, hindex.trans hi, by rw [List.getElem?_eq_getElem hlt, hsame], hreads⟩

theorem captures_build (hts : IsOrdered ts) (hreserves : ReservesTable ts)
    (hnested : ∀ us, (nested us).range = .ofTokens (unwrapped us)) :
    (build nested ts).Captures ts where
  once g hg := countP_add_countP hts hg
  cte g hg c hc hstop := by rw [body_of_mem_ctes hts hg hc hstop, hnested]
  subquery g hg q hq hstart := by
    obtain ⟨hrange, hbody⟩ := body_of_mem_subqueries hts hreserves hg hq hstart
    exact ⟨hrange, by rw [hbody, hnested]⟩
  no_other q hq := by
    obtain ⟨g, hg, hread⟩ := exists_of_mem_subqueries hts hreserves hq
    exact ⟨g, hg, hread.imp_left And.left⟩
  linked t ht hderived := exists_linked hts ht hderived

end

/-! ### Marked references -/

theorem Captures.markedIn {s : Statement} {ts : List Token} (h : s.Captures ts)
    (names : List String) : (s.markedIn names).Captures ts where
  once g hg := by
    rw [ctes_markedIn, Cte.map_range_markedIn, subqueries_markedIn, List.map_map]
    exact h.once g hg
  cte g hg c hc hstop := by
    rw [ctes_markedIn] at hc
    obtain ⟨d, hd, hrange, names', hbody⟩ := Cte.exists_of_mem_markedIn hc
    rw [hbody, range_markedIn]
    exact h.cte g hg d hd (hrange ▸ hstop)
  subquery g hg q hq hstart := by
    rw [subqueries_markedIn] at hq
    obtain ⟨p, hp, rfl⟩ := List.mem_map.1 hq
    obtain ⟨hrange, hbody⟩ := h.subquery g hg p hp hstart
    exact ⟨hrange, by rw [Subquery.markedIn, range_markedIn, hbody]⟩
  no_other q hq := by
    rw [subqueries_markedIn] at hq
    obtain ⟨p, hp, rfl⟩ := List.mem_map.1 hq
    obtain ⟨g, hg, hplace⟩ := h.no_other p hp
    refine ⟨g, hg, ?_⟩
    rw [Statement.markedIn]
    exact hplace
  linked t ht hderived := by
    rw [tables_markedIn] at ht
    obtain ⟨u, hu, rfl⟩ := List.mem_map.1 ht
    rw [TableRef.isDerived_markedIn] at hderived
    obtain ⟨i, q, hindex, hq, hkind, hstart, halias⟩ := h.linked u hu hderived
    have hsame : u.markedIn (names ++ s.ctes.map Cte.name) = u := by
      simp [TableRef.markedIn, TableRef.mayBeCte, hderived]
    rw [hsame, subqueries_markedIn]
    exact ⟨i, q.markedIn _, hindex, by rw [List.getElem?_map, hq, Option.map_some], hkind, hstart,
      halias⟩

/-! ### All levels -/

theorem reservesTable_tokenize (source : String) : ReservesTable (tokenize source) :=
  fun _ ht hword => isKeyword_of_isWord_tokenize ht hword

/-- The statements that are nested in a statement at a depth. -/
def atDepth : Nat → Statement → List Statement
  | 0, s => [s]
  | depth + 1, s => s.nested.flatMap (atDepth depth)

/-- The statement is built from the tokens, with so many levels below it, and has some names marked. -/
inductive IsBuilt (levels : Nat) : Statement → List Token → Prop
  | built (ts : List Token) : IsBuilt levels (build (ofQuery levels) ts) ts
  | marked {s : Statement} {ts : List Token} (h : IsBuilt levels s ts) (names : List String) :
      IsBuilt levels (s.markedIn names) ts

namespace IsBuilt

variable {levels depth : Nat} {s n : Statement} {ts : List Token}

theorem range_eq (h : IsBuilt levels s ts) : s.range = .ofTokens ts := by
  induction h with
  | built ts => exact range_build _ ts
  | marked _ names ih => rwa [range_markedIn]

theorem captures (h : IsBuilt levels s ts) (hts : IsOrdered ts) (hreserves : ReservesTable ts) :
    s.Captures ts := by
  induction h with
  | built ts =>
      exact captures_build hts hreserves fun us => (describes_ofQuery levels us).range_eq
  | marked _ names ih => exact (ih hts hreserves).markedIn names

theorem exists_of_mem_nested (h : IsBuilt (levels + 1) s ts) (hn : n ∈ s.nested) :
    ∃ us, us <:+: ts ∧ IsBuilt levels n us := by
  induction h generalizing n with
  | built ts =>
      rcases exists_of_mem_nested_build hn with rfl | ⟨us, hus, rfl⟩
      · exact ⟨[], List.nil_infix, .built []⟩
      · exact ⟨_, (isInfix_unwrapped us).trans hus, .built _⟩
  | marked _ names ih =>
      obtain ⟨m, hm, names', rfl⟩ := exists_of_mem_nested_markedIn hn
      obtain ⟨us, hus, hbuilt⟩ := ih hm
      exact ⟨us, hus, hbuilt.marked names'⟩

theorem exists_of_mem_atDepth (h : IsBuilt levels s ts) (hdepth : depth ≤ levels)
    (hn : n ∈ s.atDepth depth) : ∃ us, us <:+: ts ∧ IsBuilt (levels - depth) n us := by
  induction depth generalizing levels s ts with
  | zero =>
      obtain rfl := List.mem_singleton.1 hn
      exact ⟨ts, List.infix_rfl, h⟩
  | succ depth ih =>
      obtain ⟨levels, rfl⟩ := Nat.exists_eq_add_of_lt (Nat.lt_of_lt_of_le (Nat.succ_pos depth) hdepth)
      obtain ⟨m, hm, hn⟩ := List.mem_flatMap.1 hn
      obtain ⟨us, hus, hbuilt⟩ := h.exists_of_mem_nested hm
      obtain ⟨vs, hvs, hbuilt⟩ := ih hbuilt (Nat.le_of_succ_le_succ hdepth) hn
      exact ⟨vs, hvs.trans hus, by simpa using hbuilt⟩

end IsBuilt

/-- Every query in parentheses is captured once, in a statement and in those nested in it. -/
theorem captures_parse {ts : List Token} (hts : IsOrdered ts) (hreserves : ReservesTable ts) :
    (parse ts).Captures ts ∧ ∀ depth ≤ maxNesting, ∀ n ∈ (parse ts).atDepth depth,
      ∃ us, us <:+: ts ∧ n.range = .ofTokens us ∧ n.Captures us := by
  have hbuilt : IsBuilt maxNesting (parse ts) ts := .marked (.built ts) []
  refine ⟨hbuilt.captures hts hreserves, fun depth hdepth n hn => ?_⟩
  obtain ⟨us, hus, hinner⟩ := hbuilt.exists_of_mem_atDepth hdepth hn
  have hreserves' : ReservesTable us := fun t ht => hreserves t (hus.subset ht)
  exact ⟨us, hus, hinner.range_eq, hinner.captures (hts.mono hus) hreserves'⟩

/-- Three queries in parentheses: the body of a common table expression, a derived table and a query in
an expression. The list of column names is none of them. -/
theorem captures_parse_of_each :
    let ts := tokenize
      "WITH c (a) AS (SELECT 1) SELECT * FROM (SELECT a FROM c) x WHERE a IN (SELECT 2)"
    (parse ts).Captures ts ∧
      (ownQueries ts).map Range.ofTokens =
        [⟨⟨1, 15⟩, ⟨1, 25⟩⟩, ⟨⟨1, 40⟩, ⟨1, 57⟩⟩, ⟨⟨1, 71⟩, ⟨1, 81⟩⟩] ∧
      (parse ts).ctes.map Cte.range = [⟨⟨1, 6⟩, ⟨1, 25⟩⟩] ∧
      ((parse ts).subqueries.map fun q => (q.kind, q.range)).Perm
        [(.derived, ⟨⟨1, 40⟩, ⟨1, 57⟩⟩), (.expression, ⟨⟨1, 71⟩, ⟨1, 81⟩⟩)] := by
  intro ts
  refine ⟨(captures_parse (isOrdered_tokenize _) (reservesTable_tokenize _)).1, by decide +kernel,
    ?_, ?_⟩
  · rw [parse, ctes_markedIn, Cte.map_range_markedIn, ctes_build]
    decide +kernel
  · rw [parse, subqueries_markedIn, List.map_map]
    refine ((perm_subqueries_build _ ts).map _).trans (.of_eq ?_)
    decide +kernel

/-- Behind an `AS` in place of a table, a query in a query is recorded as well. -/
theorem subqueries_behind_as :
    let ts := tokenize "SELECT * FROM AS (SELECT * FROM (SELECT 1) x)"
    ∃ q ∈ (parse ts).subqueries, ∀ g ∈ ownQueries ts, q.range ≠ .ofTokens g := by
  intro ts
  obtain ⟨q, hq, hother⟩ : ∃ q ∈ (found (.ofQuery maxNesting) ts).subqueries,
      ∀ g ∈ ownQueries ts, q.range ≠ .ofTokens g := by
    decide +kernel
  have hmem : q ∈ (build (.ofQuery maxNesting) ts).subqueries :=
    (perm_subqueries_build _ ts).mem_iff.2 (List.mem_append_left _ hq)
  rw [parse, subqueries_markedIn]
  exact ⟨_, List.mem_map_of_mem hmem, hother⟩

end Statement

end Tsql
