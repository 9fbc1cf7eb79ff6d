import Tsql.Proofs.Statement.Definitions
import Tsql.Proofs.Statement.Derived
import Tsql.Proofs.Statement.Laminar
import Tsql.Proofs.Statement.Outermost

/-!
The outermost queries of one level, counted.

Of the outermost queries among the tokens, without those in lists of names and definitions
(`Statement.listStarts`), some are the bodies of common table expressions, some those of derived tables,
and the others are the queries in expressions (`Statement.map_range_expressions_eq`). So each one is
recorded once (`Statement.countP_add_countP`). A subquery is one of them, or it was found in one of them
that has been stepped into (`Statement.exists_of_mem_found`).
-/

namespace Tsql

theorem countP_of_nodup {α β : Type} [DecidableEq β] {f : α → β} {as : List α}
    (h : (as.map f).Nodup) (b : β) : (as.countP fun a => f a = b) = if b ∈ as.map f then 1 else 0 := by
  rw [← h.count, List.count_eq_countP, List.countP_map]
  rfl

namespace Range

theorem Apart.stop_ne {r s : Range} (h : r.Apart s) (hr : r.start < r.stop) (hs : s.start < s.stop) :
    r.stop ≠ s.stop := by
  intro heq
  rcases h with hle | hle
  · exact Position.lt_irrefl _ (Position.lt_of_le_of_lt hle (heq ▸ hs))
  · exact Position.lt_irrefl _ (Position.lt_of_le_of_lt hle (heq ▸ hr))

/-- The ranges follow each other, and each has a width. -/
structure Follow (rs : List Range) : Prop where
  start_lt_stop : ∀ r ∈ rs, r.start < r.stop
  pairwise : rs.Pairwise fun r s => r.stop ≤ s.start

namespace Follow

variable {rs : List Range}

theorem nodup_start (h : Follow rs) : (rs.map Range.start).Nodup := by
  refine List.pairwise_map.2 (h.pairwise.imp_of_mem fun hr _ hle heq => ?_)
  exact Position.lt_irrefl _ (heq ▸ Position.lt_of_lt_of_le (h.start_lt_stop _ hr) hle)

theorem nodup_stop (h : Follow rs) : (rs.map Range.stop).Nodup := by
  refine List.pairwise_map.2 (h.pairwise.imp_of_mem fun _ hs hle heq => ?_)
  exact Position.lt_irrefl _ (heq ▸ Position.lt_of_le_of_lt hle (h.start_lt_stop _ hs))

end Follow

end Range

/-- The starts of the groups that hold a query. -/
def queryStarts : List Token → List Position
  | [] => []
  | t :: ts =>
    if t.isOpen && startsQuery (Group.after ts).inner then t.start :: queryStarts ts
    else queryStarts ts

section

variable {nested : List Token → Statement} {ts us : List Token} {t : Token} {p : Position}

theorem mem_queryStarts_iff : p ∈ queryStarts ts ↔
    ∃ t us, t :: us <:+ ts ∧ t.isOpen ∧ startsQuery us ∧ t.start = p := by
  induction ts with
  | nil => simp [queryStarts]
  | cons u ts ih =>
      rw [exists_suffix_cons_iff, ← ih, queryStarts, Group.startsQuery_inner]
      split
      · next hquery =>
        obtain ⟨hopen, hstarts⟩ := Bool.and_eq_true_iff.1 hquery
        simp [hopen, hstarts, eq_comm]
      · next hquery =>
        rw [Bool.and_eq_true] at hquery
        exact ⟨.inr, fun h => h.resolve_left fun hu => hquery ⟨hu.1, hu.2.1⟩⟩

/-- In ordered tokens it is decided by the place of a parenthesis whether a query stands in it. -/
theorem IsOrdered.mem_queryStarts_iff (h : IsOrdered ts) (ht : t :: us <:+ ts) (hopen : t.isOpen) :
    t.start ∈ queryStarts ts ↔ startsQuery us := by
  rw [Tsql.mem_queryStarts_iff]
  constructor
  · rintro ⟨u, vs, hu, -, hstarts, hstart⟩
    obtain ⟨rfl, rfl⟩ := List.cons.inj (h.suffix_eq hu ht hstart)
    exact hstarts
  · exact fun hstarts => ⟨t, us, ht, hopen, hstarts, rfl⟩

namespace Statement

theorem heading_eq (nested nested' : List Token → Statement) (ts : List Token) :
    (heading nested ts).groups = (heading nested' ts).groups ∧
      (heading nested ts).rest = (heading nested' ts).rest := by
  unfold heading
  split
  · exact ⟨rfl, rfl⟩
  · split
    · exact CteList.groups_ofTokens_eq nested nested' _
    · exact ⟨rfl, rfl⟩

theorem layout_eq (nested nested' : List Token → Statement) (ts : List Token) :
    layout nested ts = layout nested' ts := by
  rw [layout, layout, (heading_eq nested nested' ts).2]

/-- The starts of the groups that hold a list instead of a query: the column names of a common table
expression or of an `INSERT`, or the definitions of a table. -/
def listStarts (ts : List Token) : List Position :=
  (startsOf (heading (fun _ => {}) ts).groups ts).filter (· ∉ queryStarts ts) ++
    startsOf (definitions (fun _ => {}) ts).toList ts ++
      startsOf (Region.columnLists (layout (fun _ => {}) ts).regions) ts

/-- The starts of the bodies of common table expressions. -/
def bodyStarts (nested : List Token → Statement) (ts : List Token) : List Position :=
  (startsOf (heading nested ts).groups ts).filter (· ∈ queryStarts ts)

/-- The starts of the queries of derived tables. -/
def derivedStarts (nested : List Token → Statement) (ts : List Token) : List Position :=
  (found nested ts).subqueries.map fun q => q.range.start

/-- Where the lists are does not depend on how queries are read. -/
theorem listStarts_eq (nested : List Token → Statement) (ts : List Token) :
    listStarts ts = (startsOf (heading nested ts).groups ts).filter (· ∉ queryStarts ts) ++
      startsOf (definitions nested ts).toList ts ++
        startsOf (Region.columnLists (layout nested ts).regions) ts := by
  obtain ⟨hgroups, hrest⟩ := heading_eq (fun _ => {}) nested ts
  rw [listStarts, layout_eq (fun _ => {}) nested, hgroups, definitions, hrest, definitions]

theorem mem_claimedStarts_iff : p ∈ claimedStarts nested ts ↔
    p ∈ listStarts ts ++ (bodyStarts nested ts ++ derivedStarts nested ts) := by
  have hderived : p ∈ startsOf (found nested ts).groups ts ↔ p ∈ derivedStarts nested ts :=
    (isRanked_found nested ts).mem_startsOf_iff
  rw [claimedStarts, claimed, listStarts_eq nested, bodyStarts]
  simp only [mem_startsOf_append, hderived, List.mem_append, List.mem_filter, decide_eq_true_eq]
  by_cases hquery : p ∈ queryStarts ts <;> grind

/-! ### Places in front of and behind the common table expressions -/

theorem exists_holds_of_mem_startsOf (h : p ∈ startsOf (heading nested ts).groups ts) :
    ∃ t us, t :: us <:+ ts ∧ t.start = p ∧ CteList.Holds nested (heading nested ts) t us := by
  obtain ⟨t, us, ht, hrank, hp⟩ := mem_startsOf_iff.1 h
  obtain ⟨u, vs, hu, hlength, hholds⟩ := holdsAt_heading hrank
  obtain ⟨rfl, rfl⟩ := List.cons.inj (suffix_eq_of_length hu ht hlength)
  exact ⟨u, vs, hu, hp, hholds⟩

theorem ne_start_of_mem_rest (hts : IsOrdered ts) (h : p ∈ startsOf (heading nested ts).groups ts)
    (ht : t ∈ (heading nested ts).rest) : t.start ≠ p := by
  obtain ⟨u, us, hu, rfl, -, hrest, -⟩ := exists_holds_of_mem_startsOf h
  have hlist : IsOrdered ([u] ++ us) := hts.mono hu.isInfix
  exact (hlist.start_ne (List.mem_singleton_self u) (hrest.subset ht)).symm

theorem exists_of_mem_derivedStarts (h : p ∈ derivedStarts nested ts) :
    ∃ t us, t :: us <:+ (heading nested ts).rest ∧ t.isOpen ∧ startsQuery us ∧ t.start = p := by
  obtain ⟨q, hq, rfl⟩ := List.mem_map.1 h
  obtain ⟨t, us, hin, hopen, hquery, -, hrange, -⟩ := (derives_found nested ts).queries q hq
  obtain ⟨vs, ⟨ws, rfl⟩, hsuffix⟩ := List.infix_iff_prefix_suffix.1 hin
  refine ⟨t, (Group.after us).tokens ++ ws, hsuffix, hopen, ?_, by rw [hrange, Range.ofTokens_cons]⟩
  rw [← Group.startsQuery_inner] at hquery
  rw [Group.tokens, List.append_assoc]
  exact startsQuery_append hquery _

/-- A column list of an `INSERT` begins at the start of its region. -/
theorem exists_region_of_mem_startsOf
    (h : p ∈ startsOf (Region.columnLists (layout nested ts).regions) ts) :
    ∃ r ∈ (layout nested ts).regions, r.clause = .insertColumns ∧ r.head.start = p := by
  obtain ⟨t, us, ht, hrank, rfl⟩ := mem_startsOf_iff.1 h
  obtain ⟨r, hr, hclause, vs, hvs, hlength⟩ := Region.exists_of_mem_columnLists hrank
  have hsuffix := hvs.trans (regions_suffix nested ts)
  obtain ⟨rfl, -⟩ := List.cons.inj (suffix_eq_of_length hsuffix ht hlength)
  exact ⟨r, hr, hclause, rfl⟩

theorem start_ne_of_mem_regions (hts : IsOrdered ts) {r r' : Region}
    (hr : r ∈ (layout nested ts).regions) (hr' : r' ∈ (layout nested ts).regions) (hne : r ≠ r')
    {u : Token} (ht : t ∈ r.tokens) (hu : u ∈ r'.tokens) : t.start ≠ u.start :=
  (hts.mono (regions_suffix nested ts).isInfix).start_ne_of_mem_flatMap hr hr' hne ht hu

/-- Column names that are not in front of the body of a statement are at the start of a region, and the
definitions of a table are in none. -/
theorem start_notMem_listStarts (hts : IsOrdered ts) (hreserves : ReservesTable ts) {r : Region}
    (hr : r ∈ (layout nested ts).regions) (hctes : r.clause ≠ .ctes)
    (hcolumns : r.clause ≠ .insertColumns) (ht : t ∈ r.tokens) : t.start ∉ listStarts ts := by
  have hbody : r.tokens <:+: (heading nested ts).rest := by
    rcases Layout.of_mem_regions hr with ⟨_, -, heq, -⟩ | ⟨hin, -⟩
    · exact absurd heq hctes
    · exact hin
  rw [listStarts_eq nested]
  simp only [List.mem_append, not_or]
  refine ⟨⟨fun hmem => ?_, fun hmem => ?_⟩, fun hmem => ?_⟩
  · exact ne_start_of_mem_rest hts (List.mem_filter.1 hmem).1 (hbody.subset ht) rfl
  · obtain ⟨v, vs, hv, hrank, hstart⟩ := mem_startsOf_iff.1 hmem
    have hdefinitions := Option.mem_toList.1 hrank
    have hreserves' : ReservesTable (heading nested ts).rest :=
      fun t ht => hreserves t ((skips_heading nested ts).suffix.subset ht)
    obtain ⟨hkind, -⟩ := ObjectHead.exists_of_definitions hreserves' hdefinitions
    rcases Layout.of_mem_regions hr with ⟨_, -, heq, -⟩ | ⟨-, ⟨s, hcut⟩ | ⟨-, hdml, -⟩⟩
    · exact hctes heq
    · obtain ⟨u, us, hsuffix, hlength, hu⟩ :=
        Region.exists_mem_cut_of_definitions hreserves' hdefinitions s
      obtain ⟨rfl, -⟩ := List.cons.inj
        (suffix_eq_of_length (hsuffix.trans (skips_heading nested ts).suffix) hv hlength)
      have hsplit := hts.mono (skips_heading nested ts).suffix.isInfix
      rw [← Region.cut_flatten (.ofTokens (heading nested ts).rest) s
        (heading nested ts).rest] at hsplit
      exact hsplit.start_ne hu (List.mem_flatMap.2 ⟨r, hcut, ht⟩) hstart
    · rw [hkind] at hdml
      contradiction
  · obtain ⟨r', hr', hclause, hhead⟩ := exists_region_of_mem_startsOf hmem
    have hne : r' ≠ r := by
      rintro rfl
      exact hcolumns hclause
    exact start_ne_of_mem_regions hts hr' hr hne List.mem_cons_self ht hhead

/-! ### Ranges -/

theorem follow_ctes (hts : IsOrdered ts) :
    Range.Follow ((build nested ts).ctes.map Cte.range) where
  start_lt_stop r hr := by
    obtain ⟨c, hc, rfl⟩ := List.mem_map.1 hr
    obtain ⟨span, hin, hreads⟩ := exists_reads_of_mem_ctes hc
    rw [hreads.range_eq]
    exact (hts.mono hin).start_lt_stop_ofTokens hreads.ne_nil
  pairwise := by
    rw [ctes_build]
    exact List.pairwise_map.2 (pairwise_heading hts)

theorem follow_found (hts : IsOrdered ts) :
    Range.Follow ((found nested ts).subqueries.map Subquery.range) where
  start_lt_stop r hr := by
    obtain ⟨q, hq, rfl⟩ := List.mem_map.1 hr
    obtain ⟨t, us, hin, -, -, -, hrange, -⟩ := (derives_found nested ts).queries q hq
    rw [hrange]
    exact (hts.mono (hin.trans (skips_heading nested ts).suffix.isInfix)).start_lt_stop_ofTokens
      (List.cons_ne_nil t _)
  pairwise := List.pairwise_map.2 (pairwise_found hts)

theorem follow_queryGroups (hts : IsOrdered ts) (claimed : List Position) :
    Range.Follow ((queryGroups claimed ts).map Range.ofTokens) where
  start_lt_stop r hr := by
    obtain ⟨g, hg, rfl⟩ := List.mem_map.1 hr
    exact (hts.mono (isInfix_of_mem_queryGroups hg)).start_lt_stop_ofTokens
      (ne_nil_of_mem_queryGroups hg)
  pairwise := by
    refine List.pairwise_map.2 ?_
    exact hts.pairwise_spans (flatten_queryGroups_sublist claimed ts) fun _ => ne_nil_of_mem_queryGroups

theorem startsQuery_of_claimed (hts : IsOrdered ts) :
    ∀ t us, t :: us <:+ ts → t.isOpen → t.start ∈ bodyStarts nested ts ++ derivedStarts nested ts →
      startsQuery us := by
  intro t us ht hopen hmem
  rcases List.mem_append.1 hmem with hbody | hderived
  · exact (hts.mem_queryStarts_iff ht hopen).1 (of_decide_eq_true (List.mem_filter.1 hbody).2)
  · obtain ⟨u, vs, hu, -, hstarts, hstart⟩ := exists_of_mem_derivedStarts hderived
    have hsame := hts.suffix_eq (hu.trans (skips_heading nested ts).suffix) ht hstart
    obtain ⟨rfl, rfl⟩ := List.cons.inj hsame
    exact hstarts

/-- The queries in expressions are the ones that are left when the bodies of common table expressions
and the derived tables are taken away. -/
theorem outermost_claimedStarts (hts : IsOrdered ts) :
    outermost nested ts (claimedStarts nested ts) =
      (queryGroups (listStarts ts) ts).filter fun g =>
        (Range.ofTokens g).start ∉ bodyStarts nested ts ++ derivedStarts nested ts := by
  rw [outermost_eq, queryGroups_congr fun t _ => mem_claimedStarts_iff,
    queryGroups_append_claimed (startsQuery_of_claimed hts)]

theorem map_range_expressions_eq (hts : IsOrdered ts) :
    (expressions nested ts).map Subquery.range =
      ((queryGroups (listStarts ts) ts).filter fun g =>
        (Range.ofTokens g).start ∉ bodyStarts nested ts ++ derivedStarts nested ts).map
          Range.ofTokens := by
  rw [map_range_expressions hts, outermost_claimedStarts hts]

/-! ### Counting -/

/-- The group of a query is known by its parenthesis. -/
theorem eq_of_mem_queryGroups (hts : IsOrdered ts) {claimed : List Position} {g : List Token}
    (hg : g ∈ queryGroups claimed ts) (ht : t :: us <:+ ts)
    (hstart : (Range.ofTokens g).start = t.start) : g = t :: (Group.after us).tokens := by
  obtain ⟨u, vs, hu, -, rfl⟩ := exists_of_mem_queryGroups hg
  rw [Range.ofTokens_cons] at hstart
  obtain ⟨rfl, rfl⟩ := List.cons.inj (hts.suffix_eq hu ht hstart)
  rfl

variable {g : List Token}

/-- The body of a common table expression is one of the queries. -/
theorem exists_cte_of_mem_bodyStarts (hts : IsOrdered ts) {claimed : List Position}
    (hg : g ∈ queryGroups claimed ts) (hbody : (Range.ofTokens g).start ∈ bodyStarts nested ts) :
    ∃ c ∈ (build nested ts).ctes, c.range.stop = (Range.ofTokens g).stop ∧
      c.body = nested (Group.after g.tail).inner := by
  obtain ⟨hgroup, hquery⟩ := List.mem_filter.1 hbody
  obtain ⟨t, us, ht, hstart, hopen, -, hholds⟩ := exists_holds_of_mem_startsOf hgroup
  obtain rfl := eq_of_mem_queryGroups hts hg ht hstart.symm
  rw [ctes_build]
  rcases hholds with hnone | ⟨-, c, hc, hstop, heq⟩
  · rw [← hstart, decide_eq_true_eq, hts.mem_queryStarts_iff ht hopen, hnone] at hquery
    contradiction
  · exact ⟨c, hc, hstop, by rw [heq, List.tail_cons, Group.inner_tokens]⟩

/-- A query that is no body of a common table expression is apart from all of them. -/
theorem apart_ctes_of_notMem_bodyStarts (hts : IsOrdered ts)
    (hg : g ∈ queryGroups (listStarts ts) ts)
    (hbody : (Range.ofTokens g).start ∉ bodyStarts nested ts) {c : Cte}
    (hc : c ∈ (build nested ts).ctes) : c.range.Apart (Range.ofTokens g) := by
  rw [ctes_build] at hc
  refine apart_of_mem_heading hts hc (ne_nil_of_mem_queryGroups hg) ?_
  by_cases hderived : (Range.ofTokens g).start ∈ derivedStarts nested ts
  · obtain ⟨t, us, ht, -, -, hstart⟩ := exists_of_mem_derivedStarts hderived
    obtain rfl := eq_of_mem_queryGroups hts hg (ht.trans (skips_heading nested ts).suffix) hstart.symm
    exact .inl ((Group.cons_tokens_isPrefix t us).isInfix.trans ht.isInfix)
  · refine .inr ?_
    rw [← outermost_eq, outermost_claimedStarts hts]
    exact List.mem_filter.2 ⟨hg, by simp [hbody, hderived]⟩

theorem stop_mem_ctes_iff (hts : IsOrdered ts) (hg : g ∈ queryGroups (listStarts ts) ts) :
    (Range.ofTokens g).stop ∈ ((build nested ts).ctes.map Cte.range).map Range.stop ↔
      (Range.ofTokens g).start ∈ bodyStarts nested ts := by
  constructor
  · intro hmem
    obtain ⟨r, hr, hstop⟩ := List.mem_map.1 hmem
    obtain ⟨c, hc, rfl⟩ := List.mem_map.1 hr
    refine Classical.not_not.1 fun hbody => ?_
    refine (apart_ctes_of_notMem_bodyStarts hts hg hbody hc).stop_ne ?_ ?_ hstop
    · exact (follow_ctes hts).start_lt_stop _ hr
    · exact (follow_queryGroups hts _).start_lt_stop _ (List.mem_map_of_mem hg)
  · intro hbody
    obtain ⟨c, hc, hstop, -⟩ := exists_cte_of_mem_bodyStarts hts hg hbody
    exact List.mem_map.2 ⟨_, List.mem_map_of_mem hc, hstop⟩

theorem notMem_derivedStarts (hts : IsOrdered ts) (h : p ∈ bodyStarts nested ts) :
    p ∉ derivedStarts nested ts := by
  intro hderived
  obtain ⟨t, us, ht, -, -, hstart⟩ := exists_of_mem_derivedStarts hderived
  exact ne_start_of_mem_rest hts (List.mem_filter.1 h).1 (ht.subset List.mem_cons_self) hstart

/-- Each of the queries is the body of one common table expression or one subquery. -/
theorem countP_add_countP (hts : IsOrdered ts) (hg : g ∈ queryGroups (listStarts ts) ts) :
    (((build nested ts).ctes.map Cte.range).countP fun r => r.stop = (Range.ofTokens g).stop) +
      (((build nested ts).subqueries.map Subquery.range).countP fun r =>
        r.start = (Range.ofTokens g).start) = 1 := by
  have hexpressions : Range.Follow ((expressions nested ts).map Subquery.range) := by
    refine ⟨fun r hr => ?_, List.pairwise_map.2 (pairwise_expressions hts)⟩
    rw [map_range_expressions_eq hts] at hr
    exact (follow_queryGroups hts _).start_lt_stop r ((List.filter_sublist.map _).subset hr)
  have hleft : (Range.ofTokens g).start ∈
      ((expressions nested ts).map Subquery.range).map Range.start ↔
        (Range.ofTokens g).start ∉ bodyStarts nested ts ++ derivedStarts nested ts := by
    rw [map_range_expressions_eq hts]
    constructor
    · intro hmem
      obtain ⟨r, hr, hstart⟩ := List.mem_map.1 hmem
      obtain ⟨g', hg', rfl⟩ := List.mem_map.1 hr
      exact hstart ▸ of_decide_eq_true (List.mem_filter.1 hg').2
    · intro hfree
      exact List.mem_map_of_mem (List.mem_map_of_mem
        (List.mem_filter.2 ⟨hg, decide_eq_true hfree⟩))
  have hfound : ((found nested ts).subqueries.map Subquery.range).map Range.start =
      derivedStarts nested ts := by
    rw [derivedStarts, List.map_map]
    rfl
  rw [((perm_subqueries_build nested ts).map Subquery.range).countP_eq, List.map_append,
    List.countP_append, countP_of_nodup (follow_ctes hts).nodup_stop,
    countP_of_nodup (follow_found hts).nodup_start, countP_of_nodup hexpressions.nodup_start]
  simp only [stop_mem_ctes_iff hts hg, hleft, hfound, List.mem_append, not_or]
  by_cases hbody : (Range.ofTokens g).start ∈ bodyStarts nested ts
  · simp [hbody, notMem_derivedStarts hts hbody]
  · by_cases hderived : (Range.ofTokens g).start ∈ derivedStarts nested ts <;> simp [hbody, hderived]

/-! ### No other subqueries -/

theorem exists_of_mem_expressions (hts : IsOrdered ts) {q : Subquery}
    (hq : q ∈ expressions nested ts) :
    ∃ g ∈ queryGroups (listStarts ts) ts, q.range = .ofTokens g ∧
      q.body = nested (Group.after g.tail).inner := by
  obtain ⟨g, hg, hread⟩ := exists_group_of_mem_expressions hts hq
  rw [outermost_claimedStarts hts] at hg
  exact ⟨g, (List.mem_filter.1 hg).1, hread⟩

/-- A derived table is one of the queries, or inside one that has been stepped into. -/
theorem exists_of_mem_found (hts : IsOrdered ts) (hreserves : ReservesTable ts) {q : Subquery}
    (hq : q ∈ (found nested ts).subqueries) :
    ∃ g ∈ queryGroups (listStarts ts) ts,
      (q.range = .ofTokens g ∧ q.body = nested (Group.after g.tail).inner) ∨
        (q.kind = .derived ∧ (Range.ofTokens g).start < q.range.start ∧
          q.range.stop ≤ (Range.ofTokens g).stop ∧ SteppedInto (build nested ts).issues ts g) := by
  obtain ⟨r, hr, ⟨hctes, hcolumns⟩, span, hreads, g, hg, hspan⟩ := exists_finds_of_mem hq
  obtain ⟨t, us, hin, -, -, hkind, hrange, hbody⟩ := (derives_found nested ts).queries q hq
  have hgroup : g ∈ queryGroups (listStarts ts) ts := by
    rw [← outermost_eq nested]
    refine List.mem_flatMap.2 ⟨_, List.mem_cons_of_mem _ (List.mem_map.2 ⟨r, hr, rfl⟩), ?_⟩
    have hnone : ∀ t ∈ r.tokens, t.start ∈ listStarts ts ↔ t.start ∈ [] := fun t ht => by
      simp [start_notMem_listStarts hts hreserves hr hctes hcolumns ht]
    rwa [queryGroups_congr hnone]
  have hgts := isInfix_of_mem_queryGroups hgroup
  refine ⟨g, hgroup, hspan.imp (fun heq => ?_) fun ⟨hinside, hinto⟩ => ?_⟩
  · have hq : q.range = .ofTokens g := hreads.range_eq.trans (congrArg _ heq)
    have hts' := hin.trans (skips_heading nested ts).suffix.isInfix
    obtain rfl := hts.infix_eq hts' hgts (List.cons_ne_nil t _) (ne_nil_of_mem_queryGroups hg)
      (hrange.symm.trans hq)
    exact ⟨hq, by rw [hbody, List.tail_cons, Group.inner_tokens]⟩
  · obtain ⟨a, u, rest, rfl, hbehind, hissue⟩ := hinto
    have horder := hts.mono hgts
    obtain ⟨v, hv, hstart⟩ := Range.exists_start_ofTokens hreads.ne_nil
    refine ⟨hkind, ?_, ?_, a, u, rest, rfl,
      hbehind.trans (isInfix_of_mem_regions hr), issues_found_subset nested ts hissue⟩
    · rw [hreads.range_eq, hstart, Range.ofTokens_cons]
      exact Position.lt_of_lt_of_le (horder.start_lt_stop u List.mem_cons_self)
        ((List.pairwise_cons.1 horder.pairwise).1 v (hinside.subset hv))
    · rw [hreads.range_eq]
      exact (horder.within (hinside.trans (List.suffix_cons u rest).isInfix).subset hreads.ne_nil).2

end Statement

end

end Tsql
