import Mathlib.Data.List.Forall2
import Tsql.Proofs.Statement.Marks
import Tsql.Proofs.Statement.Query
import Tsql.Proofs.Token.Claimed

/-!
Derived tables and the queries that they are read from.

The readers of tables record a derived table together with the query in its group
(`derives_tableList`, `derives_targetTable`), so each derived table of a statement has been read from a
query that is found in it (`Statement.exists_isReadBy_of_mem_tables`). With each query they record the
rank of its group (`isRanked_tableList`, `isRanked_targetTable`).
-/

namespace Tsql

section

variable {nested : List Token → Statement} {ts us : List Token} {q : Subquery}

/-- The query is that of a derived table whose group stands among the tokens. -/
def Subquery.IsDerivedIn (nested : List Token → Statement) (ts : List Token) (q : Subquery) : Prop :=
  ∃ t us, t :: (Group.after us).tokens <:+: ts ∧ t.isOpen ∧ startsQuery us ∧ q.kind = .derived ∧
    q.range = .ofTokens (t :: (Group.after us).tokens) ∧ q.body = nested (Group.after us).inner

theorem Subquery.IsDerivedIn.mono (h : q.IsDerivedIn nested ts) (hin : ts <:+: us) :
    q.IsDerivedIn nested us := by
  obtain ⟨t, vs, hgroup, hq⟩ := h
  exact ⟨t, vs, hgroup.trans hin, hq⟩

/-- The table is a derived one, and the query is the one that it is read from. -/
def TableRef.IsReadBy (t : TableRef) (q : Subquery) : Prop :=
  q.kind = .derived ∧ q.range.start = t.range.start ∧ q.aliasName = t.aliasName

/-- All queries are those of derived tables, and each derived table has its query. -/
structure Sources.Derives (nested : List Token → Statement) (ts : List Token) (found : Sources) :
    Prop where
  queries : ∀ q ∈ found.subqueries, q.IsDerivedIn nested ts
  tables : ∀ t ∈ found.tables, t.isDerived → ∃ q ∈ found.subqueries, t.IsReadBy q

namespace Sources

variable {a b : Sources}

theorem derives_of_nil (hsubqueries : a.subqueries = [])
    (htables : ∀ t ∈ a.tables, t.isDerived = false) : a.Derives nested ts where
  queries := by simp [hsubqueries]
  tables t ht hderived := by simp [htables t ht] at hderived

theorem Derives.append (ha : a.Derives nested ts) (hb : b.Derives nested ts) :
    (a ++ b).Derives nested ts where
  queries q hq := (List.mem_append.1 hq).elim (ha.queries q) (hb.queries q)
  tables t ht hderived := by
    rcases List.mem_append.1 ht with ht | ht
    · obtain ⟨q, hq, hreads⟩ := ha.tables t ht hderived
      exact ⟨q, List.mem_append_left _ hq, hreads⟩
    · obtain ⟨q, hq, hreads⟩ := hb.tables t ht hderived
      exact ⟨q, List.mem_append_right _ hq, hreads⟩

theorem Derives.mono (h : a.Derives nested ts) (hin : ts <:+: us) : a.Derives nested us where
  queries q hq := (h.queries q hq).mono hin
  tables := h.tables

theorem Derives.inFrontOf (h : a.Derives nested ts) (more : Nat) :
    (a.inFrontOf more).Derives nested ts where
  queries := h.queries
  tables := h.tables

end Sources

theorem isDerivedIn_derivedTable {clause : Clause} {t : Token} (hopen : t.isOpen)
    (hquery : startsQuery (Group.after ts).inner)
    (h : q ∈ (derivedTable nested clause t ts).2.1.subqueries) : q.IsDerivedIn nested (t :: ts) := by
  obtain rfl := List.mem_singleton.1 h
  rw [Group.startsQuery_inner] at hquery
  exact ⟨t, ts, (Group.cons_tokens_isPrefix t ts).isInfix, hopen, hquery, rfl, rfl, rfl⟩

theorem exists_isReadBy_derivedTable {clause : Clause} {t : Token} {u : TableRef}
    (h : u ∈ (derivedTable nested clause t ts).1) :
    ∃ q ∈ (derivedTable nested clause t ts).2.1.subqueries, u.IsReadBy q := by
  obtain ⟨name, hname, rfl⟩ := Option.map_eq_some_iff.1 h
  refine ⟨_, List.mem_singleton_self _, rfl, ?_, hname⟩
  have hgroup := Range.ofTokens_cons t (Group.after ts).tokens
  exact (congrArg Range.start hgroup).trans
    (Range.start_taken (length_derivedTable_le nested clause t ts)).symm

theorem derives_tableList (clause : Clause) (ts : List Token) :
    (tableList nested clause ts).Derives nested ts := by
  fun_induction tableList nested clause ts with
  | case1 => exact Sources.derives_of_nil rfl (by simp)
  | case2 t rest _ ih =>
      exact ih.mono ((skips_skipCondition rest).suffix.trans (List.suffix_cons t rest)).isInfix
  | case3 t rest _ _ ih =>
      refine (Sources.derives_of_nil rfl (by simp)).append ?_
      exact ih.mono ((List.tail_suffix rest).trans (List.suffix_cons t rest)).isInfix
  | case4 t rest _ _ _ ih =>
      exact ih.mono ((skips_behindPivot rest).suffix.trans (List.suffix_cons t rest)).isInfix
  | case5 t rest _ _ _ hopen group hquery derived ih =>
      have hrest := (skips_derivedTable nested clause t rest).suffix.trans (Group.rest_suffix rest)
      refine Sources.Derives.append ⟨fun q hq => ?_, fun u hu _ => ?_⟩
        (ih.mono (hrest.trans (List.suffix_cons t rest)).isInfix)
      · rw [Sources.subqueries_append, List.append_nil] at hq
        exact isDerivedIn_derivedTable hopen hquery hq
      · obtain ⟨q, hq, hreads⟩ := exists_isReadBy_derivedTable (Option.mem_toList.1 hu)
        exact ⟨q, List.mem_append_left _ hq, hreads⟩
  | case6 t rest _ _ _ _ group _ ihInner ihRest =>
      have hrest := (Group.rest_suffix rest).trans (List.suffix_cons t rest)
      have hinner := (ihInner.mono (Group.inner_isInfix t rest)).inFrontOf
      exact (hinner _).append (ihRest.mono hrest.isInfix)
  | case7 t rest _ _ _ _ hname named ih =>
      refine (Sources.derives_of_nil rfl fun u hu => ?_).append ?_
      · exact (isNamed_namedTable (Option.mem_toList.1 hu)).isDerived
      · exact ih.mono (skips_namedTable (t :: rest)).suffix.isInfix
  | case8 t rest _ _ _ _ _ ih => exact ih.mono (List.suffix_cons t rest).isInfix

theorem derives_targetTable (ts : List Token) :
    (targetTable nested ts).2.Derives nested ts ∧
      ∀ t ∈ (targetTable nested ts).1, t.isDerived →
        ∃ q ∈ (targetTable nested ts).2.subqueries, t.IsReadBy q := by
  have hskips := (skips_skipTargetWords ts).suffix.isInfix
  unfold targetTable
  split
  · exact ⟨Sources.derives_of_nil rfl (by simp), by simp⟩
  · next t rest heq =>
    rw [heq] at hskips
    split
    · next hopen =>
      dsimp only
      split
      · next hquery =>
        exact ⟨⟨fun q hq => (isDerivedIn_derivedTable hopen hquery hq).mono hskips,
          by simp [derivedTable]⟩, fun u hu _ => exists_isReadBy_derivedTable hu⟩
      · have hinner := (Group.inner_isInfix t rest).trans hskips
        exact ⟨((derives_tableList .target _).mono hinner).inFrontOf _, by simp⟩
    · refine ⟨Sources.derives_of_nil rfl (by simp), fun u hu hderived => ?_⟩
      rw [(isNamed_namedTable hu).isDerived] at hderived
      contradiction

theorem Sources.derives_ofRegion (seen : Bool) (r : Region) :
    (ofRegion nested seen r).Derives nested r.tokens := by
  have htail : r.tail <:+: r.tokens := (List.suffix_cons r.head r.tail).isInfix
  unfold ofRegion
  split
  · exact (derives_targetTable r.tail).1.mono htail
  · split <;> exact derives_of_nil rfl (by simp)
  · refine (derives_tableList .sources _).mono ?_
    split
    · exact htail
    · exact List.infix_rfl
  · exact (derives_tableList .mergeSource r.tail).mono htail
  · exact derives_of_nil rfl (by simp)

theorem Sources.derives_ofRegions (seen : Bool) {rs : List Region}
    (hin : ∀ r ∈ rs, r.clause ≠ .ctes → r.tokens <:+: ts) :
    (ofRegions nested seen rs).Derives nested ts := by
  induction rs generalizing seen with
  | nil => exact derives_of_nil rfl (by simp [ofRegions])
  | cons r rs ih =>
      obtain ⟨hr, hrs⟩ := List.forall_mem_cons.1 hin
      rw [ofRegions_cons]
      refine Derives.append ?_ (ih _ hrs)
      by_cases hctes : r.clause = .ctes
      · have hnone : ofRegion nested seen r = {} := by simp [ofRegion, hctes]
        exact derives_of_nil (by simp [hnone]) (by simp [hnone])
      · exact ((derives_ofRegion seen r).mono (hr hctes)).inFrontOf _

theorem Sources.mem_ofRegions_of_target (seen : Bool) {rs : List Region} {r : Region} (hr : r ∈ rs)
    (htarget : r.clause = .target) (hq : q ∈ (targetTable nested r.tail).2.subqueries) :
    q ∈ (ofRegions nested seen rs).subqueries := by
  induction rs generalizing seen with
  | nil => contradiction
  | cons r' rs ih =>
      rw [ofRegions_cons, subqueries_append]
      rcases List.mem_cons.1 hr with rfl | hr
      · refine List.mem_append_left _ ?_
        simpa [ofRegion, htarget] using hq
      · exact List.mem_append_right _ (ih _ hr)

/-! ### The ranks of queries -/

/-- The query stands in the group with the rank. -/
def Subquery.HasRank (ts : List Token) (rank : Nat) (q : Subquery) : Prop :=
  ∃ t us, t :: us <:+ ts ∧ (t :: us).length = rank ∧ t.start = q.range.start

/-- Each query is recorded with the rank of its group. -/
def Sources.IsRanked (ts : List Token) (found : Sources) : Prop :=
  List.Forall₂ (Subquery.HasRank ts) found.groups found.subqueries

theorem exists_of_mem_forall₂ {α β : Type} {R : α → β → Prop} {as : List α} {bs : List β}
    (h : List.Forall₂ R as bs) {a : α} (ha : a ∈ as) : ∃ b ∈ bs, R a b := by
  induction h with
  | nil => contradiction
  | cons hab _ ih =>
      rcases List.mem_cons.1 ha with rfl | ha
      · exact ⟨_, List.mem_cons_self, hab⟩
      · obtain ⟨b, hb, hR⟩ := ih ha
        exact ⟨b, List.mem_cons_of_mem _ hb, hR⟩

namespace Sources.IsRanked

variable {a b : Sources}

theorem append (ha : a.IsRanked ts) (hb : b.IsRanked ts) : (a ++ b).IsRanked ts :=
  List.rel_append ha hb

theorem mono (h : a.IsRanked ts) (hts : ts <:+ us) : a.IsRanked us :=
  h.imp fun _ _ ⟨t, vs, hsuffix, hrank⟩ => ⟨t, vs, hsuffix.trans hts, hrank⟩

theorem inFrontOf (h : a.IsRanked ts) (us : List Token) :
    (a.inFrontOf us.length).IsRanked (ts ++ us) := by
  refine List.forall₂_map_left_iff.2 (h.imp fun rank q hrank => ?_)
  obtain ⟨t, vs, ⟨front, rfl⟩, rfl, hstart⟩ := hrank
  refine ⟨t, vs ++ us, ⟨front, ?_⟩, ?_, hstart⟩
  · rw [List.append_assoc, List.cons_append]
  · rw [← List.cons_append, List.length_append]

theorem inGroup (h : a.IsRanked (Group.after ts).inner) :
    (a.inFrontOf (ts.length - (Group.after ts).inner.length)).IsRanked ts := by
  obtain ⟨more, hmore⟩ : (Group.after ts).inner <+: ts :=
    (List.prefix_append _ _).trans ⟨_, Group.tokens_append_rest ts⟩
  have hlength : ts.length - (Group.after ts).inner.length = more.length := by
    have hsplit := congrArg List.length hmore
    rw [List.length_append] at hsplit
    omega
  rw [hlength]
  exact hmore ▸ h.inFrontOf more

/-- The recorded ranks are those of the tokens with which the queries begin. -/
theorem mem_startsOf_iff (h : a.IsRanked ts) {p : Position} :
    p ∈ startsOf a.groups ts ↔ p ∈ a.subqueries.map fun q => q.range.start := by
  rw [Tsql.mem_startsOf_iff, List.mem_map]
  constructor
  · rintro ⟨t, us, hsuffix, hrank, rfl⟩
    obtain ⟨q, hq, u, vs, hsuffix', hlength, hstart⟩ := exists_of_mem_forall₂ h hrank
    obtain ⟨rfl, -⟩ := List.cons.inj (suffix_eq_of_length hsuffix' hsuffix hlength)
    exact ⟨q, hq, hstart.symm⟩
  · rintro ⟨q, hq, rfl⟩
    obtain ⟨rank, hrank, t, us, hsuffix, hlength, hstart⟩ := exists_of_mem_forall₂ h.flip hq
    exact ⟨t, us, hsuffix, hlength ▸ hrank, hstart⟩

theorem le_length (h : a.IsRanked ts) {rank : Nat} (hrank : rank ∈ a.groups) :
    rank ≤ ts.length := by
  obtain ⟨-, -, t, us, hsuffix, rfl, -⟩ := exists_of_mem_forall₂ h hrank
  exact hsuffix.length_le

end Sources.IsRanked

theorem isRanked_derivedTable (nested : List Token → Statement) (clause : Clause) (t : Token)
    (ts : List Token) : (derivedTable nested clause t ts).2.1.IsRanked (t :: ts) := by
  refine .cons ⟨t, ts, List.suffix_rfl, rfl, ?_⟩ .nil
  exact (congrArg Range.start (Range.ofTokens_cons t (Group.after ts).tokens)).symm

theorem isRanked_tableList (clause : Clause) (ts : List Token) :
    (tableList nested clause ts).IsRanked ts := by
  fun_induction tableList nested clause ts with
  | case1 => exact .nil
  | case2 t rest _ ih =>
      exact ih.mono ((skips_skipCondition rest).suffix.trans (List.suffix_cons t rest))
  | case3 t rest _ _ ih =>
      have hrest := (List.tail_suffix rest).trans (List.suffix_cons t rest)
      exact Sources.IsRanked.append .nil (ih.mono hrest)
  | case4 t rest _ _ _ ih =>
      exact ih.mono ((skips_behindPivot rest).suffix.trans (List.suffix_cons t rest))
  | case5 t rest _ _ _ _ group _ derived ih =>
      have hrest := (skips_derivedTable nested clause t rest).suffix.trans (Group.rest_suffix rest)
      refine Sources.IsRanked.append ?_ (ih.mono (hrest.trans (List.suffix_cons t rest)))
      exact (isRanked_derivedTable nested clause t rest).append .nil
  | case6 t rest _ _ _ _ group _ ihInner ihRest =>
      have hrest := (Group.rest_suffix rest).trans (List.suffix_cons t rest)
      exact (ihInner.inGroup.mono (List.suffix_cons t rest)).append (ihRest.mono hrest)
  | case7 t rest _ _ _ _ hname named ih =>
      exact Sources.IsRanked.append .nil (ih.mono (skips_namedTable (t :: rest)).suffix)
  | case8 t rest _ _ _ _ _ ih => exact ih.mono (List.suffix_cons t rest)

theorem isRanked_targetTable (ts : List Token) : (targetTable nested ts).2.IsRanked ts := by
  have hskips := (skips_skipTargetWords ts).suffix
  unfold targetTable
  split
  · exact .nil
  · next t rest heq =>
    rw [heq] at hskips
    split
    · dsimp only
      split
      · exact (isRanked_derivedTable nested .target t rest).mono hskips
      · have hinner : (tableList nested .target (Group.after rest).inner).IsRanked _ :=
          isRanked_tableList .target _
        exact hinner.inGroup.mono ((List.suffix_cons t rest).trans hskips)
    · exact .nil

theorem Sources.isRanked_ofRegion (seen : Bool) (r : Region) :
    (ofRegion nested seen r).IsRanked r.tokens := by
  have htail : r.tail <:+ r.tokens := List.suffix_cons r.head r.tail
  unfold ofRegion
  split
  · exact (isRanked_targetTable r.tail).mono htail
  · split <;> exact .nil
  · split
    · exact (isRanked_tableList .sources r.tail).mono htail
    · exact isRanked_tableList .sources r.tokens
  · exact (isRanked_tableList .mergeSource r.tail).mono htail
  · exact .nil

theorem Sources.isRanked_ofRegions (seen : Bool) (rs : List Region) :
    (ofRegions nested seen rs).IsRanked (rs.flatMap Region.tokens) := by
  induction rs generalizing seen with
  | nil => exact .nil
  | cons r rs ih =>
      rw [ofRegions_cons, List.flatMap_cons]
      exact ((isRanked_ofRegion seen r).inFrontOf _).append ((ih _).mono (List.suffix_append _ _))

namespace Statement

theorem isRanked_found (nested : List Token → Statement) (ts : List Token) :
    (found nested ts).IsRanked ts :=
  (Sources.isRanked_ofRegions false _).mono (regions_suffix nested ts)

/-- What is found in a statement are derived tables behind its common table expressions. -/
theorem derives_found (nested : List Token → Statement) (ts : List Token) :
    (found nested ts).Derives nested (heading nested ts).rest := by
  refine Sources.derives_ofRegions false fun r hr hctes => ?_
  rcases Layout.of_mem_regions hr with ⟨_, -, heq, -⟩ | ⟨hin, -⟩
  · exact absurd heq hctes
  · exact hin

/-- Each derived table of a statement is read from a query that is found in it. -/
theorem exists_isReadBy_of_mem_tables {t : TableRef} (h : t ∈ (build nested ts).tables)
    (hderived : t.isDerived) :
    ∃ q ∈ (found nested ts).subqueries, t.IsReadBy q ∧
      t.subqueryIndex = (build nested ts).subqueries.findIdx? (Subquery.isDerivedAt t.range.start) := by
  cases ts with
  | nil => simp [build] at h
  | cons first rest =>
      simp only [build, linkDerived_eq] at h
      obtain ⟨u, hu, rfl⟩ := List.mem_map.1 h
      rw [TableRef.isDerived_linkedIn] at hderived
      have hread : ∃ q ∈ (found nested (first :: rest)).subqueries, u.IsReadBy q := by
        rcases mem_of_mem_placeTarget hu with htarget | hu
        · obtain ⟨r, hr, ht⟩ := Option.bind_eq_some_iff.1 htarget
          obtain ⟨q, hq, hreads⟩ := (derives_targetTable r.tail).2 u ht hderived
          have hclause : r.clause = .target := by simpa using List.find?_some hr
          exact ⟨q, Sources.mem_ofRegions_of_target false (List.mem_of_find?_eq_some hr) hclause hq,
            hreads⟩
        · rcases List.mem_append.1 hu with hu | hu
          · exact (derives_found nested (first :: rest)).tables u hu hderived
          · obtain ⟨us, hname⟩ := ObjectHead.exists_tableName (Option.mem_toList.1 hu)
            rw [(isNamed_tableName hname).isDerived] at hderived
            contradiction
      obtain ⟨q, hq, hkind, hstart, halias⟩ := hread
      refine ⟨q, hq, ⟨hkind, by rw [TableRef.range_linkedIn, hstart],
        by rw [TableRef.aliasName_linkedIn, halias]⟩, ?_⟩
      rw [TableRef.range_linkedIn, TableRef.linkedIn, if_pos hderived]
      rfl

end Statement

end

end Tsql
