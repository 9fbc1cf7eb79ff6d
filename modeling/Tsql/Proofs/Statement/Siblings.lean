import Mathlib.Data.List.Pairwise
import Tsql.Proofs.Statement.Derived

/-!
The places of the queries that are nested directly in a statement.

Common table expressions follow each other, derived tables do (`Statement.pairwise_found`) and queries
in expressions do (`Statement.pairwise_expressions`); an expression of a `WITH` is apart from both
(`Statement.apart_ctes_subqueries`). A derived table and a query in an expression are apart as well,
but for one case: an `AS` in place of a table is reported and left out together with the token behind
it, even where this is a parenthesis, and tables are then found in a group that is still read as an
expression (`Statement.apart_or_steppedInto`).

Groups are claimed by their ranks. In ordered tokens a group is known by where it begins as well, so the
queries in expressions are those of the pieces that do not begin at a claimed position
(`Statement.expressions_eq`).
-/

namespace Tsql

theorem Group.inner_append_rest_sublist (ts : List Token) :
    ((after ts).inner ++ (after ts).rest).Sublist ts := by
  have hinner : (after ts).inner.Sublist (after ts).tokens := List.sublist_append_left _ _
  have happend := hinner.append (List.Sublist.refl (after ts).rest)
  rwa [tokens_append_rest] at happend

section

variable {nested : List Token → Statement} {ts us xs ys : List Token} {a b q : Subquery}

/-! ### Derived tables -/

theorem Subquery.stop_le_start (h : IsOrdered (xs ++ ys))
    (ha : ∃ span, span <:+: xs ∧ a.Reads nested span)
    (hb : ∃ span, span <:+: ys ∧ b.Reads nested span) : a.range.stop ≤ b.range.start := by
  obtain ⟨as, has, ha⟩ := ha
  obtain ⟨bs, hbs, hb⟩ := hb
  rw [ha.range_eq, hb.range_eq]
  exact h.stop_le_start_of_sublist has.sublist hbs.sublist ha.ne_nil hb.ne_nil

/-- Derived tables are found in the order of the text. -/
theorem pairwise_tableList (clause : Clause) (h : IsOrdered ts) :
    (tableList nested clause ts).subqueries.Pairwise fun a b => a.range.stop ≤ b.range.start := by
  fun_induction tableList nested clause ts with
  | case1 => exact .nil
  | case2 t rest hon ih =>
      have hskips := Skips.token (Token.isOpen_of_isKeyword hon) (skips_skipCondition rest)
      exact ih (h.mono hskips.suffix.isInfix)
  | case3 t rest _ has ih =>
      exact ih (h.mono ((List.tail_suffix rest).trans (List.suffix_cons t rest)).isInfix)
  | case4 t rest _ _ hpivot ih =>
      have hskips := Skips.token (Token.isOpen_of_isAnyKeyword hpivot) (skips_behindPivot rest)
      exact ih (h.mono hskips.suffix.isInfix)
  | case5 t rest _ _ _ hopen group hquery derived ih =>
      have hbehind := skips_derivedTable nested clause t rest
      have hsplit : IsOrdered ((t :: group.tokens) ++ group.rest) := by
        rwa [List.cons_append, Group.tokens_append_rest]
      refine List.pairwise_append.2 ⟨List.pairwise_singleton _ _, ?_, fun a ha b hb => ?_⟩
      · exact ih (h.mono (Skips.group hopen hbehind).suffix.isInfix)
      · obtain ⟨span, hin, hreads⟩ := (finds_tableList clause _ b hb).isInfix
        rw [Sources.subqueries_append, List.append_nil] at ha
        exact Subquery.stop_le_start hsplit ⟨_, List.infix_rfl, reads_derivedTable hopen ha⟩
          ⟨span, hin.trans hbehind.suffix.isInfix, hreads⟩
  | case6 t rest _ _ _ hopen group hquery ihInner ihRest =>
      have hsplit : IsOrdered (group.inner ++ group.rest) :=
        h.sublist ((Group.inner_append_rest_sublist rest).cons t)
      refine List.pairwise_append.2 ⟨ihInner (hsplit.mono (List.prefix_append _ _).isInfix),
        ihRest (hsplit.mono (List.suffix_append _ _).isInfix), fun a ha b hb => ?_⟩
      exact Subquery.stop_le_start hsplit (finds_tableList clause _ a ha).isInfix
        (finds_tableList clause _ b hb).isInfix
  | case7 t rest _ _ _ _ hname named ih =>
      exact ih (h.mono (skips_namedTable (t :: rest)).suffix.isInfix)
  | case8 t rest _ _ _ hopen _ ih => exact ih (h.mono (List.suffix_cons t rest).isInfix)

theorem pairwise_targetTable (h : IsOrdered ts) :
    (targetTable nested ts).2.subqueries.Pairwise fun a b => a.range.stop ≤ b.range.start := by
  have hskips := skips_skipTargetWords ts
  unfold targetTable
  split
  · exact .nil
  · next t rest heq =>
    rw [heq] at hskips
    split
    · dsimp only
      split
      · exact List.pairwise_singleton _ _
      · have hinner := (Group.inner_isInfix t rest).trans hskips.suffix.isInfix
        exact pairwise_tableList .target (h.mono hinner)
    · exact .nil

theorem Sources.pairwise_ofRegion (seen : Bool) {r : Region} (h : IsOrdered r.tokens) :
    (ofRegion nested seen r).subqueries.Pairwise fun a b => a.range.stop ≤ b.range.start := by
  have htail : IsOrdered r.tail := h.mono (List.suffix_cons r.head r.tail).isInfix
  unfold ofRegion
  split
  · exact pairwise_targetTable htail
  · split <;> exact .nil
  · split
    · exact pairwise_tableList .sources htail
    · exact pairwise_tableList .sources h
  · exact pairwise_tableList .mergeSource htail
  · exact .nil

theorem Sources.pairwise_ofRegions (seen : Bool) {rs : List Region}
    (hheads : ∀ r ∈ rs, r.clause ≠ .ctes → r.clause ≠ .insertColumns → r.head.isOpen = false)
    (h : IsOrdered (rs.flatMap Region.tokens)) :
    (ofRegions nested seen rs).subqueries.Pairwise fun a b => a.range.stop ≤ b.range.start := by
  induction rs generalizing seen with
  | nil => exact .nil
  | cons r rs ih =>
      obtain ⟨hhead, hrest⟩ := List.forall_mem_cons.1 hheads
      rw [List.flatMap_cons] at h
      rw [ofRegions_cons]
      refine List.pairwise_append.2
        ⟨pairwise_ofRegion seen (h.mono (List.prefix_append _ _).isInfix),
          ih _ hrest (h.mono (List.suffix_append _ _).isInfix), fun a ha b hb => ?_⟩
      obtain ⟨r', hr', -, hfinds⟩ := finds_ofRegions _ hrest b hb
      obtain ⟨span, hin, hreads⟩ := hfinds.isInfix
      refine Subquery.stop_le_start h (finds_ofRegion seen hhead a ha).2.isInfix
        ⟨span, hin.trans ?_, hreads⟩
      exact isInfix_flatMap hr'

/-! ### Queries in expressions -/

/-- Whether the tokens begin at one of the positions. -/
def startsAt (starts : List Position) (ts : List Token) : Bool :=
  ts.head?.any fun t => starts.contains t.start

theorem startsAt_cons (starts : List Position) (t : Token) (ts : List Token) :
    startsAt starts (t :: ts) = starts.contains t.start := rfl

/-- What is claimed only counts at the tokens. -/
theorem expressionQueries_congr {claimed claimed' : List Token → Bool} (clause : Option Clause)
    (h : ∀ t us, t :: us <:+ ts → claimed (t :: us) = claimed' (t :: us)) :
    expressionQueries nested claimed clause ts = expressionQueries nested claimed' clause ts := by
  fun_induction expressionQueries nested claimed clause ts with
  | case1 => rw [expressionQueries]
  | case2 t rest group hclaimed ih =>
      have hrest := (Group.rest_suffix rest).trans (List.suffix_cons t rest)
      rw [h t rest List.suffix_rfl] at hclaimed
      rw [expressionQueries.eq_2, if_pos hclaimed]
      exact ih fun u us hu => h u us (hu.trans hrest)
  | case3 t rest group hclaimed hquery ih =>
      have hrest := (Group.rest_suffix rest).trans (List.suffix_cons t rest)
      rw [h t rest List.suffix_rfl] at hclaimed
      rw [expressionQueries.eq_2, if_neg hclaimed, if_pos hquery]
      exact congrArg _ (ih fun u us hu => h u us (hu.trans hrest))
  | case4 t rest group hclaimed hquery ih =>
      rw [h t rest List.suffix_rfl] at hclaimed
      rw [expressionQueries.eq_2, if_neg hclaimed, if_neg hquery]
      exact ih fun u us hu => h u us (hu.trans (List.suffix_cons t rest))

/-- In ordered tokens the claimed groups are known by where they begin. -/
theorem Layout.expressionQueries_eq (h : IsOrdered ts) (claimed : List Nat)
    {pieces : List (Option Clause × List Token)} (hpieces : pieces.flatMap Prod.snd <:+ ts) :
    Layout.expressionQueries nested claimed pieces =
      pieces.flatMap fun piece =>
        Tsql.expressionQueries nested (startsAt (startsOf claimed ts)) piece.1 piece.2 := by
  induction pieces with
  | nil => rfl
  | cons piece later ih =>
      rw [List.flatMap_cons] at hpieces ⊢
      rw [Layout.expressionQueries, ih ((List.suffix_append _ _).trans hpieces)]
      refine congrArg (· ++ _) (expressionQueries_congr piece.1 fun t us hin => ?_)
      obtain ⟨front, hfront⟩ := hin
      have hsuffix : t :: (us ++ later.flatMap Prod.snd) <:+ ts := by
        refine List.IsSuffix.trans ⟨front, ?_⟩ hpieces
        rw [← hfront, List.append_assoc, List.cons_append]
      have hstart : t.start ∈ startsOf claimed ts ↔ _ := h.mem_startsOf_iff hsuffix
      rw [← List.cons_append, List.length_append] at hstart
      rw [Bool.eq_iff_iff, isClaimed, List.contains_iff_mem, ← hstart]
      exact List.contains_iff_mem.symm

theorem map_range_expressionQueries (starts : List Position) (clause : Option Clause)
    (ts : List Token) :
    (expressionQueries nested (startsAt starts) clause ts).map Subquery.range =
      (queryGroups starts ts).map Range.ofTokens := by
  fun_induction expressionQueries nested (startsAt starts) clause ts with
  | case1 => rw [queryGroups_nil, List.map_nil, List.map_nil]
  | case2 t rest group hclaimed ih =>
      rw [startsAt_cons] at hclaimed
      rw [queryGroups, if_pos hclaimed, ih]
  | case3 t rest group hclaimed hquery ih =>
      rw [startsAt_cons] at hclaimed
      rw [queryGroups, if_neg hclaimed, if_pos hquery, List.map_cons, List.map_cons, ih]
  | case4 t rest group hclaimed hquery ih =>
      rw [startsAt_cons] at hclaimed
      rw [queryGroups, if_neg hclaimed, if_neg hquery, ih]

/-- A query in an expression is read in its group. -/
theorem exists_group_of_mem_expressionQueries {starts : List Position} {clause : Option Clause}
    (h : q ∈ expressionQueries nested (startsAt starts) clause ts) :
    ∃ g ∈ queryGroups starts ts,
      q.range = .ofTokens g ∧ q.body = nested (Group.after g.tail).inner := by
  fun_induction expressionQueries nested (startsAt starts) clause ts with
  | case1 => exact absurd h List.not_mem_nil
  | case2 t rest group hclaimed ih =>
      rw [startsAt_cons] at hclaimed
      rw [queryGroups, if_pos hclaimed]
      exact ih h
  | case3 t rest group hclaimed hquery ih =>
      rw [startsAt_cons] at hclaimed
      rw [queryGroups, if_neg hclaimed, if_pos hquery]
      rcases List.mem_cons.1 h with rfl | h
      · exact ⟨_, List.mem_cons_self, rfl, by rw [List.tail_cons, Group.inner_tokens]⟩
      · obtain ⟨g, hg, hread⟩ := ih h
        exact ⟨g, List.mem_cons_of_mem _ hg, hread⟩
  | case4 t rest group hclaimed hquery ih =>
      rw [startsAt_cons] at hclaimed
      rw [queryGroups, if_neg hclaimed, if_neg hquery]
      exact ih h

/-! ### Common table expressions -/

namespace CteList

/-- An expression ends before what stands behind it in the list begins. -/
theorem stop_le_of_mem_one {name : Token} (hname : name.isName) (h : IsOrdered (name :: ts)) {c : Cte}
    (hc : c ∈ (one nested name ts).ctes) :
    ∃ behind, Skips behind (one nested name ts).rest ∧ (∀ t ∈ behind, c.range.stop ≤ t.start) ∧
      ∀ claimed, startsOf (one nested name ts).groups (name :: ts) ⊆ claimed →
        queryGroups claimed (name :: ts) = queryGroups claimed behind := by
  obtain ⟨d, span, behind, hctes, hsplit, hreads, hskips, hclaimed⟩ := exists_one nested hname ts
  obtain rfl := List.mem_singleton.1 (hctes ▸ hc)
  refine ⟨behind, hskips, fun t ht => ?_, hclaimed⟩
  obtain ⟨u, hu, hstop⟩ := Range.exists_stop_ofTokens hreads.ne_nil
  rw [hreads.range_eq, hstop]
  rw [← hsplit] at h
  exact (List.pairwise_append.1 h.pairwise).2.2 u hu t ht

theorem stop_le_rest (h : IsOrdered ts) :
    ∀ c ∈ (ofTokens nested ts).ctes, ∀ t ∈ (ofTokens nested ts).rest, c.range.stop ≤ t.start := by
  fun_induction ofTokens nested ts with
  | case1 => simp
  | case2 name rest hname first comma more heq hcomma ih =>
      have hmore : more <:+ name :: rest := by
        have hrest : comma :: more <:+ rest := heq ▸ (skips_one nested name rest).suffix
        exact (List.suffix_cons comma more).trans (hrest.trans (List.suffix_cons name rest))
      intro c hc t ht
      rcases List.mem_append.1 hc with hc | hc
      · obtain ⟨behind, hskips, hstop, -⟩ := stop_le_of_mem_one hname h hc
        have hbehind : comma :: more <:+ behind := heq ▸ hskips.suffix
        have hmem := (skips_ofTokens nested more).suffix.subset ht
        exact hstop t (hbehind.subset (List.mem_cons_of_mem comma hmem))
      · exact ih (h.mono hmore.isInfix) c hc t ht
  | case3 name rest hname first comma more heq hcomma =>
      intro c hc t ht
      obtain ⟨behind, hskips, hstop, -⟩ := stop_le_of_mem_one hname h hc
      exact hstop t (hskips.suffix.subset ht)
  | case4 name rest hname first heq =>
      intro c hc t ht
      obtain ⟨behind, hskips, hstop, -⟩ := stop_le_of_mem_one hname h hc
      exact hstop t (hskips.suffix.subset ht)
  | case5 => simp

theorem pairwise_ofTokens (h : IsOrdered ts) :
    (ofTokens nested ts).ctes.Pairwise fun c d => c.range.stop ≤ d.range.start := by
  fun_induction ofTokens nested ts with
  | case1 => exact .nil
  | case2 name rest hname first comma more heq hcomma ih =>
      obtain ⟨c, -, -, hctes, -⟩ := exists_one nested hname rest
      have hone : first.ctes.Pairwise fun c d => c.range.stop ≤ d.range.start := by
        rw [hctes]
        exact List.pairwise_singleton _ _
      have hrest : comma :: more <:+ rest := heq ▸ (skips_one nested name rest).suffix
      have hmore := (List.suffix_cons comma more).trans (hrest.trans (List.suffix_cons name rest))
      refine List.pairwise_append.2 ⟨hone, ih (h.mono hmore.isInfix), fun c hc d hd => ?_⟩
      obtain ⟨behind, hskips, hstop, -⟩ := stop_le_of_mem_one hname h hc
      have hbehind : comma :: more <:+ behind := heq ▸ hskips.suffix
      obtain ⟨span, hin, hreads⟩ := exists_reads_of_mem hd
      obtain ⟨t, ht, hstart⟩ := Range.exists_start_ofTokens hreads.ne_nil
      rw [hreads.range_eq, hstart]
      exact hstop t (hbehind.subset (List.mem_cons_of_mem comma (hin.subset ht)))
  | case3 name rest hname =>
      obtain ⟨c, -, -, hctes, -⟩ := exists_one nested hname rest
      rw [hctes]
      exact List.pairwise_singleton _ _
  | case4 name rest hname =>
      obtain ⟨c, -, -, hctes, -⟩ := exists_one nested hname rest
      rw [hctes]
      exact List.pairwise_singleton _ _
  | case5 => exact .nil

theorem apart_of_mem_one {name : Token} (hname : name.isName) (h : IsOrdered (name :: ts))
    {claimed : List Position} (hclaimed : startsOf (one nested name ts).groups (name :: ts) ⊆ claimed)
    {c : Cte} (hc : c ∈ (one nested name ts).ctes) {span : List Token}
    (hspan : span ∈ queryGroups claimed (name :: ts)) : c.range.Apart (Range.ofTokens span) := by
  obtain ⟨behind, -, hstop, hgroups⟩ := stop_le_of_mem_one hname h hc
  rw [hgroups claimed hclaimed] at hspan
  obtain ⟨t, ht, hstart⟩ := Range.exists_start_ofTokens (ne_nil_of_mem_queryGroups hspan)
  rw [Range.Apart, hstart]
  exact .inl (hstop t ((isInfix_of_mem_queryGroups hspan).subset ht))

/-- A query that is not claimed stands outside of all the expressions. -/
theorem apart_queryGroups (h : IsOrdered ts) {claimed : List Position}
    (hclaimed : startsOf (ofTokens nested ts).groups ts ⊆ claimed) {c : Cte}
    (hc : c ∈ (ofTokens nested ts).ctes) {span : List Token} (hspan : span ∈ queryGroups claimed ts) :
    c.range.Apart (Range.ofTokens span) := by
  fun_induction ofTokens nested ts with
  | case1 => exact absurd hc List.not_mem_nil
  | case2 name rest hname first comma more heq hcomma ih =>
      have hfirst : startsOf first.groups (name :: rest) ⊆ claimed := fun p hp =>
        hclaimed (mem_startsOf_append.2 (.inl hp))
      rcases List.mem_append.1 hc with hc | hc
      · exact apart_of_mem_one hname h hfirst hc hspan
      · -- the query stands between the first expression and the comma, or behind the comma
        obtain ⟨_, _, behind, -, hsplit, -, hskips, hgroups⟩ := exists_one nested hname rest
        have hbehind := h.mono (hsplit ▸ List.suffix_append _ behind).isInfix
        obtain ⟨front, rfl, hfront⟩ := (heq ▸ hskips : Skips behind (comma :: more)).exists_closed
        have hclosed := hfront.resolve_right (List.cons_ne_nil comma more)
        rw [hgroups claimed hfirst, queryGroups_append hclosed,
          queryGroups_cons (by simp [Token.isOpen, hcomma])] at hspan
        rcases List.mem_append.1 hspan with hspan | hspan
        · obtain ⟨cspan, hin, hreads⟩ := exists_reads_of_mem hc
          rw [hreads.range_eq]
          exact .inr (hbehind.stop_le_start_of_sublist (isInfix_of_mem_queryGroups hspan).sublist
            (hin.sublist.trans (List.sublist_cons_self comma more))
            (ne_nil_of_mem_queryGroups hspan) hreads.ne_nil)
        · have hmore := (List.suffix_cons comma more).trans (List.suffix_append front _)
          refine ih (hbehind.mono hmore.isInfix) (fun p hp => hclaimed ?_) hc hspan
          refine mem_startsOf_append.2 (.inr (startsOf_subset (List.Subset.refl _) ?_ hp))
          exact hmore.trans (hsplit ▸ List.suffix_append _ _)
  | case3 name rest hname => exact apart_of_mem_one hname h hclaimed hc hspan
  | case4 name rest hname => exact apart_of_mem_one hname h hclaimed hc hspan
  | case5 => exact absurd hc List.not_mem_nil

end CteList

/-! ### One level -/

namespace Statement

/-- The outermost queries in the pieces of a statement, without those that begin at claimed
positions. -/
def outermost (nested : List Token → Statement) (ts : List Token) (claimed : List Position) :
    List (List Token) :=
  (layout nested ts).pieces.flatMap fun piece => queryGroups claimed piece.2

theorem ne_nil_of_mem_outermost {claimed : List Position} {span : List Token}
    (h : span ∈ outermost nested ts claimed) : span ≠ [] := by
  obtain ⟨piece, -, hspan⟩ := List.mem_flatMap.1 h
  exact ne_nil_of_mem_queryGroups hspan

theorem flatten_outermost_sublist (claimed : List Position) :
    (outermost nested ts claimed).flatten.Sublist ts := by
  have hflat : ∀ pieces : List (Option Clause × List Token),
      (pieces.flatMap fun piece => queryGroups claimed piece.2).flatten.Sublist
        (pieces.flatMap Prod.snd) := by
    intro pieces
    induction pieces with
    | nil => exact List.Sublist.slnil
    | cons piece pieces ih =>
        rw [List.flatMap_cons, List.flatten_append, List.flatMap_cons]
        exact (flatten_queryGroups_sublist claimed piece.2).append ih
  have hall := hflat (layout nested ts).pieces
  rwa [flatMap_pieces_layout] at hall

theorem pairwise_outermost (h : IsOrdered ts) (claimed : List Position) :
    (outermost nested ts claimed).Pairwise fun a b =>
      (Range.ofTokens a).stop ≤ (Range.ofTokens b).start :=
  h.pairwise_spans (flatten_outermost_sublist claimed) fun _ => ne_nil_of_mem_outermost

theorem pairwise_found (h : IsOrdered ts) :
    (found nested ts).subqueries.Pairwise fun a b => a.range.stop ≤ b.range.start :=
  Sources.pairwise_ofRegions false (fun _ hr => Layout.isOpen_of_mem_regions hr)
    (h.mono (regions_suffix nested ts).isInfix)

/-- The starts of the groups that are no expressions. -/
def claimedStarts (nested : List Token → Statement) (ts : List Token) : List Position :=
  startsOf (claimed nested ts) ts

theorem start_mem_claimedStarts (h : q ∈ (found nested ts).subqueries) :
    q.range.start ∈ claimedStarts nested ts :=
  mem_startsOf_append.2 (.inr ((isRanked_found nested ts).mem_startsOf_iff.2
    (List.mem_map.2 ⟨q, h, rfl⟩)))

theorem expressions_eq (h : IsOrdered ts) :
    expressions nested ts = (layout nested ts).pieces.flatMap fun piece =>
      expressionQueries nested (startsAt (claimedStarts nested ts)) piece.1 piece.2 :=
  Layout.expressionQueries_eq h _ ⟨[], flatMap_pieces_layout nested ts⟩

theorem map_range_expressions (h : IsOrdered ts) :
    (expressions nested ts).map Subquery.range =
      (outermost nested ts (claimedStarts nested ts)).map Range.ofTokens := by
  simp only [expressions_eq h, outermost, List.map_flatMap, map_range_expressionQueries]

/-- A query in an expression is read in one of the groups that are not claimed. -/
theorem exists_group_of_mem_expressions (h : IsOrdered ts) (hq : q ∈ expressions nested ts) :
    ∃ g ∈ outermost nested ts (claimedStarts nested ts),
      q.range = .ofTokens g ∧ q.body = nested (Group.after g.tail).inner := by
  rw [expressions_eq h] at hq
  obtain ⟨piece, hpiece, hq⟩ := List.mem_flatMap.1 hq
  obtain ⟨g, hg, hread⟩ := exists_group_of_mem_expressionQueries hq
  exact ⟨g, List.mem_flatMap.2 ⟨piece, hpiece, hg⟩, hread⟩

theorem pairwise_expressions (h : IsOrdered ts) :
    (expressions nested ts).Pairwise fun a b => a.range.stop ≤ b.range.start := by
  have hpair : ((expressions nested ts).map Subquery.range).Pairwise fun r s => r.stop ≤ s.start := by
    rw [map_range_expressions h]
    exact List.pairwise_map.2 (pairwise_outermost h (claimedStarts nested ts))
  exact List.pairwise_map.1 hpair

/-- A query in an expression and a derived table are apart, unless the derived table is inside the other
query, which has been stepped into. -/
theorem apart_or_steppedInto (h : IsOrdered ts) (ha : a ∈ expressions nested ts)
    (hb : b ∈ (found nested ts).subqueries) :
    a.range.Apart b.range ∨ b.range.Within a.range ∧
      ∃ span, a.range = .ofTokens span ∧ SteppedInto (found nested ts).issues ts span := by
  obtain ⟨span, hspan, hrange, -⟩ := exists_group_of_mem_expressions h ha
  obtain ⟨r, hr, -, inner, hinner, group, hgroup, hfound⟩ := exists_finds_of_mem hb
  obtain ⟨piece, hpiece, hspan⟩ := List.mem_flatMap.1 hspan
  have hspan' : span ∈ outermost nested ts [] :=
    List.mem_flatMap.2 ⟨piece, hpiece, (queryGroups_sublist _ _).subset hspan⟩
  have hgroup' : group ∈ outermost nested ts [] :=
    List.mem_flatMap.2 ⟨_, List.mem_cons_of_mem _ (List.mem_map.2 ⟨r, hr, rfl⟩), hgroup⟩
  have hregion := isInfix_of_mem_regions hr
  have hin : inner <:+: group := by
    rcases hfound with rfl | ⟨hin, -⟩
    · exact List.infix_rfl
    · exact hin.trans (List.tail_suffix group).isInfix
  have hwithin : b.range.Within (Range.ofTokens group) := by
    rw [hinner.range_eq]
    have hordered := h.mono ((isInfix_of_mem_queryGroups hgroup).trans hregion)
    exact hordered.within hin.subset hinner.ne_nil
  by_cases heq : span = group
  · subst heq
    rcases hfound with rfl | ⟨-, hinto⟩
    · -- the expression would begin where the derived table does, and that position is claimed
      obtain ⟨t, us, -, hclaimed, rfl⟩ := exists_of_mem_queryGroups hspan
      have hstart : b.range.start = t.start := by rw [hinner.range_eq, Range.ofTokens_cons]
      exact absurd (hstart ▸ start_mem_claimedStarts hb) hclaimed
    · exact .inr ⟨hrange ▸ hwithin, span, hrange, hinto.mono (List.Subset.refl _) hregion⟩
  · have hsymm : Std.Symm fun a b : List Token => (Range.ofTokens a).Apart (Range.ofTokens b) :=
      ⟨fun _ _ => Or.symm⟩
    have hpair : (outermost nested ts []).Pairwise fun a b =>
        (Range.ofTokens a).Apart (Range.ofTokens b) := (pairwise_outermost h []).imp Or.inl
    rw [hrange]
    exact .inl ((hpair.forall hspan' hgroup' heq).of_within hwithin)

/-- A query stands behind the common table expressions, or is one of those among all tokens. -/
theorem of_mem_outermost {claimed : List Position} {span : List Token}
    (h : span ∈ outermost nested ts claimed) :
    span <:+: (heading nested ts).rest ∨ span ∈ queryGroups claimed ts := by
  obtain ⟨piece, hpiece, hspan⟩ := List.mem_flatMap.1 h
  have hin := isInfix_of_mem_queryGroups hspan
  rcases Layout.of_mem_pieces hpiece with hbody | ⟨lead, hlead, heq⟩
  · exact .inl (hin.trans hbody)
  · obtain ⟨front, hfront, hclosed⟩ := (skips_heading nested ts).exists_closed
    have hctes : ts.take (ts.length - (heading nested ts).rest.length) = front :=
      List.append_cancel_right ((take_append_heading nested ts).trans hfront)
    rw [heq, hctes] at hspan
    rcases hclosed with hclosed | hnil
    · rw [queryGroups_append hclosed] at hspan
      rcases List.mem_append.1 hspan with hspan | hspan
      · refine .inr ?_
        rw [hfront, queryGroups_append hclosed]
        exact List.mem_append_left _ hspan
      · exact .inl ((isInfix_of_mem_queryGroups hspan).trans hlead.isInfix)
    · rw [hnil] at hlead hfront
      rw [List.prefix_nil.1 hlead, ← hfront] at hspan
      exact .inr hspan

/-- A common table expression is apart from the queries behind the expressions and from those that are
not claimed. -/
theorem apart_of_mem_heading (h : IsOrdered ts) {c : Cte} (hc : c ∈ (heading nested ts).ctes)
    {span : List Token} (hne : span ≠ [])
    (hspan : span <:+: (heading nested ts).rest ∨ span ∈ queryGroups (claimedStarts nested ts) ts) :
    c.range.Apart (Range.ofTokens span) := by
  have hgroups : startsOf (heading nested ts).groups ts ⊆ claimedStarts nested ts := by
    refine startsOf_subset ?_ List.suffix_rfl
    simp only [claimed, List.append_assoc]
    exact List.subset_append_left _ _
  unfold heading at hc hspan hgroups
  split at hc
  · exact absurd hc List.not_mem_nil
  · next first rest =>
    split at hc
    · next hwith =>
      have hrest := h.mono (List.suffix_cons first rest).isInfix
      simp only [hwith, if_true] at hspan hgroups
      rcases hspan with hbody | hquery
      · obtain ⟨t, ht, hstart⟩ := Range.exists_start_ofTokens hne
        rw [Range.Apart, hstart]
        exact .inl (CteList.stop_le_rest hrest c hc t (hbody.subset ht))
      · rw [queryGroups_cons (Token.isOpen_of_isKeyword hwith)] at hquery
        refine CteList.apart_queryGroups hrest (fun p hp => hgroups ?_) hc hquery
        exact startsOf_subset (List.Subset.refl _) (List.suffix_cons first rest) hp
    · exact absurd hc List.not_mem_nil

theorem pairwise_heading (h : IsOrdered ts) :
    (heading nested ts).ctes.Pairwise fun c d => c.range.stop ≤ d.range.start := by
  unfold heading
  split
  · exact .nil
  · next first rest =>
    split
    · exact CteList.pairwise_ofTokens (h.mono (List.suffix_cons first rest).isInfix)
    · exact .nil

theorem apart_ctes_subqueries (h : IsOrdered ts) {c : Cte} (hc : c ∈ (build nested ts).ctes)
    (hq : q ∈ (build nested ts).subqueries) : c.range.Apart q.range := by
  rw [ctes_build] at hc
  rw [(perm_subqueries_build nested ts).mem_iff] at hq
  rcases List.mem_append.1 hq with hq | hq
  · obtain ⟨r, hr, ⟨hctes, -⟩, hfinds⟩ := exists_finds_of_mem hq
    obtain ⟨span, hin, hreads⟩ := hfinds.isInfix
    have hbody : r.tokens <:+: (heading nested ts).rest := by
      rcases Layout.of_mem_regions hr with ⟨_, -, heq, -⟩ | ⟨hin, -⟩
      · exact absurd heq hctes
      · exact hin
    rw [hreads.range_eq]
    exact apart_of_mem_heading h hc hreads.ne_nil (.inl (hin.trans hbody))
  · obtain ⟨span, hspan, hrange, -⟩ := exists_group_of_mem_expressions h hq
    rw [hrange]
    exact apart_of_mem_heading h hc (ne_nil_of_mem_outermost hspan) (of_mem_outermost hspan)

end Statement

end

end Tsql
