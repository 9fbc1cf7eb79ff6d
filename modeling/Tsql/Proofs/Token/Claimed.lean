import Tsql.Proofs.Token.Order
import Tsql.Proofs.Token.Queries

/-!
Queries in parentheses when some of them are claimed, and when the tokens are cut.

Claiming the places of queries takes away those that begin there and leaves the others
(`queryGroups_append_claimed`). Where the tokens are cut behind a group, no query is lost and none is
new (`queryGroups_cons_append`). In ordered tokens a place belongs to one token only, so a group is
known by where it begins (`IsOrdered.suffix_eq`). In any tokens it is known by its rank, and so are the
starts of those with some ranks (`mem_startsOf_iff`).
-/

namespace Tsql

section

variable {claimed more : List Position} {t u : Token} {ts us vs as bs : List Token}

/-! ### Ranks -/

theorem exists_suffix_cons_iff {P : Token → List Token → Prop} :
    (∃ t us, t :: us <:+ u :: ts ∧ P t us) ↔ P u ts ∨ ∃ t us, t :: us <:+ ts ∧ P t us := by
  constructor
  · rintro ⟨t, us, hsuffix, ht⟩
    rcases List.suffix_cons_iff.1 hsuffix with heq | hlater
    · obtain ⟨rfl, rfl⟩ := List.cons.inj heq
      exact .inl ht
    · exact .inr ⟨t, us, hlater, ht⟩
  · rintro (hu | ⟨t, us, hsuffix, ht⟩)
    · exact ⟨u, ts, List.suffix_rfl, hu⟩
    · exact ⟨t, us, hsuffix.trans (List.suffix_cons u ts), ht⟩

/-- The starts of the tokens with the ranks. -/
def startsOf (ranks : List Nat) : List Token → List Position
  | [] => []
  | t :: ts =>
    if ranks.contains (t :: ts).length then t.start :: startsOf ranks ts else startsOf ranks ts

theorem mem_startsOf_iff {ranks : List Nat} {p : Position} : p ∈ startsOf ranks ts ↔
    ∃ t us, t :: us <:+ ts ∧ (t :: us).length ∈ ranks ∧ t.start = p := by
  induction ts with
  | nil => simp [startsOf]
  | cons u ts ih =>
      rw [exists_suffix_cons_iff, ← ih, startsOf]
      split
      · next hrank =>
        rw [List.contains_iff_mem] at hrank
        simp [-List.length_cons, hrank, eq_comm]
      · next hrank =>
        rw [List.contains_iff_mem] at hrank
        exact ⟨.inr, fun h => h.resolve_left fun hu => hrank hu.1⟩

/-- A rank belongs to one token only. -/
theorem suffix_eq_of_length (h : us <:+ ts) (h' : vs <:+ ts) (hlength : us.length = vs.length) :
    us = vs := by
  rw [List.suffix_iff_eq_drop.1 h, List.suffix_iff_eq_drop.1 h', hlength]

theorem mem_startsOf_append {as bs : List Nat} {p : Position} :
    p ∈ startsOf (as ++ bs) ts ↔ p ∈ startsOf as ts ∨ p ∈ startsOf bs ts := by
  simp only [mem_startsOf_iff, List.mem_append]
  constructor
  · rintro ⟨t, us, hsuffix, hrank | hrank, hp⟩
    · exact .inl ⟨t, us, hsuffix, hrank, hp⟩
    · exact .inr ⟨t, us, hsuffix, hrank, hp⟩
  · rintro (⟨t, us, hsuffix, hrank, hp⟩ | ⟨t, us, hsuffix, hrank, hp⟩)
    · exact ⟨t, us, hsuffix, .inl hrank, hp⟩
    · exact ⟨t, us, hsuffix, .inr hrank, hp⟩

/-- Tokens in front do not change ranks. -/
theorem startsOf_subset {as bs : List Nat} (hranks : as ⊆ bs) (h : ts <:+ us) :
    startsOf as ts ⊆ startsOf bs us := by
  intro p hp
  obtain ⟨t, vs, hsuffix, hrank, hstart⟩ := mem_startsOf_iff.1 hp
  exact mem_startsOf_iff.2 ⟨t, vs, hsuffix.trans h, hranks hrank, hstart⟩

/-! ### Places -/

namespace IsOrdered

/-- Only one token begins at a place. -/
theorem suffix_eq (h : IsOrdered ts) (ht : t :: us <:+ ts) (hu : u :: vs <:+ ts)
    (hstart : t.start = u.start) : t :: us = u :: vs := by
  have hbehind : ∀ {a b : Token} {as bs : List Token}, a :: as <:+ ts → b :: bs <:+ as →
      a.start ≠ b.start := by
    intro a b as bs ha hb heq
    have horder := h.mono ha.isInfix
    have hle := (List.pairwise_cons.1 horder.pairwise).1 b (hb.subset List.mem_cons_self)
    have hlt := horder.start_lt_stop a List.mem_cons_self
    exact Position.lt_irrefl _ (heq ▸ Position.lt_of_lt_of_le hlt hle)
  rcases List.suffix_or_suffix_of_suffix ht hu with hsuffix | hsuffix
  · exact (List.suffix_cons_iff.1 hsuffix).resolve_right fun hlater => hbehind hu hlater hstart.symm
  · exact ((List.suffix_cons_iff.1 hsuffix).resolve_right fun hlater => hbehind ht hlater hstart).symm

/-- In ordered tokens a token is known by its start as well as by its rank. -/
theorem mem_startsOf_iff (h : IsOrdered ts) (ht : t :: us <:+ ts) {ranks : List Nat} :
    t.start ∈ startsOf ranks ts ↔ (t :: us).length ∈ ranks := by
  rw [Tsql.mem_startsOf_iff]
  constructor
  · rintro ⟨u, vs, hu, hrank, hstart⟩
    rwa [← h.suffix_eq hu ht hstart]
  · exact fun hrank => ⟨t, us, ht, hrank, rfl⟩

theorem start_ne (h : IsOrdered (as ++ bs)) (ht : t ∈ as) (hu : u ∈ bs) : t.start ≠ u.start := by
  have hle := (List.pairwise_append.1 h.pairwise).2.2 t ht u hu
  have hlt := h.start_lt_stop t (List.mem_append_left bs ht)
  exact fun heq => Position.lt_irrefl _ (heq ▸ Position.lt_of_lt_of_le hlt hle)

/-- A longer list from the same token on ends later. -/
theorem eq_of_isPrefix (h : IsOrdered bs) (hin : as <+: bs) (hne : as ≠ [])
    (hstop : (Range.ofTokens as).stop = (Range.ofTokens bs).stop) : as = bs := by
  obtain ⟨cs, rfl⟩ := hin
  cases cs with
  | nil => rw [List.append_nil]
  | cons c cs =>
      have hcs : c :: cs <:+: as ++ c :: cs := (List.suffix_append as _).isInfix
      have hle := h.stop_le_start hne (List.cons_ne_nil c cs)
      have hlt := (h.mono hcs).start_lt_stop_ofTokens (List.cons_ne_nil c cs)
      have hend := (h.within hcs.subset (List.cons_ne_nil c cs)).2
      rw [← hstop] at hend
      exact absurd (Position.lt_of_lt_of_le (Position.lt_of_le_of_lt hle hlt) hend)
        (Position.lt_irrefl _)

/-- Tokens that stand together are known by their range. -/
theorem infix_eq (h : IsOrdered ts) (ha : as <:+: ts) (hb : bs <:+: ts) (hne : as ≠ [])
    (hne' : bs ≠ []) (hrange : Range.ofTokens as = Range.ofTokens bs) : as = bs := by
  obtain ⟨a, as, rfl⟩ := List.exists_cons_of_ne_nil hne
  obtain ⟨b, bs, rfl⟩ := List.exists_cons_of_ne_nil hne'
  have hstop := congrArg Range.stop hrange
  obtain ⟨xs, hxs, ha'⟩ := List.infix_iff_prefix_suffix.1 ha
  obtain ⟨ys, hys, hb'⟩ := List.infix_iff_prefix_suffix.1 hb
  obtain ⟨us, rfl⟩ := hxs
  obtain ⟨vs, rfl⟩ := hys
  have hsame : a :: (as ++ us) = b :: (bs ++ vs) := by
    refine h.suffix_eq ha' hb' ?_
    rw [Range.ofTokens_cons, Range.ofTokens_cons] at hrange
    exact congrArg Range.start hrange
  have hprefix : b :: bs <+: a :: as ++ us := by
    rw [List.cons_append, hsame]
    exact List.prefix_append (b :: bs) vs
  rcases List.prefix_or_prefix_of_prefix (List.prefix_append (a :: as) us) hprefix with hin | hin
  · exact (h.mono hb).eq_of_isPrefix hin hne hstop
  · exact ((h.mono ha).eq_of_isPrefix hin hne' hstop.symm).symm

end IsOrdered

/-! ### Groups -/

/-- Whether a query begins is decided by the first tokens of a group. -/
theorem startsQuery_append (h : startsQuery ts) (us : List Token) : startsQuery (ts ++ us) := by
  induction ts with
  | nil => simp [startsQuery] at h
  | cons t ts ih =>
      simp only [startsQuery, List.cons_append, Bool.or_eq_true, Bool.and_eq_true] at h ⊢
      exact h.imp_right fun ⟨hopen, hquery⟩ => ⟨hopen, ih hquery⟩

theorem startsQuery_take_closeIndex? {depth k : Nat} (h : startsQuery ts)
    (hk : closeIndex? depth ts = some k) : startsQuery (ts.take k) := by
  induction ts generalizing depth k with
  | nil => simp [startsQuery] at h
  | cons t ts ih =>
      rw [closeIndex?_cons] at hk
      simp only [startsQuery, Bool.or_eq_true, Bool.and_eq_true] at h
      have hclose : t.isClose = false := by
        rcases h with hword | ⟨hopen, -⟩
        · unfold Token.isAnyKeyword at hword
          split at hword
          · next hkind => simp [Token.isClose, hkind]
          · contradiction
        · exact Token.isClose_eq_false hopen
      rw [if_neg (by simp [hclose])] at hk
      obtain ⟨j, hj, rfl⟩ := Option.map_eq_some_iff.1 hk
      rw [List.take_succ_cons]
      simp only [startsQuery, Bool.or_eq_true, Bool.and_eq_true]
      exact h.imp_right fun ⟨hopen, hquery⟩ => ⟨hopen, ih hquery hj⟩

theorem Group.startsQuery_inner (ts : List Token) : startsQuery (after ts).inner = startsQuery ts := by
  rw [Bool.eq_iff_iff]
  constructor
  · intro h
    have hall := startsQuery_append h ((after ts).close.toList ++ (after ts).rest)
    rwa [← List.append_assoc, ← tokens, tokens_append_rest] at hall
  · intro h
    rw [after]
    split
    · next k hk => exact startsQuery_take_closeIndex? h hk
    · exact h

/-- A group that something follows is closed. -/
theorem Group.rest_eq_nil_or_closed (ts : List Token) :
    (after ts).rest = [] ∨ depthAfter 1 (after ts).tokens = 0 := by
  rcases after_cases ts with hopen | ⟨t, hclose, hdepth, hsplit⟩
  · exact .inl (by rw [hopen])
  · have htokens : (after ts).tokens = (after ts).inner ++ [t] := by
      have hall : (after ts).tokens ++ (after ts).rest =
          ((after ts).inner ++ [t]) ++ (after ts).rest := by
        rw [tokens_append_rest, List.append_assoc]
        exact hsplit
      exact List.append_cancel_right hall
    refine .inr ?_
    rw [htokens, depthAfter_append, hdepth]
    simp [depthAfter, Token.depthAfter, hclose, Token.isOpen_eq_false hclose]

/-- The group of tokens that are one group is that group. -/
theorem Group.inner_tokens (ts : List Token) :
    (after (after ts).tokens).inner = (after ts).inner := by
  rcases rest_eq_nil_or_closed ts with hrest | hclosed
  · have htokens := tokens_append_rest ts
    rw [hrest, List.append_nil] at htokens
    rw [htokens]
  · have happend := inner_append hclosed (after ts).rest
    rwa [tokens_append_rest, eq_comm] at happend

/-! ### Claims -/

/-- Claims only count at the tokens. -/
theorem queryGroups_congr (h : ∀ t ∈ ts, t.start ∈ claimed ↔ t.start ∈ more) :
    queryGroups claimed ts = queryGroups more ts := by
  have hcontains : ∀ t ∈ ts, claimed.contains t.start = more.contains t.start := by
    intro t ht
    rw [Bool.eq_iff_iff, List.contains_iff_mem, List.contains_iff_mem]
    exact h t ht
  fun_induction queryGroups claimed ts with
  | case1 => rw [queryGroups_nil]
  | case2 t rest group hclaimed ih =>
      obtain ⟨ht, hrest⟩ := List.forall_mem_cons.1 hcontains
      have hgroup := (Group.rest_suffix rest).subset
      rw [ht] at hclaimed
      rw [queryGroups.eq_2, if_pos hclaimed]
      exact ih (fun t ht => h t (List.mem_cons_of_mem _ (hgroup ht))) fun t ht => hrest t (hgroup ht)
  | case3 t rest group hclaimed hquery ih =>
      obtain ⟨ht, hrest⟩ := List.forall_mem_cons.1 hcontains
      have hgroup := (Group.rest_suffix rest).subset
      rw [ht] at hclaimed
      rw [queryGroups.eq_2, if_neg hclaimed, if_pos hquery]
      exact congrArg _ (ih (fun t ht => h t (List.mem_cons_of_mem _ (hgroup ht)))
        fun t ht => hrest t (hgroup ht))
  | case4 t rest group hclaimed hquery ih =>
      obtain ⟨ht, hrest⟩ := List.forall_mem_cons.1 hcontains
      rw [ht] at hclaimed
      rw [queryGroups.eq_2, if_neg hclaimed, if_neg hquery]
      exact ih (fun t ht => h t (List.mem_cons_of_mem _ ht)) hrest

/-- Claiming places of queries takes away the queries that begin there. -/
theorem queryGroups_append_claimed
    (h : ∀ t us, t :: us <:+ ts → t.isOpen → t.start ∈ more → startsQuery us) :
    queryGroups (claimed ++ more) ts =
      (queryGroups claimed ts).filter fun g => (Range.ofTokens g).start ∉ more := by
  have hmem : ∀ t : Token, (claimed ++ more).contains t.start =
      (claimed.contains t.start || more.contains t.start) := by
    intro t
    rw [Bool.eq_iff_iff]
    simp
  fun_induction queryGroups claimed ts with
  | case1 => simp
  | case2 t rest group hclaimed ih =>
      obtain ⟨hopen, hcontains⟩ := Bool.and_eq_true_iff.1 hclaimed
      rw [queryGroups.eq_2, hmem, hcontains, hopen, Bool.true_or, Bool.and_true, if_pos rfl]
      exact ih fun u us hu => h u us (hu.trans ((Group.rest_suffix rest).trans (List.suffix_cons t _)))
  | case3 t rest group hclaimed hquery ih =>
      obtain ⟨hopen, hstarts⟩ := Bool.and_eq_true_iff.1 hquery
      have hfree : claimed.contains t.start = false := by simpa [hopen] using hclaimed
      have hrest := ih fun u us hu =>
        h u us (hu.trans ((Group.rest_suffix rest).trans (List.suffix_cons t _)))
      rw [queryGroups.eq_2, hmem, hfree, hopen, Bool.false_or, Bool.true_and, hrest]
      by_cases htaken : t.start ∈ more
      · rw [if_pos (by simpa using htaken), List.filter_cons_of_neg]
        simpa [Range.ofTokens_cons] using htaken
      · rw [if_neg (by simpa using htaken), if_pos (by simpa using hstarts), List.filter_cons_of_pos]
        simpa [Range.ofTokens_cons] using htaken
  | case4 t rest group hclaimed hquery ih =>
      have hfree : ¬ (t.isOpen && (claimed ++ more).contains t.start) := by
        intro hall
        obtain ⟨hopen, hcontains⟩ := Bool.and_eq_true_iff.1 hall
        rw [hmem, (by simpa [hopen] using hclaimed : claimed.contains t.start = false),
          Bool.false_or, List.contains_iff_mem] at hcontains
        have hstarts := h t rest List.suffix_rfl hopen hcontains
        rw [← Group.startsQuery_inner] at hstarts
        exact hquery (Bool.and_eq_true_iff.2 ⟨hopen, hstarts⟩)
      rw [queryGroups.eq_2, if_neg hfree, if_neg hquery]
      exact ih fun u us hu => h u us (hu.trans (List.suffix_cons t rest))

/-! ### Cuts -/

/-- Behind a group the tokens may be cut. -/
theorem queryGroups_cons_append (ht : t.isOpen) (h : (Group.after ts).rest = [] → us = []) :
    queryGroups claimed (t :: ((Group.after ts).tokens ++ us)) =
      queryGroups claimed (t :: (Group.after ts).tokens) ++ queryGroups claimed us := by
  rcases Group.rest_eq_nil_or_closed ts with hrest | hclosed
  · rw [h hrest, queryGroups_nil, List.append_nil, List.append_nil]
  · rw [← List.cons_append]
    refine queryGroups_append ?_ us
    rwa [depthAfter_cons_of_isOpen ht]

theorem queryGroups_eq_group_append_rest (ht : t.isOpen) :
    queryGroups claimed (t :: ts) =
      queryGroups claimed (t :: (Group.after ts).tokens) ++
        queryGroups claimed (Group.after ts).rest := by
  rw [← queryGroups_cons_append ht id, Group.tokens_append_rest]

end

end Tsql
