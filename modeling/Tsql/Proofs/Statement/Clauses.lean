import Tsql.Proofs.Statement.Nested
import Tsql.Token.Lexer

/-!
The clauses of a statement in the order of its text.

A clause lasts from the head of its region to that of the next one, or to the end of its column list,
so in ordered tokens the ranges of the clauses are disjoint and follow each other
(`ordered_clauseRanges`). That holds at every level of a statement (`ordered_clauses_parse`), and a
position in the range of a clause belongs to that clause.
-/

namespace Tsql

/-! ### Regions -/

/-- A region ends behind its head, and not behind the place where its last token ends. -/
theorem Region.stop_getD {r : Region} {p : Position} (h : IsOrdered r.tokens)
    (hp : ∀ t ∈ r.tokens, t.stop ≤ p) : r.head.start < r.stop?.getD p ∧ r.stop?.getD p ≤ p := by
  unfold stop?
  split
  · have hgroup : IsOrdered (r.head :: (Group.after r.tail).tokens) :=
      h.mono (Group.cons_tokens_isPrefix r.head r.tail).isInfix
    obtain ⟨t, ht, hstop⟩ := Range.exists_stop_ofTokens (List.cons_ne_nil r.head _)
    refine ⟨?_, ?_⟩
    · have hlt := hgroup.start_lt_stop_ofTokens (List.cons_ne_nil _ _)
      rwa [Range.ofTokens_cons] at hlt
    · rw [Option.getD_some, hstop]
      exact hp t ((Group.cons_tokens_isPrefix r.head r.tail).subset ht)
  · have hhead : r.head ∈ r.tokens := List.mem_cons_self
    exact ⟨Position.lt_of_lt_of_le (h.start_lt_stop _ hhead) (hp _ hhead), Position.le_refl p⟩

/-- The ranges are in the order of the text, each with a width and none behind the end. -/
structure OrderedClauses (stop : Position) (cs : List ClauseRange) : Prop where
  start_lt_stop : ∀ c ∈ cs, c.range.start < c.range.stop
  stop_le : ∀ c ∈ cs, c.range.stop ≤ stop
  pairwise : cs.Pairwise fun a b => a.range.stop ≤ b.range.start

theorem ordered_clauseRanges {stop : Position} {rs : List Region}
    (h : IsOrdered (rs.flatMap Region.tokens))
    (hstop : ∀ t ∈ rs.flatMap Region.tokens, t.stop ≤ stop) :
    OrderedClauses stop (clauseRanges stop rs) := by
  fun_induction clauseRanges stop rs with
  | case1 => exact ⟨by simp, by simp, .nil⟩
  | case2 r =>
      rw [List.flatMap_singleton] at h hstop
      obtain ⟨hlt, hle⟩ := Region.stop_getD h hstop
      exact ⟨by simpa using hlt, by simpa using hle, List.pairwise_singleton _ _⟩
  | case3 r next rs ih =>
      rw [List.flatMap_cons] at h hstop
      obtain ⟨hlater, hpair⟩ : IsOrdered ((next :: rs).flatMap Region.tokens) ∧
          ∀ t ∈ r.tokens, ∀ u ∈ (next :: rs).flatMap Region.tokens, t.stop ≤ u.start :=
        ⟨h.mono (List.suffix_append _ _).isInfix, (List.pairwise_append.1 h.pairwise).2.2⟩
      have hnext : next.head ∈ (next :: rs).flatMap Region.tokens :=
        List.mem_flatMap.2 ⟨next, List.mem_cons_self, List.mem_cons_self⟩
      obtain ⟨hlt, hle⟩ := Region.stop_getD (h.mono (List.prefix_append _ _).isInfix)
        fun t ht => hpair t ht next.head hnext
      have ih := ih hlater fun t ht => hstop t (List.mem_append_right _ ht)
      have hle' : next.head.start ≤ stop :=
        Position.le_trans (Position.le_of_lt (h.start_lt_stop _ (List.mem_append_right _ hnext)))
          (hstop _ (List.mem_append_right _ hnext))
      refine ⟨List.forall_mem_cons.2 ⟨hlt, ih.start_lt_stop⟩,
        List.forall_mem_cons.2 ⟨Position.le_trans hle hle', ih.stop_le⟩,
        List.pairwise_cons.2 ⟨fun c hc => ?_, ih.pairwise⟩⟩
      obtain ⟨r', hr', -, hstart⟩ := exists_region_of_mem hc
      have hfirst := hlater.start_le_of_mem (List.mem_flatMap.2 ⟨r', hr', List.mem_cons_self⟩)
      rw [hstart]
      exact Position.le_trans hle hfirst

/-! ### Statements -/

namespace Statement

variable {s : Statement} {ts : List Token}

theorem Describes.exists_regions (h : Describes s ts) :
    ∃ rs : List Region, rs.flatMap Region.tokens <:+ ts ∧
      s.clauses = clauseRanges (Range.ofTokens ts).stop rs := by
  induction h with
  | built levels ts =>
      refine ⟨_, ⟨(layout (ofQuery levels) ts).lead, ?_⟩, clauses_build _ ts⟩
      exact tokens_layout _ ts
  | placed ts => exact ⟨[], List.nil_suffix, rfl⟩
  | marked _ names ih => rwa [markedIn]

theorem Describes.ordered_clauses (h : Describes s ts) (hts : IsOrdered ts) :
    OrderedClauses s.range.stop s.clauses ∧
      ∀ c ∈ s.clauses, ∃ t ∈ ts, c.range.start = t.start := by
  obtain ⟨rs, hsuffix, hclauses⟩ := h.exists_regions
  rw [hclauses, h.range_eq]
  refine ⟨ordered_clauseRanges (hts.mono hsuffix.isInfix)
    fun t ht => hts.stop_le_of_mem (hsuffix.subset ht), fun c hc => ?_⟩
  obtain ⟨r, hr, -, hstart⟩ := exists_region_of_mem hc
  exact ⟨r.head, hsuffix.subset (List.mem_flatMap.2 ⟨r, hr, List.mem_cons_self⟩), hstart⟩

theorem clauseAt?_of_contains {stop : Position} (h : OrderedClauses stop s.clauses)
    {c : ClauseRange} (hc : c ∈ s.clauses) {p : Position} (hp : c.range.contains p) :
    s.clauseAt? p = some c.clause := by
  obtain ⟨hstart, hstop⟩ := Bool.and_eq_true_iff.1 hp
  obtain ⟨front, behind, hsplit⟩ := List.append_of_mem hc
  have hpair := h.pairwise
  rw [hsplit, List.pairwise_append, List.pairwise_cons] at hpair
  obtain ⟨-, ⟨hbehind, -⟩, hfront⟩ := hpair
  have hbefore : ∀ a ∈ front, decide (a.range.start ≤ p) := by
    intro a ha
    have hlt := h.start_lt_stop a (hsplit ▸ List.mem_append_left _ ha)
    have hle := Position.le_trans (hfront a ha c List.mem_cons_self) (of_decide_eq_true hstart)
    exact decide_eq_true (Position.le_trans (Position.le_of_lt hlt) hle)
  have hafter : behind.takeWhile (fun a => decide (a.range.start ≤ p)) = [] := by
    cases behind with
    | nil => rfl
    | cons b behind =>
        have hlt := Position.lt_of_lt_of_le (of_decide_eq_true hstop) (hbehind b List.mem_cons_self)
        exact List.takeWhile_cons_of_neg (by simpa [Position.not_le] using hlt)
  rw [clauseAt?, hsplit, List.takeWhile_append_of_pos hbefore, List.takeWhile_cons, if_pos hstart,
    hafter, List.getLast?_concat]
  rfl

/-- At every level of a statement read from ordered tokens the clauses are in the order of the text and
disjoint. Each one has a width, begins at a token of its level and lies in the range of the level, and
it is the clause of the positions in its range. -/
theorem ordered_clauses_parse (h : IsOrdered ts) :
    ∀ n ∈ (parse ts).all, ∃ us, us <:+: ts ∧ Describes n us ∧ n.range = .ofTokens us ∧
      (∀ c ∈ n.clauses, c.range.start < c.range.stop ∧ (∃ t ∈ us, c.range.start = t.start) ∧
        n.range.start ≤ c.range.start ∧ c.range.stop ≤ n.range.stop) ∧
      (n.clauses.Pairwise fun a b => a.range.stop ≤ b.range.start) ∧
      ∀ c ∈ n.clauses, ∀ p, c.range.contains p → n.clauseAt? p = some c.clause := by
  intro n hn
  obtain ⟨us, hus, hdescribes⟩ := (describes_parse ts).exists_of_mem_all hn
  obtain ⟨hordered, htoken⟩ := hdescribes.ordered_clauses (h.mono hus)
  refine ⟨us, hus, hdescribes, hdescribes.range_eq, fun c hc => ?_, hordered.pairwise,
    fun c hc p hp => clauseAt?_of_contains hordered hc hp⟩
  refine ⟨hordered.start_lt_stop c hc, htoken c hc, ?_, hordered.stop_le c hc⟩
  obtain ⟨t, ht, hstart⟩ := htoken c hc
  rw [hstart, hdescribes.range_eq]
  exact (h.mono hus).start_le_of_mem ht

/-- The position of `y` belongs to the `WHERE` clause of the derived table. -/
theorem ordered_clauses_parse_derived :
    let ts := tokenize "INSERT INTO t (a) SELECT x FROM (SELECT 1 x WHERE y = 1) d"
    IsOrdered ts ∧ ∃ n ∈ (parse ts).all, n.clauses.map ClauseRange.clause = [.select, .filter] ∧
      n.clauseAt? ⟨1, 50⟩ = some .filter := by
  intro ts
  have hts : IsOrdered ts := isOrdered_tokenize _
  have hfound : (parse ts).all.any fun n =>
      n.clauses.map ClauseRange.clause == [.select, .filter] &&
        n.clauses.any fun c => c.clause = .filter && c.range.contains ⟨1, 50⟩ := by
    decide +kernel
  obtain ⟨n, hn, hfacts⟩ := List.any_eq_true.1 hfound
  obtain ⟨hclauses, hany⟩ := Bool.and_eq_true_iff.1 hfacts
  obtain ⟨c, hc, hfacts⟩ := List.any_eq_true.1 hany
  obtain ⟨hclause, hp⟩ := Bool.and_eq_true_iff.1 hfacts
  obtain ⟨-, -, -, -, -, -, hat⟩ := ordered_clauses_parse hts n hn
  have heq := congrArg some (of_decide_eq_true hclause)
  exact ⟨hts, n, hn, eq_of_beq hclauses, (hat c hc _ hp).trans heq⟩

end Statement

end Tsql
