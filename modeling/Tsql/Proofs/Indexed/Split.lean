import Tsql.Indexed.Parse
import Tsql.Proofs.Indexed.Parse
import Tsql.Proofs.Statement.Segments

/-!
The division into statements by index is the division of the token list.

The index at which the current statement begins and what is known of it match the state of the
automaton that marks the tokens (`Matches`), and each step keeps that so (`exists_step?`). The pass
by index takes the end of a block together with the `TRY` or `CATCH` behind it, which are two steps
of the automaton (`Moves.closes`).
-/

namespace Tsql

namespace Indexed

open Split (Mark State Reading)

variable {ts : List Token} {i : Nat} {t : Token} {s : Splitting} {l : State}

/-! ### Statements being read -/

/-- What is known of a statement besides its last token and the groups open in it. -/
def Pending.ofReading (r : Reading) : Pending :=
  { kind := r.kind, awaitsBody := r.awaitsBody, hasSource := r.hasSource }

theorem drop_eq_cons (ht : ts[i]? = some t) : ts.drop i = t :: ts.drop (i + 1) := by
  obtain ⟨hlt, rfl⟩ := List.getElem?_eq_some_iff.1 ht
  exact List.drop_eq_getElem_cons hlt

theorem Pending.start?_eq (ht : ts[i]? = some t) :
    start? ts i = some (ofReading (.start t (ts.drop (i + 1)))) := by
  have hlt := (List.getElem?_eq_some_iff.1 ht).1
  rw [start?, between?_eq (Nat.le_of_lt hlt) (Nat.le_refl _), ht, between_length, drop_eq_cons ht]
  simp [kindOf?_eq, ofReading, Reading.start]

theorem Pending.meets?_eq {r : Reading} (hdepth : r.depth = 0) (hi : 0 < i)
    (hlast : ts[i - 1]? = some r.last) (word : Keyword) :
    (ofReading r).meets? ts i word = some ((r.meets? word (ts.drop (i + 1))).map ofReading) := by
  obtain ⟨kind, awaitsBody, hasSource, depth, last⟩ := r
  obtain rfl : depth = 0 := hdepth
  rw [Pending.meets?, difference?_eq hi]
  simp [hlast, ofReading]
  rfl

/-! ### Matching states -/

/-- Where the division stands in front of an index, by the index at which the current statement
begins and by the state of the automaton. -/
structure Matches (ts : List Token) (s : Splitting) (i : Nat) (l : State) : Prop where
  cases : s.cases = l.cases
  depth : s.depth = l.depth
  current : ∀ r, l.current = some r →
    s.start < i ∧ s.pending = some (.ofReading r) ∧ ts[i - 1]? = some r.last
  between : l.current = none → s.start = i ∧ s.pending = none
  closed : l.closedBlock → (ts[i]?.any fun t => t.isWord "TRY" || t.isWord "CATCH") = false

/-- The step of the division by index is the step of the automaton. -/
inductive Moves (ts : List Token) (s : Splitting) (i : Nat) :
    List (Nat × Nat) × Splitting × Nat → Mark × State → Prop
  | continues {s' : Splitting} {l' : State} (hstart : s'.start = s.start)
      (h : Matches ts s' (i + 1) l') : Moves ts s i ([], s', i + 1) (.continues, l')
  | opens {s' : Splitting} {l' : State} (hstart : s'.start = i) (h : Matches ts s' (i + 1) l') :
      Moves ts s i (piece s.start i, s', i + 1) (.opens, l')
  | delimits {s' : Splitting} {l' : State} (hnone : l'.current = none)
      (h : Matches ts s' (i + 1) l') : Moves ts s i (piece s.start i, s', i + 1) (.delimits, l')
  | closes {s' : Splitting} {l' : State} (hnone : l'.current = none) (hclosed : l'.closedBlock)
      (hword : ts[i + 1]?.any fun t => t.isWord "TRY" || t.isWord "CATCH")
      (h : Matches ts s' (i + 2) { l' with closedBlock := false }) :
      Moves ts s i (piece s.start i, s', i + 2) (.delimits, l')

theorem piece_of_le {i j : Nat} (h : j ≤ i) : piece i j = [] :=
  if_neg (Nat.not_lt.2 h)

/-! ### Steps -/

/-- What is known of the statement that a token belongs to unless it begins the next one. -/
def pendingAt (l : State) (t : Token) (following : List Token) : Pending :=
  .ofReading (l.current.getD (.start t following))

theorem moves_take (h : Matches ts s i l) (ht : ts[i]? = some t) (cases : Nat) :
    Moves ts s i
      ([], { s with
        depth := t.depthAfter s.depth
        cases := cases
        pending := some (pendingAt l t (ts.drop (i + 1))) }, i + 1)
      (State.take { l with cases := cases } t (ts.drop (i + 1))) := by
  have hdepth := h.depth
  rw [State.depth] at hdepth
  obtain hcurrent | ⟨r, hcurrent⟩ := Option.eq_none_or_eq_some l.current
  · obtain ⟨hstart, -⟩ := h.between hcurrent
    rw [hcurrent] at hdepth
    rw [State.take, pendingAt, hcurrent, ← piece_of_le (Nat.le_of_eq hstart.symm)]
    refine .opens hstart ⟨rfl, congrArg t.depthAfter hdepth, fun r hr => ?_, by simp, by simp⟩
    obtain rfl := Option.some.inj hr
    exact ⟨Nat.lt_succ_of_le (Nat.le_of_eq hstart), rfl, ht⟩
  · obtain ⟨hstart, -⟩ := h.current r hcurrent
    rw [hcurrent] at hdepth
    rw [State.take, pendingAt, hcurrent]
    refine .continues rfl ⟨rfl, congrArg t.depthAfter hdepth, fun r' hr' => ?_, by simp, by simp⟩
    obtain rfl := Option.some.inj hr'
    exact ⟨Nat.lt_succ_of_lt hstart, rfl, ht⟩

theorem exists_meet? (h : Matches ts s i l) (ht : ts[i]? = some t) {word : Keyword}
    (hkind : t.kind = .keyword word) (hdepth : l.depth = 0) (cases : Nat) :
    ∃ res, Splitting.meet? { s with
        cases := cases
        pending := some (pendingAt l t (ts.drop (i + 1))) } ts i word = some res ∧
      Moves ts s i res (State.meet { l with cases := cases } t word (ts.drop (i + 1))) := by
  have hkept := Token.depthAfter_of_keyword hkind
  have hzero := h.depth.trans hdepth
  rw [Splitting.meet?]
  dsimp only
  obtain hcurrent | ⟨r, hcurrent⟩ := Option.eq_none_or_eq_some l.current
  · obtain ⟨hstart, -⟩ := h.between hcurrent
    have htake := moves_take h ht cases
    rw [hkept] at htake
    rw [if_neg (by omega), State.meet, hcurrent]
    rw [hcurrent] at htake
    exact ⟨_, rfl, htake⟩
  · obtain ⟨hstart, -, hlast⟩ := h.current r hcurrent
    have hnone : r.depth = 0 := by rwa [State.depth, hcurrent] at hdepth
    rw [if_pos hstart, pendingAt, hcurrent, Option.getD_some,
      Pending.meets?_eq hnone (by omega) hlast, Option.bind_some]
    cases hmeets : r.meets? word (ts.drop (i + 1)) with
    | none =>
        rw [Split.meet_eq_opens rfl hmeets, Pending.start?_eq ht]
        refine ⟨_, rfl, .opens rfl ⟨rfl, ?_, fun r' hr' => ?_, by simp, by simp⟩⟩
        · exact hzero.trans (hkept 0).symm
        · obtain rfl := Option.some.inj hr'
          exact ⟨Nat.lt_succ_self i, rfl, ht⟩
    | some r' =>
        rw [Split.meet_eq_continues rfl hmeets]
        refine ⟨_, rfl, .continues rfl ⟨rfl, ?_, fun r' hr' => ?_, by simp, by simp⟩⟩
        · exact hzero.trans ((hkept _).trans ((Split.depth_of_meets? hmeets).trans hnone)).symm
        · obtain rfl := Option.some.inj hr'
          exact ⟨Nat.lt_succ_of_lt hstart, rfl, ht⟩

theorem step?_eq (h : Matches ts s i l) (ht : ts[i]? = some t) :
    s.step? ts i =
      Splitting.take? { s with pending := some (pendingAt l t (ts.drop (i + 1))) } ts t i := by
  rw [Splitting.step?, ht]
  obtain hcurrent | ⟨r, hcurrent⟩ := Option.eq_none_or_eq_some l.current
  · obtain ⟨hstart, hpending⟩ := h.between hcurrent
    simp [hstart, hpending, Pending.start?_eq ht, pendingAt, hcurrent]
  · obtain ⟨hstart, hpending, -⟩ := h.current r hcurrent
    simp [hpending, pendingAt, hcurrent]

/-- The step of the automaton at a keyword outside groups. -/
theorem step_of_keyword {word : Keyword} (hkind : t.kind = .keyword word) (hdepth : l.depth = 0)
    {following : List Token}
    (hclosed : (l.closedBlock && (t.isWord "TRY" || t.isWord "CATCH")) = false) :
    l.step t following =
      if word = .CASE then State.meet { l with cases := l.cases + 1 } t word following
      else if word = .END ∧ 0 < l.cases then
        State.meet { l with cases := l.cases - 1 } t word following
      else if word = .END ∨ word = .ELSE ∧ l.cases = 0 then (.delimits, { closedBlock := true })
      else if word = .BEGIN ∧ Split.opensBlock following then (.delimits, { cases := l.cases })
      else l.meet t word following := by
  rw [State.step, hclosed, if_neg Bool.false_ne_true]
  refine (if_neg (not_not_intro hdepth)).trans ?_
  rw [hkind]
  by_cases hword : word ∈ Split.blockWords
  · simp only [Split.blockWords, List.mem_cons, List.not_mem_nil, or_false] at hword
    rcases hword with rfl | rfl | rfl | rfl
    · simp
    · rcases Nat.eq_zero_or_pos l.cases with hcases | hcases
      · simp [hcases]
      · simp [hcases, Nat.ne_of_gt hcases]
    · by_cases hcases : l.cases = 0 <;> simp [hcases]
    · by_cases hblock : Split.opensBlock following <;> simp [hblock]
  · simp only [Split.blockWords, List.mem_cons, List.not_mem_nil, or_false, not_or] at hword
    split <;> simp_all

/-- Between statements, outside groups. -/
theorem matches_between {cases i : Nat} {closed : Bool} (hzero : s.depth = 0)
    (hclosed : closed → (ts[i]?.any fun t => t.isWord "TRY" || t.isWord "CATCH") = false) :
    Matches ts { s with start := i, cases := cases, pending := none } i
      { cases := cases, closedBlock := closed } :=
  ⟨rfl, hzero, by simp, fun _ => ⟨rfl, rfl⟩, hclosed⟩

theorem exists_take?_of_keyword (h : Matches ts s i l) (ht : ts[i]? = some t) {word : Keyword}
    (hkind : t.kind = .keyword word) (hzero : s.depth = 0)
    (hclosed : (l.closedBlock && (t.isWord "TRY" || t.isWord "CATCH")) = false) :
    ∃ res, Splitting.take? { s with pending := some (pendingAt l t (ts.drop (i + 1))) } ts t i =
        some res ∧ Moves ts s i res (l.step t (ts.drop (i + 1))) := by
  have hdepth : l.depth = 0 := h.depth.symm.trans hzero
  rw [Splitting.take?, if_neg (by simp [Token.isOpen, Token.isClose, hkind]),
    if_neg (Nat.not_lt.2 (Nat.le_of_eq hzero)), hkind]
  dsimp only
  rw [step_of_keyword hkind hdepth hclosed, h.cases]
  split
  · exact exists_meet? h ht hkind hdepth _
  split
  · exact exists_meet? h ht hkind hdepth _
  split
  · next hend =>
    have hcases : l.cases = 0 := by
      rcases hend with rfl | ⟨-, hcases⟩
      · simpa using ‹¬ (Keyword.END = .END ∧ 0 < l.cases)›
      · exact hcases
    rw [hcases]
    cases hcloses : ts[i + 1]?.any fun t => t.isWord "TRY" || t.isWord "CATCH" with
    | false => exact ⟨_, rfl, .delimits rfl (matches_between hzero fun _ => hcloses)⟩
    | true => exact ⟨_, rfl, .closes rfl rfl hcloses (matches_between hzero (by simp))⟩
  split
  · exact ⟨_, rfl, .delimits rfl (matches_between hzero (by simp))⟩
  · exact exists_meet? h ht hkind hdepth l.cases

/-- One step of the division does what one step of the automaton does. -/
theorem exists_step? (h : Matches ts s i l) (ht : ts[i]? = some t) :
    ∃ res, s.step? ts i = some res ∧ Moves ts s i res (l.step t (ts.drop (i + 1))) := by
  have hword : l.closedBlock → t.isWord "TRY" = false ∧ t.isWord "CATCH" = false := by
    intro hclosed
    simpa [ht] using h.closed hclosed
  have hsame : ({ l with cases := s.cases } : State) = l := by rw [h.cases]
  have htake := moves_take h ht s.cases
  rw [hsame] at htake
  rw [step?_eq h ht]
  by_cases hkeyword : s.depth = 0 ∧ ∃ word, t.kind = .keyword word
  · obtain ⟨hzero, word, hkind⟩ := hkeyword
    exact exists_take?_of_keyword h ht hkind hzero (by simpa [Bool.and_eq_false_imp] using hword)
  rw [Splitting.take?]
  split
  · next hparen =>
    have hkind : t.kind ≠ .semicolon ∧ ∀ word, t.kind ≠ .keyword word := by
      simp only [Token.isOpen, Token.isClose, Bool.or_eq_true, decide_eq_true_eq] at hparen
      rcases hparen with hparen | hparen <;> simp [hparen]
    rw [Split.step_eq_take hword (.inr hkind)]
    exact ⟨_, rfl, htake⟩
  next hparen =>
  have hflat : t.isOpen = false ∧ t.isClose = false := by simpa using hparen
  rw [Token.depthAfter_of_flat hflat] at htake
  split
  · next hpos =>
    rw [Split.step_eq_take hword (.inl (Nat.ne_of_gt (h.depth ▸ hpos)))]
    exact ⟨_, rfl, htake⟩
  next hpos =>
  have hzero : s.depth = 0 := Nat.eq_zero_of_not_pos hpos
  split
  · next hkind =>
    rw [Split.step_semicolon hkind (h.depth.symm.trans hzero)]
    exact ⟨_, rfl, .delimits rfl (matches_between hzero (by simp))⟩
  · next word hkind => exact absurd ⟨hzero, word, hkind⟩ hkeyword
  · next hsemicolon hother =>
    rw [Split.step_eq_take hword (.inr ⟨hsemicolon, hother⟩)]
    exact ⟨_, rfl, htake⟩

theorem piece_of_lt {i j : Nat} (h : i < j) : piece i j = [(i, j)] :=
  if_pos h

theorem run?_eq {i : Nat} {s : Splitting} {l : State} (h : Matches ts s i l) (hs : l.IsSound)
    (hi : i ≤ ts.length) :
    s.run? ts i = some (piece s.start
        (i + (Split.gather i ((Split.marks l (ts.drop i)).zip (ts.drop i))).1.length) ++
      (Split.gather i ((Split.marks l (ts.drop i)).zip (ts.drop i))).2.map
        fun g => (g.first, g.stop)) := by
  rw [Splitting.run?]
  rcases Nat.lt_or_ge i ts.length with hlt | hge
  · obtain ⟨t, ht⟩ := exists_getElem? hlt
    obtain ⟨res, hres, hmoves⟩ := exists_step? h ht
    have hsound := (Split.step_spec hs t (ts.drop (i + 1))).1
    rw [dif_pos hlt, hres, Option.bind_some, drop_eq_cons ht, Split.marks, List.zip_cons_cons,
      Split.gather]
    generalize l.step t (ts.drop (i + 1)) = moved at hmoves hsound ⊢
    cases hmoves with
    | continues hstart hnext =>
        have ih := run?_eq hnext hsound hlt
        dsimp only
        rw [dif_pos (Nat.lt_succ_self i), ih, hstart, List.length_cons, ← Nat.add_right_comm]
        rfl
    | opens hstart hnext =>
        have ih := run?_eq hnext hsound hlt
        dsimp only
        rw [dif_pos (Nat.lt_succ_self i), ih, hstart, piece_of_lt (by omega), Nat.add_right_comm]
        rfl
    | delimits hnone hnext =>
        have ih := run?_eq hnext hsound hlt
        dsimp only
        rw [dif_pos (Nat.lt_succ_self i), ih, (hnext.between hnone).1,
          Split.gather_of_none hsound hnone, List.length_nil, piece_of_le (Nat.le_refl (i + 1))]
        rfl
    | closes hnone hclosed hword hnext =>
        obtain ⟨u, hu, huword⟩ := (Option.any_eq_true _ _).1 hword
        have hlt' := (List.getElem?_eq_some_iff.1 hu).1
        have hsound' : State.IsSound { (_ : State) with closedBlock := false } := fun _ => hnone
        have ih := run?_eq hnext hsound' hlt'
        dsimp only
        rw [dif_pos (by omega), ih, (hnext.between hnone).1, drop_eq_cons hu, Split.marks,
          List.zip_cons_cons, Split.gather, Split.step_closing hclosed (by simpa using huword),
          Split.gather_of_none hsound' hnone, List.length_nil, piece_of_le (Nat.le_refl (i + 2))]
        rfl
  · obtain rfl := Nat.le_antisymm hi hge
    rw [dif_neg (Nat.lt_irrefl _), List.drop_length]
    simp [Split.marks, Split.gather]
termination_by ts.length - i

/-- The statements of a batch are found without a failure. -/
theorem splitStatements?_eq (ts : List Token) :
    splitStatements? ts = some ((splitStatements ts).map fun g => (g.first, g.stop)) := by
  have hmatches : Matches ts {} 0 {} :=
    ⟨rfl, rfl, by simp, fun _ => ⟨rfl, rfl⟩, by simp⟩
  have hsound : State.IsSound {} := fun _ => rfl
  have hrun := run?_eq hmatches hsound (Nat.zero_le _)
  rw [List.drop_zero, Split.gather_of_none hsound rfl] at hrun
  exact hrun

/-- No statement of a batch is read with an index outside the tokens, from the division of the batch
to the last subquery, and the pass over the subqueries of expressions comes to its end whatever
groups are claimed by others. -/
theorem parseAll?_eq (ts : List Token) :
    parseAll? ts = some ((splitStatements ts).map fun g => Statement.parse g.tokens) ∧
      ∀ (nested : List Token → Statement) (claimed : Nat → Bool) (clauseOf : Nat → Option Clause)
        (i : Nat), ((TokenSlice.ofTokens ts).expressionQueries? (fun us => some (nested us)) claimed
          clauseOf i).isSome := by
  refine ⟨?_, fun nested claimed clauseOf i => ?_⟩
  · have hparsed : ∀ ends ∈ (splitStatements ts).map fun g => (g.first, g.stop),
        ((between? ts ends.1 ends.2).bind parse?) =
          some (Statement.parse (between ts ends.1 ends.2)) := by
      intro ends hends
      obtain ⟨g, hg, rfl⟩ := List.mem_map.1 hends
      obtain ⟨-, hstop, -⟩ := piece_of_mem_splitStatements hg
      have hle : g.first ≤ g.stop := Nat.le_add_right _ _
      rw [between?_eq hle hstop, Option.bind_some, parse?_eq]
    rw [parseAll?, splitStatements?_eq]
    refine (mapM_eq_some hparsed).trans (congrArg some ?_)
    rw [List.map_map]
    refine List.map_congr_left fun g hg => ?_
    obtain ⟨-, -, htokens⟩ := piece_of_mem_splitStatements hg
    rw [htokens, ← List.drop_take]
    rfl
  · have hnested (us : List Token) : some (nested us) = some (nested us) := rfl
    obtain ⟨found, hfound⟩ := exists_expressionQueries? hnested claimed i
    rw [hfound]
    rfl

end Indexed

end Tsql
