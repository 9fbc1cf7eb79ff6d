import Tsql.Proofs.Batch.Lines
import Tsql.Proofs.Cursor.Offset
import Tsql.Proofs.Elements.Interior

/-!
The states of the pass at the starts of lines.

A line feed is a piece of its own, whatever stands around it, so the pass over a text is the pass
over its first lines and then, from the state they leave, the pass over the others
(`pieces_append`). The state kept for a line is therefore the one that a scan up to its first
character ends in.
-/

namespace Tsql

open Text

/-! ### Starts of lines -/

namespace Text

/-- A line starts behind the text: it is empty or ends in a line feed. -/
def IsWholeLines (cs : List Char) : Prop :=
  ∀ c ∈ cs.getLast?, c = '\n'

namespace IsWholeLines

theorem nil : IsWholeLines [] := by
  simp [IsWholeLines]

theorem tail {c : Char} {cs : List Char} (h : IsWholeLines (c :: cs)) : IsWholeLines cs := by
  cases cs with
  | nil => exact nil
  | cons d cs => simpa [IsWholeLines, List.getLast?_cons] using h

theorem cons {c : Char} {cs : List Char} (h : IsWholeLines cs) (hc : cs = [] → c = '\n') :
    IsWholeLines (c :: cs) := by
  cases cs with
  | nil => simpa [IsWholeLines] using hc
  | cons d cs => simpa [IsWholeLines, List.getLast?_cons] using h

theorem eq_lineFeed {c : Char} (h : IsWholeLines [c]) : c = '\n' :=
  h c rfl

theorem exists_concat {cs : List Char} (h : IsWholeLines cs) (hne : cs ≠ []) :
    ∃ front, cs = front ++ ['\n'] := by
  refine ⟨cs.dropLast, ?_⟩
  rw [← h _ (List.getLast?_eq_some_getLast hne), List.dropLast_concat_getLast]

end IsWholeLines

/-- Each line has a start. -/
theorem exists_wholeLines {cs : List Char} {i : Nat} (h : i ≤ cs.count '\n') :
    ∃ front behind, cs = front ++ behind ∧ IsWholeLines front ∧ front.count '\n' = i := by
  induction cs generalizing i with
  | nil =>
      obtain rfl : i = 0 := by simpa using h
      exact ⟨[], [], rfl, .nil, rfl⟩
  | cons c cs ih =>
      cases i with
      | zero => exact ⟨[], c :: cs, rfl, .nil, rfl⟩
      | succ i =>
          by_cases hc : c = '\n'
          · subst hc
            rw [List.count_cons_self] at h
            obtain ⟨front, behind, rfl, hfront, rfl⟩ := ih (Nat.le_of_succ_le_succ h)
            exact ⟨'\n' :: front, behind, rfl, hfront.cons fun _ => rfl, List.count_cons_self⟩
          · rw [List.count_cons_of_ne hc] at h
            obtain ⟨front, behind, rfl, hfront, hcount⟩ := ih h
            refine ⟨c :: front, behind, rfl, hfront.cons ?_, ?_⟩
            · rintro rfl
              contradiction
            · rwa [List.count_cons_of_ne hc]

/-- The line that starts behind whole lines is the first one of what follows. -/
theorem getElem?_lines {front : List Char} (h : IsWholeLines front) (behind : List Char) :
    (lines (front ++ behind))[front.count '\n']? = (lines behind).head? := by
  by_cases hne : front = []
  · subst hne
    exact List.head?_eq_getElem?.symm
  · obtain ⟨f, rfl⟩ := h.exists_concat hne
    have hlen : (lines f).length = (f ++ ['\n']).count '\n' := by
      rw [length_lines, List.count_append]
      rfl
    rw [List.append_assoc, List.singleton_append, lines_append_lineFeed, ← hlen,
      List.getElem?_append_right (Nat.le_refl _), Nat.sub_self, List.head?_eq_getElem?]

/-- The first line begins as the text does. -/
theorem exists_cons_of_head?_lines {cs rest : List Char} {c : Char}
    (h : (lines cs).head? = some (c :: rest)) : ∃ more, cs = c :: more := by
  cases cs with
  | nil => simp [lines, split] at h
  | cons d cs =>
      refine ⟨cs, ?_⟩
      simp only [lines, split] at h
      split at h
      · simp at h
      · split at h <;> simp_all

end Text

/-- The position of the first character of a line. -/
theorem Position.advance_wholeLines {front : List Char} (h : IsWholeLines front) :
    Position.origin.advance front = ⟨front.count '\n' + 1, 1⟩ := by
  by_cases hne : front = []
  · subst hne
    rfl
  · obtain ⟨f, rfl⟩ := h.exists_concat hne
    have hline := Position.line_advance .origin (f ++ ['\n'])
    refine Position.ext (hline.trans (Nat.add_comm 1 _)) ?_
    rw [advance_append]
    rfl

namespace Scan

/-! ### Line feeds -/

variable {s : State} {c d : Char} {cs front behind : List Char}

/-- A line feed changes nothing, save that a line comment ends before it. -/
theorem step_lineFeed (hs : s ≠ .quoted '\n') (following : Option Char) :
    s.step '\n' following = ⟨false, if s = .lineComment then .normal else s⟩ := by
  cases s with
  | normal | lineComment | blockComment | bracket => simp [State.step]
  | quoted delimiter =>
      have hne : ¬ '\n' = delimiter := by
        rintro rfl
        exact hs rfl
      simp [State.step, hne]

/-- No step reads a line feed together with another character. -/
theorem ne_lineFeed_of_pair (hs : s ≠ .quoted '\n') (h : (s.step c (some d)).pair) :
    c ≠ '\n' ∧ d ≠ '\n' := by
  cases s with
  | lineComment => contradiction
  | normal | blockComment | quoted | bracket => grind [State.step]

theorem ne_quoted_lineFeed (hs : s ≠ .quoted '\n') (c : Char) (following : Option Char) :
    (s.step c following).after ≠ .quoted '\n' := by
  intro h
  rcases delimiter_of_step h with h | h | h
  · exact hs h
  · exact absurd h (by decide)
  · exact absurd h (by decide)

/-- The pass over whole lines and then over what follows. -/
theorem pieces_append (hs : s ≠ .quoted '\n') (h : IsWholeLines front) (behind : List Char) :
    pieces s (front ++ behind) =
      pieces s front ++ pieces (lastState s (pieces s front)) behind := by
  fun_induction pieces s front with
  | case1 => rfl
  | case2 s c =>
      obtain rfl := h.eq_lineFeed
      cases behind with
      | nil => simp [pieces]
      | cons d behind => simp [pieces, step_lineFeed hs]
  | case3 s c d rest m hpair ih =>
      rw [List.cons_append, List.cons_append, pieces, if_pos hpair, lastState_cons,
        ih (ne_quoted_lineFeed hs c _) h.tail.tail]
      rfl
  | case4 s c d rest m hpair ih =>
      rw [List.cons_append, List.cons_append, pieces, if_neg hpair, lastState_cons,
        ← List.cons_append, ih (ne_quoted_lineFeed hs c _) h.tail]
      rfl

/-- There is one state for each line feed. -/
theorem length_lineStates_pieces (hs : s ≠ .quoted '\n') (cs : List Char) :
    ((pieces s cs).filterMap Piece.lineState?).length = cs.count '\n' := by
  fun_induction pieces s cs with
  | case1 => rfl
  | case2 s c =>
      by_cases hc : c = '\n'
      · simp [Piece.lineState?, hc]
      · simp [Piece.lineState?, hc, Ne.symm hc]
  | case3 s c d rest m hpair ih =>
      obtain ⟨hc, hd⟩ := ne_lineFeed_of_pair hs hpair
      have hnone : Piece.lineState? ⟨s, [c, d], m.after⟩ = none := by
        simp [Piece.lineState?, Ne.symm hc, Ne.symm hd]
      rw [List.filterMap_cons_none hnone, ih (ne_quoted_lineFeed hs c _),
        List.count_cons_of_ne hc, List.count_cons_of_ne hd]
  | case4 s c d rest m hpair ih =>
      have hrest := ih (ne_quoted_lineFeed hs c _)
      by_cases hc : c = '\n'
      · have hsome : Piece.lineState? ⟨s, [c], m.after⟩ = some m.after := by
          simp [Piece.lineState?, hc]
        rw [List.filterMap_cons_some hsome, List.length_cons, hrest, hc, List.count_cons_self]
      · have hnone : Piece.lineState? ⟨s, [c], m.after⟩ = none := by
          simp [Piece.lineState?, Ne.symm hc]
        rw [List.filterMap_cons_none hnone, hrest, List.count_cons_of_ne hc]

/-- The last state that whole lines record is the one they end in. -/
theorem getLast?_lineStates_pieces (hs : s ≠ .quoted '\n') (h : IsWholeLines front)
    (hne : front ≠ []) :
    ((pieces s front).filterMap Piece.lineState?).getLast? =
      some (lastState s (pieces s front)) := by
  fun_induction pieces s front with
  | case1 => contradiction
  | case2 s c =>
      obtain rfl := h.eq_lineFeed
      simp [Piece.lineState?]
  | case3 s c d rest m hpair ih =>
      obtain ⟨hc, hd⟩ := ne_lineFeed_of_pair hs hpair
      have hnone : Piece.lineState? ⟨s, [c, d], m.after⟩ = none := by
        simp [Piece.lineState?, Ne.symm hc, Ne.symm hd]
      have hrest : rest ≠ [] := by
        rintro rfl
        exact hd h.tail.eq_lineFeed
      rw [List.filterMap_cons_none hnone, lastState_cons]
      exact ih (ne_quoted_lineFeed hs c _) h.tail.tail hrest
  | case4 s c d rest m hpair ih =>
      have hlast := ih (ne_quoted_lineFeed hs c _) h.tail (List.cons_ne_nil d rest)
      rw [lastState_cons]
      cases hstate : Piece.lineState? ⟨s, [c], m.after⟩ with
      | none => rwa [List.filterMap_cons_none hstate]
      | some t => rw [List.filterMap_cons_some hstate, List.getLast?_cons, hlast, Option.getD_some]

/-! ### The states that are kept -/

theorem normal_ne : State.normal ≠ .quoted '\n' := by decide

/-- Where all pieces have been read the state is the last one. -/
theorem stateAfter_size {ps : List Piece} (h : ∀ p ∈ ps, p.text ≠ []) (s : State) (offset : Nat) :
    stateAfter (offset + size (ps.flatMap Piece.text)) s offset ps = lastState s ps := by
  induction ps generalizing s offset with
  | nil => rfl
  | cons p ps ih =>
      obtain ⟨hp, hps⟩ := List.forall_mem_cons.1 h
      obtain ⟨c, text, htext⟩ := List.exists_cons_of_ne_nil hp
      have hpos := Char.utf8Size_pos c
      rw [List.flatMap_cons, size_append, ← Nat.add_assoc, stateAfter, lastState_cons, if_neg, ih hps]
      rw [htext, size_cons]
      omega

/-- The state behind whole lines. -/
theorem stateAt_wholeLines (h : IsWholeLines front) (behind : List Char) :
    stateAt (front ++ behind) (size front) = lastState .normal (pieces .normal front) := by
  have htext : (pieces .normal front).flatMap Piece.text = front := by
    rw [List.flatMap_def, flatten_pieces]
  have hpieces : ∀ p ∈ pieces .normal front, p.text ≠ [] := fun _ => text_ne_nil
  have hfront := stateAfter_size hpieces .normal 0
  rw [htext, Nat.zero_add] at hfront
  rw [stateAt, pieces_append normal_ne h, stateAfter_append, hfront, htext, Nat.zero_add]
  exact stateAfter_of_le (Nat.le_refl _) _ _

theorem getElem?_lineStates (h : IsWholeLines front) (behind : List Char) :
    (lineStates (front ++ behind))[front.count '\n']? =
      some (stateAt (front ++ behind) (size front)) := by
  rw [stateAt_wholeLines h, Batch.lineStates_eq, pieces_append normal_ne h, List.filterMap_append]
  by_cases hne : front = []
  · subst hne
    rfl
  · have hlast := getLast?_lineStates_pieces normal_ne h hne
    have hlen := length_lineStates_pieces normal_ne front
    have hpos : 0 < front.count '\n' := by
      obtain ⟨f, rfl⟩ := h.exists_concat hne
      simp
    rw [List.getLast?_eq_getElem?, hlen] at hlast
    obtain ⟨n, hn⟩ := Nat.exists_eq_succ_of_ne_zero (Nat.pos_iff_ne_zero.1 hpos)
    rw [hn] at hlast ⊢
    rw [Nat.succ_eq_add_one, List.getElem?_cons_succ, List.getElem?_append_left (by omega)]
    exact hlast

/-! ### Characters in spans -/

/-- The characters of the piece belong to a literal or comment. The line feed behind a line comment
does not. -/
def Piece.isInSpan (p : Piece) : Bool :=
  match p.before.span? with
  | none => p.after.span?.isSome
  | some kind => kind ≠ .lineComment || p.after.span?.isSome

section

variable {s : State} {offset opened o : Nat} {as bs ps : List Piece} {p : Piece} {sp : Span}

theorem opened_le_start (hopened : opened ≤ offset) (h : sp ∈ spansFrom s offset opened ps) :
    opened ≤ sp.start := by
  induction ps generalizing s offset opened with
  | nil =>
      rw [spansFrom] at h
      split at h
      · contradiction
      · obtain rfl := List.mem_singleton.1 h
        exact Nat.le_refl opened
  | cons p ps ih =>
      rw [spansFrom] at h
      split at h
      · exact Nat.le_trans hopened (ih (Nat.le_add_right _ _) h)
      · split at h
        · rcases List.mem_cons.1 h with rfl | h
          · exact Nat.le_refl opened
          · exact ih (by omega) h
        · exact ih (by omega) h

/-- What is open ends further on. -/
theorem exists_span_of_open (offset opened : Nat) (hchained : Chained s ps)
    (hopen : s.span?.isSome) :
    ∃ sp ∈ spansFrom s offset opened ps, sp.start = opened ∧ offset ≤ sp.stop := by
  induction ps generalizing s offset with
  | nil =>
      obtain ⟨kind, hkind⟩ := Option.isSome_iff_exists.1 hopen
      rw [spansFrom, hkind]
      exact ⟨_, List.mem_singleton_self _, rfl, Nat.le_refl offset⟩
  | cons p ps ih =>
      obtain ⟨rfl, hps⟩ := hchained
      obtain ⟨kind, hkind⟩ := Option.isSome_iff_exists.1 hopen
      rw [spansFrom, hkind]
      dsimp only
      split
      · refine ⟨_, List.mem_cons_self, rfl, ?_⟩
        split
        · exact Nat.le_refl offset
        · exact Nat.le_add_right _ _
      · next hafter =>
        rw [isNormal_eq_isNone, Bool.not_eq_true, Option.isNone_eq_false_iff] at hafter
        obtain ⟨sp, hmem, hstart, hstop⟩ := ih (offset + size p.text) hps hafter
        exact ⟨sp, hmem, hstart, Nat.le_of_add_right_le hstop⟩

/-- From code on, what opens does so further on. -/
theorem offset_le_start (hchained : Chained s ps) (hs : s.span? = none)
    (h : sp ∈ spansFrom s offset opened ps) : offset ≤ sp.start := by
  cases ps with
  | nil =>
      rw [spansFrom, hs] at h
      contradiction
  | cons p ps =>
      rw [spansFrom, hchained.1, hs] at h
      exact opened_le_start (Nat.le_add_right _ _) h

/-- The first character is in a span if its piece is. -/
theorem exists_covers_cons (hopened : opened ≤ offset) (hchained : Chained s (p :: ps))
    (hlow : offset ≤ o) (hhigh : o < offset + size p.text) :
    (∃ sp ∈ spansFrom s offset opened (p :: ps), sp.covers o) ↔ p.isInSpan := by
  obtain ⟨rfl, hps⟩ := hchained
  rw [spansFrom, Piece.isInSpan]
  cases hafter : p.after.span? with
  | some kind =>
      -- a span that is open behind the piece was open in it
      have hsome : p.after.span?.isSome := by rw [hafter]; rfl
      have hnormal : p.after.isNormal = false := by rw [isNormal_eq_isNone, hafter]; rfl
      have hspan : ∀ from', from' ≤ offset →
          ∃ sp ∈ spansFrom p.after (offset + size p.text) from' ps, sp.covers o := by
        intro from' hfrom
        obtain ⟨sp, hmem, hstart, hstop⟩ :=
          exists_span_of_open (offset + size p.text) from' hps hsome
        refine ⟨sp, hmem, ?_⟩
        simp only [Span.covers, Bool.and_eq_true, decide_eq_true_eq]
        omega
      cases p.before.span? with
      | none => simpa using hspan offset (Nat.le_refl offset)
      | some kind => simpa [hnormal] using hspan opened hopened
  | none =>
      have hnormal : p.after.isNormal := by rw [isNormal_eq_isNone, hafter]; rfl
      have hlater : ∀ from', ¬ ∃ sp ∈ spansFrom p.after (offset + size p.text) from' ps,
          sp.covers o := by
        rintro from' ⟨sp, hmem, hcovers⟩
        have hstart := offset_le_start hps hafter hmem
        simp only [Span.covers, Bool.and_eq_true, decide_eq_true_eq] at hcovers
        omega
      cases p.before.span? with
      | none => simpa using hlater offset
      | some kind =>
          simp only [hnormal, if_true, List.exists_mem_cons_iff, hlater, or_false]
          by_cases hkind : kind = .lineComment
          · simp [hkind, Span.covers, hlow]
          · simp [hkind, Span.covers, hhigh, Nat.le_trans hopened hlow]

/-- A character is in a span if its piece is. -/
theorem exists_covers_iff_isInSpan (hopened : opened ≤ offset) (hchained : Chained s (as ++ p :: bs))
    (hlow : offset + size (as.flatMap Piece.text) ≤ o)
    (hhigh : o < offset + size (as.flatMap Piece.text) + size p.text) :
    (∃ sp ∈ spansFrom s offset opened (as ++ p :: bs), sp.covers o) ↔ p.isInSpan := by
  induction as generalizing s offset opened with
  | nil => exact exists_covers_cons hopened hchained hlow hhigh
  | cons a as ih =>
      obtain ⟨rfl, hrest⟩ := hchained
      rw [List.flatMap_cons, size_append, ← Nat.add_assoc] at hlow hhigh
      rw [List.cons_append, spansFrom]
      split
      · exact ih (Nat.le_add_right _ _) hrest hlow hhigh
      · have hopened' : opened ≤ offset + size a.text := Nat.le_add_right_of_le hopened
        split
        · next kind _ _ =>
          have hfirst : ∀ stop, stop ≤ offset + size a.text →
              (⟨kind, opened, stop, true⟩ : Span).covers o = false := by
            intro stop hstop
            simp only [Span.covers, Bool.and_eq_false_iff, decide_eq_false_iff_not]
            omega
          rw [List.exists_mem_cons_iff, hfirst _ (by split <;> omega)]
          simpa using ih hopened' hrest hlow hhigh
        · exact ih hopened' hrest hlow hhigh

end

/-! ### States while characters are passed -/

/-- The state in which the characters of a piece are passed. The delimiter that opens a literal or
comment is passed inside it, and so is the one that closes it; a line comment is closed before its
line feed is passed. -/
def Piece.passing (p : Piece) : State :=
  match p.before, p.after with
  | .blockComment outer, .blockComment inner => .blockComment (max outer inner)
  | .blockComment depth, .normal => .blockComment depth
  | .quoted delimiter, .normal => .quoted delimiter
  | .bracket, .normal => .bracket
  | _, after => after

/-- The state that is recorded for each line feed of a piece at the moment when it is passed. -/
def Piece.recorded (p : Piece) : List State :=
  (p.text.filter (· = '\n')).map fun _ => p.passing

theorem eq_lineFeed_of_mem_pieces {s : State} (hs : s ≠ .quoted '\n') {cs : List Char} {p : Piece}
    (hp : p ∈ pieces s cs) (hmem : '\n' ∈ p.text) :
    p.text = ['\n'] ∧ p.after = if p.before = .lineComment then .normal else p.before := by
  fun_induction pieces s cs with
  | case1 => contradiction
  | case2 s c =>
      obtain rfl := List.mem_singleton.1 hp
      obtain rfl := List.mem_singleton.1 hmem
      exact ⟨rfl, congrArg State.Step.after (step_lineFeed hs none)⟩
  | case3 s c d rest m hpair ih =>
      rcases List.mem_cons.1 hp with rfl | hp
      · obtain ⟨hc, hd⟩ := ne_lineFeed_of_pair hs hpair
        simp [Ne.symm hc, Ne.symm hd] at hmem
      · exact ih (ne_quoted_lineFeed hs c _) hp
  | case4 s c d rest m hpair ih =>
      rcases List.mem_cons.1 hp with rfl | hp
      · obtain rfl := List.mem_singleton.1 hmem
        exact ⟨rfl, congrArg State.Step.after (step_lineFeed hs (some d))⟩
      · exact ih (ne_quoted_lineFeed hs c _) hp

theorem passing_eq_after {p : Piece}
    (h : p.after = if p.before = .lineComment then .normal else p.before) : p.passing = p.after := by
  obtain ⟨before, text, after⟩ := p
  cases before <;> simp_all [Piece.passing]

/-- What is recorded while line feeds are passed are the states behind them. -/
theorem lineStates_eq_recorded (cs : List Char) :
    lineStates cs = .normal :: (pieces .normal cs).flatMap Piece.recorded := by
  rw [Batch.lineStates_eq, List.filterMap_eq_flatMap_toList]
  refine congrArg _ (List.flatMap_congr fun p hp => ?_)
  by_cases hmem : '\n' ∈ p.text
  · obtain ⟨htext, hafter⟩ := eq_lineFeed_of_mem_pieces normal_ne hp hmem
    rw [Piece.lineState?, if_pos hmem, Piece.recorded, htext, passing_eq_after hafter]
    rfl
  · have hnone : p.text.filter (· = '\n') = [] := by
      refine List.filter_eq_nil_iff.2 fun c hc heq => hmem ?_
      rwa [← of_decide_eq_true heq]
    rw [Piece.lineState?, if_neg hmem, Piece.recorded, hnone]
    rfl

/-- No line starts in a line comment. -/
theorem lastState_ne_lineComment {front : List Char} (h : IsWholeLines front) :
    lastState .normal (pieces .normal front) ≠ .lineComment := by
  by_cases hne : front = []
  · subst hne
    exact State.noConfusion
  · obtain ⟨p, hp, hstate⟩ := List.mem_filterMap.1
      (List.mem_of_getLast? (getLast?_lineStates_pieces normal_ne h hne))
    obtain ⟨hmem, heq⟩ : '\n' ∈ p.text ∧ p.after = lastState .normal (pieces .normal front) := by
      simpa [Piece.lineState?] using hstate
    rw [← heq, (eq_lineFeed_of_mem_pieces normal_ne hp hmem).2]
    split
    · exact State.noConfusion
    · next hbefore => exact hbefore

theorem exists_first_piece (s : State) (c : Char) (rest : List Char) :
    ∃ p ps, pieces s (c :: rest) = p :: ps ∧ p.before = s ∧
      p.after = (s.step c rest.head?).after ∧ 0 < size p.text := by
  have hpos : ∀ more, 0 < size (c :: more) := fun more =>
    Nat.lt_of_lt_of_le (Char.utf8Size_pos c) (Nat.le_add_right _ _)
  rw [pieces_cons]
  split
  · exact ⟨_, _, rfl, rfl, rfl, hpos _⟩
  · exact ⟨_, _, rfl, rfl, rfl, hpos _⟩

/-- At the start of a line whose first character opens nothing, the state tells whether that
character is in a span. -/
theorem exists_covers_wholeLines {front rest : List Char} {c : Char} (h : IsWholeLines front)
    (hc : isBlank c ∨ isWordChar c) :
    (∃ sp ∈ spans (front ++ c :: rest), sp.covers (size front)) ↔
      (stateAt (front ++ c :: rest) (size front)).isNormal = false := by
  have hne : ∀ d, isBlank d = false → isWordChar d = false → c ≠ d := by
    rintro d hblank hword rfl
    simp [hblank, hword] at hc
  have hstep : ∀ following, (State.normal.step c following).after = .normal := by
    intro following
    simp [State.step, hne '-' (by decide) (by decide), hne '/' (by decide) (by decide),
      hne '\'' (by decide) (by decide), hne '"' (by decide) (by decide),
      hne '[' (by decide) (by decide)]
  have htext : (pieces .normal front).flatMap Piece.text = front := by
    rw [List.flatMap_def, flatten_pieces]
  have hchained := chained_pieces .normal (front ++ c :: rest)
  have hlast := lastState_ne_lineComment h
  obtain ⟨p, ps, hps, hbefore, hafter, hpos⟩ :=
    exists_first_piece (lastState .normal (pieces .normal front)) c rest
  rw [stateAt_wholeLines h, spans]
  rw [pieces_append normal_ne h, hps] at hchained ⊢
  rw [exists_covers_iff_isInSpan (Nat.le_refl 0) hchained (by rw [htext]; omega)
    (by rw [htext]; omega), Piece.isInSpan, hbefore, hafter]
  cases hstate : lastState .normal (pieces .normal front) with
  | normal => simp [State.span?, hstep]
  | lineComment => exact absurd hstate hlast
  | blockComment | quoted | bracket => simp [State.span?, State.isNormal]

end Scan

/-! ### Separator lines -/

namespace Batch

open Scan

theorem mem_separatorsFrom {n k : Nat} {ms : List (Bool × List Char)} :
    n + k ∈ separatorsFrom n ms ↔ ∃ l, ms[k]? = some (true, l) := by
  induction ms generalizing n k with
  | nil => simp [separatorsFrom]
  | cons m ms ih =>
      obtain ⟨b, l⟩ := m
      cases k with
      | zero =>
          cases b with
          | true => simp [separatorsFrom]
          | false =>
              have hnot : n ∉ separatorsFrom (n + 1) ms := fun h =>
                absurd (le_of_mem_separatorsFrom h).1 (Nat.not_succ_le_self n)
              simp [separatorsFrom, hnot]
      | succ k =>
          rw [List.getElem?_cons_succ, ← ih (n := n + 1), Nat.succ_add_eq_add_succ]
          cases b with
          | true => simp [separatorsFrom]
          | false => rfl

theorem mem_separators {cs line : List Char} {state : State} {i : Nat}
    (hline : (lines cs)[i]? = some line) (hstate : (lineStates cs)[i]? = some state) :
    i + 1 ∈ separators cs ↔ state.isNormal ∧ isSeparator line := by
  rw [separators, Nat.add_comm, mem_separatorsFrom, markedLines, List.getElem?_zipWith, hline, hstate]
  simp

/-- A separator line begins with a blank or a character of a word. -/
theorem exists_cons_of_isSeparator {line : List Char} (h : isSeparator line) :
    ∃ c rest, line = c :: rest ∧ (isBlank c ∨ isWordChar c) := by
  rw [isSeparator_eq] at h
  cases line with
  | nil => contradiction
  | cons c rest =>
      refine ⟨c, rest, rfl, ?_⟩
      by_cases hc : isBlank c
      · exact .inl hc
      · obtain ⟨run, tail, rfl, hrun, hstop⟩ := Lexer.exists_run (fun d => !isBlank d) rest
        have hsolid : ∀ d ∈ c :: run, isBlank d = false :=
          List.forall_mem_cons.2 ⟨by simpa using hc, fun d hd => by simpa using hrun d hd⟩
        have hwords := words_append_solid (List.cons_ne_nil c run) hsolid
          fun d hd => by simpa using hstop d hd
        have hne : ∀ w ∈ words (c :: run ++ tail), w ≠ [] := fun w hw => by
          simpa using (List.mem_filter.1 hw).2
        have hhead := wordlike_of_separates h hne (c :: run) (hwords ▸ List.mem_cons_self)
        exact .inr (Element.wordlike_head hhead c List.mem_cons_self)

end Batch

open Scan Batch

/-- There is one state for each line. It is the one recorded while the line feed before the line is
passed, and the state of a scan up to the first character of the line; so a separator line counts
unless its first character is in a literal or comment. -/
theorem lineStates_eq_stateAt (cs : List Char) :
    (lineStates cs).length = cs.count '\n' + 1 ∧
      lineStates cs = .normal :: (pieces .normal cs).flatMap Piece.recorded ∧
      (∀ i ≤ cs.count '\n',
        (lineStates cs)[i]? = some (stateAt cs (Cursor.offsetAt cs ⟨i + 1, 1⟩))) ∧
      ∀ (i : Nat) (line : List Char), (lines cs)[i]? = some line → isSeparator line →
        (i + 1 ∉ separators cs ↔
          ∃ s ∈ spans cs, s.covers (Cursor.offsetAt cs ⟨i + 1, 1⟩)) := by
  have hstart : ∀ i ≤ cs.count '\n', ∃ front behind, cs = front ++ behind ∧ IsWholeLines front ∧
      front.count '\n' = i ∧ Cursor.offsetAt cs ⟨i + 1, 1⟩ = size front := by
    intro i hi
    obtain ⟨front, behind, rfl, hfront, rfl⟩ := exists_wholeLines hi
    refine ⟨front, behind, rfl, hfront, rfl, ?_⟩
    rw [← Position.advance_wholeLines hfront, Cursor.offsetAt_advance]
  have hstates : ∀ i ≤ cs.count '\n',
      (lineStates cs)[i]? = some (stateAt cs (Cursor.offsetAt cs ⟨i + 1, 1⟩)) := by
    intro i hi
    obtain ⟨front, behind, rfl, hfront, rfl, hoffset⟩ := hstart i hi
    rw [hoffset, getElem?_lineStates hfront]
  refine ⟨?_, lineStates_eq_recorded cs, hstates, fun i line hline hgo => ?_⟩
  · rw [lineStates_eq, List.length_cons, length_lineStates_pieces normal_ne]
  · have hi : i ≤ cs.count '\n' := by
      have hlt := (List.getElem?_eq_some_iff.1 hline).1
      rw [length_lines] at hlt
      exact Nat.le_of_lt_succ hlt
    rw [mem_separators hline (hstates i hi)]
    obtain ⟨front, behind, rfl, hfront, rfl, hoffset⟩ := hstart i hi
    obtain ⟨c, rest, rfl, hc⟩ := exists_cons_of_isSeparator hgo
    rw [getElem?_lines hfront] at hline
    obtain ⟨more, rfl⟩ := exists_cons_of_head?_lines hline
    rw [hoffset, exists_covers_wholeLines hfront hc]
    simp only [hgo, and_true, Bool.not_eq_true]

/-- The first of the two separator lines here is in a comment. -/
theorem lineStates_eq_stateAt_comment :
    let cs := ['/', '*', '\n', 'G', 'O', '\n', '*', '/', '\n', 'G', 'O']
    (lineStates cs)[1]? = some (stateAt cs 3) ∧ 2 ∉ separators cs ∧ 4 ∈ separators cs := by
  intro cs
  obtain ⟨-, -, hstate, hseparator⟩ := lineStates_eq_stateAt cs
  refine ⟨hstate 1 (by decide), ?_, ?_⟩
  · exact (hseparator 1 ['G', 'O'] (by decide) (by decide)).2
      ⟨⟨.blockComment, 0, 8, true⟩, by decide, by decide⟩
  · by_contra hnot
    have hcovered := (hseparator 3 ['G', 'O'] (by decide) (by decide)).1 hnot
    exact absurd hcovered (by decide)

end Tsql
