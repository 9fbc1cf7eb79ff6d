import Tsql.Completion.Detect
import Tsql.Proofs.Elements.Spans
import Tsql.Proofs.Elements.States

/-!
The state of the pass for a cursor, and the span that holds the cursor.

At most one span holds a cursor, and the state is the one inside that span (`exists_holder`), with one
exception: the pair that closes a block comment is read as a whole, so between its two characters the
pass is in code again while the cursor is still in the comment.
-/

namespace Tsql

open Text

namespace Scan

/-- Whether the cursor stands between the two characters that close the comment. -/
def Span.partsClosing (s : Span) (offset : Nat) : Bool :=
  s.start < offset && s.kind = .blockComment && s.terminated && offset + 1 = s.stop

theorem Span.holdsCursor_of_partsClosing {s : Span} {offset : Nat} (h : s.partsClosing offset) :
    s.holdsCursor offset := by
  simp only [partsClosing, Bool.and_eq_true, decide_eq_true_eq] at h
  obtain ⟨⟨⟨hstart, hkind⟩, -⟩, hstop⟩ := h
  simp only [holdsCursor, hkind, Bool.and_eq_true, Bool.or_eq_true, decide_eq_true_eq]
  exact ⟨hstart, .inl (by omega)⟩

theorem Span.start_lt_of_holdsCursor {s : Span} {offset : Nat} (h : s.holdsCursor offset) :
    s.start < offset := by
  simp only [holdsCursor, Bool.and_eq_true, decide_eq_true_eq] at h
  exact h.1

/-! ### The state behind some pieces -/

theorem stateAfter_append (target : Nat) (s : State) (offset : Nat) (ps qs : List Piece) :
    stateAfter target s offset (ps ++ qs) =
      stateAfter target (stateAfter target s offset ps) (offset + size (ps.flatMap Piece.text))
        qs := by
  induction ps generalizing s offset with
  | nil => rfl
  | cons p ps ih =>
      rw [List.cons_append, stateAfter, stateAfter, List.flatMap_cons, size_append, ← Nat.add_assoc]
      split
      · next hle => exact (stateAfter_of_le (by omega) _ _).symm
      · exact ih _ _

/-- Behind all pieces the state is the last one. -/
theorem stateAfter_of_lt {target offset : Nat} {ps : List Piece}
    (h : offset + size (ps.flatMap Piece.text) < target) (s : State) :
    stateAfter target s offset ps = lastState s ps := by
  induction ps generalizing s offset with
  | nil => rfl
  | cons p ps ih =>
      rw [List.flatMap_cons, size_append, ← Nat.add_assoc] at h
      rw [stateAfter, if_neg (by omega), lastState_cons]
      exact ih h _

theorem before_of_chained {s : State} {ps qs : List Piece} {q : Piece}
    (h : Chained s (ps ++ q :: qs)) : q.before = lastState s ps := by
  induction ps generalizing s with
  | nil => exact h.1
  | cons p ps ih =>
      rw [lastState_cons]
      exact ih h.2

theorem stateAfter_map_code (target offset : Nat) (cs : List Char) :
    stateAfter target .normal offset (cs.map .code) = .normal := by
  induction cs generalizing offset with
  | nil => rfl
  | cons c cs ih =>
      rw [List.map_cons, stateAfter]
      split
      · rfl
      · exact ih _

theorem stateAfter_line (target offset : Nat) (body : List Char) :
    stateAfter target .lineComment offset
      (body.map fun c => ⟨.lineComment, [c], .lineComment⟩) = .lineComment := by
  induction body generalizing offset with
  | nil => rfl
  | cons c body ih =>
      rw [List.map_cons, stateAfter]
      split
      · rfl
      · exact ih _

/-- One piece more of a literal, in front of `lit`. -/
theorem stateAfter_still (o : Char) {target offset : Nat} (text : List Char) {lit : List Char}
    {ps : List Piece} {closed : Bool} (hpos : 0 < size text)
    (hrest : stateAfter target (.inside o) (offset + size text) ps =
      if offset + size text + size lit ≤ target ∧ closed then .normal else .inside o) :
    stateAfter target (.inside o) offset (⟨.inside o, text, .inside o⟩ :: ps) =
      if offset + size (text ++ lit) ≤ target ∧ closed then .normal else .inside o := by
  rw [stateAfter, size_append]
  split
  · rw [if_neg (by omega)]
  · rw [hrest, Nat.add_assoc]

theorem stateAfter_literal {o : Char} (ho : opensLiteral o) {lit rest : List Char}
    (h : Delimited.Literal (Lexer.closing o) lit rest) (target offset : Nat) :
    stateAfter target (.inside o) offset (pieces (.inside o) lit) =
      if offset + size lit ≤ target ∧ Delimited.isClosed (Lexer.closing o) lit then .normal
      else .inside o := by
  have hclosing : size [Lexer.closing o] = 1 := by
    simp only [opensLiteral, Bool.or_eq_true, decide_eq_true_eq] at ho
    rcases ho with (rfl | rfl) | rfl <;> rfl
  induction h generalizing offset with
  | endless => simp [pieces, stateAfter, Delimited.isClosed]
  | closing stop =>
      rw [pieces_inside_closing o (by simp), hclosing, stateAfter]
      simp only [pieces, stateAfter, Delimited.isClosed]
      by_cases hle : target ≤ offset
      · rw [if_pos hle, if_neg (by omega)]
      · rw [if_neg hle, if_pos ⟨by omega, by simp⟩]
  | escape whole ih =>
      rw [pieces_inside_escape]
      simp only [Delimited.isClosed, if_true]
      exact stateAfter_still o [Lexer.closing o, Lexer.closing o]
        (Nat.lt_add_right _ (Char.utf8Size_pos _)) (ih _)
  | @char c lit rest inside whole ih =>
      rw [pieces_inside_char inside, Delimited.isClosed_cons inside]
      exact stateAfter_still o [c] (Nat.lt_add_right 0 (Char.utf8Size_pos c)) (ih _)

theorem size_pos_of_closesBlock {depth : Nat} {body : List Char}
    (h : closesBlock (depth + 1) body) : 0 < size body := by
  cases body with
  | nil => contradiction
  | cons c body => exact Nat.lt_of_lt_of_le (Char.utf8Size_pos c) (Nat.le_add_right _ _)

/-- One piece more of a block comment, in front of `body`. -/
theorem stateAfter_inBlock {target offset depth depth' : Nat} (text : List Char)
    {body : List Char} {ps : List Piece} {closes : Prop}
    (hrest : ∃ n, stateAfter target (.inBlock depth') (offset + size text) ps = .inBlock n ∧
      (n = 0 ↔ (depth' = 0 ∨ offset + size text + size body ≤ target + 1) ∧ closes))
    (hlong : closes → 2 ≤ size text + size body) (hlast : depth' = 0 → size text + size body = 2) :
    ∃ n, stateAfter target (.inBlock (depth + 1)) offset
        (⟨.inBlock (depth + 1), text, .inBlock depth'⟩ :: ps) = .inBlock n ∧
      (n = 0 ↔ (depth + 1 = 0 ∨ offset + size (text ++ body) ≤ target + 1) ∧ closes) := by
  obtain ⟨n, hn, hzero⟩ := hrest
  rw [stateAfter, size_append]
  split
  · next hle =>
    refine ⟨depth + 1, rfl, fun h => by contradiction, fun h => ?_⟩
    obtain ⟨hstop, hcloses⟩ := h
    have := hlong hcloses
    omega
  · refine ⟨n, hn, hzero.trans (and_congr_left fun _ => ?_)⟩
    omega

/-- In a block comment the pass is in code again from the middle of the closing pair on. -/
theorem stateAfter_block {depth : Nat} {body rest : List Char} (h : Lexer.Block depth body rest)
    (target offset : Nat) :
    ∃ n, stateAfter target (.inBlock depth) offset (pieces (.inBlock depth) body) = .inBlock n ∧
      (n = 0 ↔ (depth = 0 ∨ offset + size body ≤ target + 1) ∧ closesBlock depth body) := by
  induction h generalizing offset with
  | closed => exact ⟨0, rfl, by simp [closesBlock, pieces, State.inBlock]⟩
  | @endless depth =>
      refine ⟨depth + 1, rfl, ?_⟩
      simp [closesBlock, pieces, State.inBlock, State.isNormal]
  | @opening depth body rest deeper ih =>
      rw [pieces_block_opening, closesBlock_opening]
      exact stateAfter_inBlock ['/', '*'] (ih _) (fun _ => Nat.le_add_right 2 _)
        (fun h => by contradiction)
  | @closing depth body rest outer ih =>
      rw [pieces_block_closing, closesBlock_closing]
      refine stateAfter_inBlock ['*', '/'] (ih _) (fun _ => Nat.le_add_right 2 _) ?_
      rintro rfl
      cases outer
      rfl
  | @char depth c body rest opens closes inside ih =>
      have hopens := not_pair_of_append opens
      have hcloses := not_pair_of_append closes
      rw [pieces_block_char hopens hcloses, closesBlock_char hopens hcloses]
      refine stateAfter_inBlock [c] (ih _) (fun hclosed => ?_) (fun h => by contradiction)
      have hpos := Char.utf8Size_pos c
      have hbody := size_pos_of_closesBlock hclosed
      rw [size_cons, size_nil]
      omega

theorem span?_inBlock (n : Nat) :
    (State.inBlock n).span? = if n = 0 then none else some .blockComment := by
  unfold State.inBlock
  split <;> rfl

/-- The kind of a span, for a cursor at which the pass is inside it. -/
def Span.kindAt? (s : Span) (offset : Nat) : Option SpanKind :=
  if s.holdsCursor offset ∧ s.partsClosing offset = false then some s.kind else none

theorem bind_kindAt?_filter (o : Option Span) (offset : Nat) :
    ((o.filter (·.holdsCursor offset)).bind fun s => s.kindAt? offset) =
      o.bind fun s => s.kindAt? offset := by
  cases o with
  | none => rfl
  | some s =>
      cases hs : s.holdsCursor offset with
      | true => simp [Option.filter_some, hs]
      | false => simp [Option.filter_some, hs, Span.kindAt?]

theorem kindAt?_ofOpening (o : Char) (start stop offset : Nat) (terminated : Bool) :
    (⟨.ofOpening o, start, stop, terminated⟩ : Span).kindAt? offset =
      if start < offset ∧ ¬ (stop ≤ offset ∧ terminated) then some (.ofOpening o) else none := by
  have hkind : SpanKind.ofOpening o = .bracket ∨ SpanKind.ofOpening o = .quoted := by
    unfold SpanKind.ofOpening
    split <;> simp
  rcases hkind with hkind | hkind
  all_goals
    rw [Span.kindAt?, hkind]
    refine if_congr ?_ rfl rfl
    cases terminated <;> simp [Span.holdsCursor, Span.partsClosing]

theorem kindAt?_block (start stop offset : Nat) (terminated : Bool) :
    (⟨.blockComment, start, stop, terminated⟩ : Span).kindAt? offset =
      if start < offset ∧ ¬ (stop ≤ offset + 1 ∧ terminated) then some .blockComment else none := by
  rw [Span.kindAt?]
  refine if_congr ?_ rfl rfl
  cases terminated with
  | false => simp [Span.holdsCursor, Span.partsClosing]
  | true =>
      simp only [Span.holdsCursor, Span.partsClosing, Bool.and_eq_true, Bool.or_eq_true,
        Bool.and_eq_false_iff, decide_eq_true_eq, decide_eq_false_iff_not]
      simp
      omega

end Scan

open Scan

/-! ### Element by element -/

namespace Element

section

variable {target offset : Nat}

theorem span?_stateAfter_line {body : List Char}
    (hle : target ≤ offset + size (lineComment body).text) :
    (stateAfter target .normal offset (lineComment body).pieces).span? =
      ((lineComment body).span? offset).bind fun s => s.kindAt? target := by
  rw [pieces, stateAfter, stateAfter_line, span?, commentSpan?, Option.some_or, Option.bind_some]
  by_cases hfront : target ≤ offset
  · simp [hfront, State.span?, Span.kindAt?, Span.holdsCursor, Nat.not_lt.2 hfront]
  · simp [hfront, State.span?, Span.kindAt?, Span.holdsCursor, Span.partsClosing, hle,
      Nat.not_le.1 hfront]

theorem span?_stateAfter_block {body rest : List Char} (whole : Lexer.Block 1 body rest) :
    (stateAfter target .normal offset (blockComment body).pieces).span? =
      ((blockComment body).span? offset).bind fun s => s.kindAt? target := by
  obtain ⟨n, hn, hzero⟩ := stateAfter_block whole target (offset + size ['/', '*'])
  have hsize : offset + size (blockComment body).text = offset + size ['/', '*'] + size body := by
    simp [text, head, tail, Nat.add_assoc]
  rw [pieces, stateAfter, span?, commentSpan?, Option.some_or, Option.bind_some, kindAt?_block,
    hsize]
  by_cases hfront : target ≤ offset
  · rw [if_pos hfront, if_neg (by omega)]
    rfl
  · rw [if_neg hfront]
    refine (congrArg State.span? hn).trans ?_
    rw [span?_inBlock]
    by_cases hend : offset + size ['/', '*'] + size body ≤ target + 1 ∧ closesBlock 1 body
    · rw [if_pos (hzero.2 ⟨.inr hend.1, hend.2⟩), if_neg fun h => h.2 hend]
    · have hinside : n ≠ 0 := fun h =>
        hend ⟨(hzero.1 h).1.resolve_left Nat.one_ne_zero, (hzero.1 h).2⟩
      rw [if_neg hinside, if_pos ⟨Nat.not_le.1 hfront, hend⟩]

theorem span?_stateAfter_lexeme {k : TokenKind} {c : Char} {tail rest : List Char}
    (lexes : Lexer.Lexes k c tail rest) :
    (stateAfter target .normal offset (lexeme k c tail).pieces).span? =
      ((lexeme k c tail).span? offset).bind fun s => s.kindAt? target := by
  cases hl : Lexer.literalPart? k c tail with
  | none =>
      have hplain : (lexeme k c tail).pieces = (Lexer.plainPart k c tail).map .code := by
        rw [pieces, hl, Option.elim_none, List.append_nil]
      rw [hplain, stateAfter_map_code, span?_lexeme, literalSpan?, hl]
      rfl
  | some l =>
      obtain ⟨o, lit⟩ := l
      obtain ⟨ho, whole, htext⟩ := Lexer.literalPart?_of_lexes lexes hl
      have hsize : offset + size (c :: tail) =
          offset + size (Lexer.plainPart k c tail) + size [o] + size lit := by
        rw [htext]
        simp [Nat.add_assoc]
      have hflat : ((Lexer.plainPart k c tail).map Piece.code).flatMap Piece.text =
          Lexer.plainPart k c tail := by
        simp [List.flatMap_map, Piece.code]
      rw [pieces, hl, Option.elim_some, stateAfter_append, stateAfter_map_code, hflat,
        Lexer.literalPieces, stateAfter, stateAfter_literal ho whole, span?_lexeme, literalSpan?,
        hl, Option.map_some, Option.bind_some, kindAt?_ofOpening, hsize]
      by_cases hfront : target ≤ offset + size (Lexer.plainPart k c tail)
      · rw [if_pos hfront, if_neg fun h => Nat.not_lt.2 hfront h.1]
        rfl
      · rw [if_neg hfront]
        split
        · next hend =>
          rw [if_neg fun h => h.2 hend]
          rfl
        · next hend => rw [span?_inside, if_pos ⟨Nat.not_le.1 hfront, hend⟩]

/-- Up to the end of an element, and behind one that leaves the pass in code, the state of the pass
is that of the span of the element around the place. -/
theorem span?_stateAfter {e : Element} {rest : List Char} (h : e.Fits rest)
    (hline : e.after = .normal ∨ target ≤ offset + size e.text) :
    (stateAfter target .normal offset e.pieces).span? =
      (e.span? offset).bind fun s => s.kindAt? target := by
  cases h with
  | @blank c => exact congrArg State.span? (stateAfter_map_code target offset [c])
  | lineComment => exact span?_stateAfter_line (hline.resolve_left fun h => by contradiction)
  | blockComment whole => exact span?_stateAfter_block whole
  | lexeme solid code lexes => exact span?_stateAfter_lexeme lexes

end

/-- Behind an element in front of further text the state is the one that the pass goes on in. -/
theorem stateAfter_of_behind {e : Element} {rest : List Char} (h : e.Fits rest) (hne : rest ≠ [])
    {target offset : Nat} (hlt : offset + size e.text < target) :
    stateAfter target .normal offset e.pieces = e.after := by
  have hchained := chained_pieces .normal (e.text ++ rest)
  obtain ⟨c, rest', rfl⟩ := List.exists_cons_of_ne_nil hne
  have hbefore := before_of_head?_pieces e.after (c :: rest')
  rw [pieces_of_fits h] at hchained
  rw [← flatMap_text_pieces h] at hlt
  rw [stateAfter_of_lt hlt]
  cases hps : Scan.pieces e.after (c :: rest') with
  | nil =>
      have htext := flatten_pieces e.after (c :: rest')
      rw [hps] at htext
      contradiction
  | cons p ps =>
      rw [hps] at hchained hbefore
      rw [← before_of_chained hchained, hbefore p rfl]

/-- A cursor behind an element and in further text is not held by the element. -/
theorem not_holdsCursor_of_behind {e : Element} {rest : List Char} (h : e.Fits rest)
    (hne : rest ≠ []) {target offset : Nat} (hlt : offset + size e.text < target) {s : Span}
    (hs : s ∈ e.span? offset) : s.holdsCursor target = false := by
  have hstop := (bounds_of_span? hs).2
  have hnormal : e.after = .normal → s.kindAt? target = none := by
    intro hafter
    have hstate : (stateAfter target .normal offset e.pieces).span? =
        (e.span? offset).bind fun s => s.kindAt? target := span?_stateAfter h (.inl hafter)
    rw [stateAfter_of_behind h hne hlt, hafter, Option.mem_def.1 hs] at hstate
    exact hstate.symm
  have hparts : s.partsClosing target = false := by
    simp only [Span.partsClosing, Bool.and_eq_false_iff, decide_eq_false_iff_not]
    exact .inr (by omega)
  cases e with
  | lineComment body =>
      obtain rfl := Option.some.inj hs
      simp only [Span.holdsCursor, Bool.and_eq_false_iff, decide_eq_false_iff_not]
      exact .inr (by omega)
  | _ => simpa [Span.kindAt?, hparts] using hnormal rfl

end Element

namespace Elements

/-- The line feed behind a line comment leads back to code. -/
theorem stateAfter_lineComment {rest : List Char} (stop : ∀ d ∈ rest.head?, d = '\n')
    (hne : rest ≠ []) {target offset : Nat} (hlt : offset < target) :
    stateAfter target .lineComment offset (pieces .lineComment rest) =
      stateAfter target .normal offset (pieces .normal rest) := by
  cases rest with
  | nil => exact absurd rfl hne
  | cons d rest =>
      obtain rfl : d = '\n' := stop d rfl
      rw [pieces_lineFeed, pieces_lineComment_lineFeed, stateAfter, stateAfter]
      simp [Nat.not_le.2 hlt, Piece.code]

/-- At most one span holds a cursor, and the state is the one inside it, unless its last piece is
being read. -/
theorem exists_holder {es : List Element} (h : Placed es) {target offset : Nat}
    (htarget : target ≤ offset + size (text es)) :
    ∃ holder : Option Span, (spans offset es).filter (·.holdsCursor target) = holder.toList ∧
      (stateAfter target .normal offset (pieces .normal (text es))).span? =
        holder.bind fun s => s.kindAt? target := by
  induction es generalizing offset with
  | nil => exact ⟨none, rfl, rfl⟩
  | cons e es ih =>
      have hpieces : pieces .normal (text (e :: es)) = e.pieces ++ pieces e.after (text es) :=
        Element.pieces_of_fits h.1
      rw [text_cons, size_append, ← Nat.add_assoc] at htarget
      rw [hpieces, stateAfter_append, Element.flatMap_text_pieces h.1, spans, List.filter_append]
      by_cases hhere : target ≤ offset + size e.text
      · -- the cursor is in front of all later spans
        have hlater : (spans (offset + size e.text) es).filter (·.holdsCursor target) = [] := by
          refine List.filter_eq_nil_iff.2 fun s hs hholds => ?_
          have hbounds := bounds_of_mem_spans hs
          have hstart := Span.start_lt_of_holdsCursor hholds
          omega
        refine ⟨(e.span? offset).filter (·.holdsCursor target), ?_, ?_⟩
        · rw [hlater, List.append_nil]
          cases e.span? offset with
          | none => rfl
          | some s => simp [List.filter_cons, Option.filter_some, apply_ite Option.toList]
        · rw [stateAfter_of_le hhere, Element.span?_stateAfter h.1 (.inr hhere),
            bind_kindAt?_filter]
      · have hne : text es ≠ [] := by
          intro hnil
          rw [hnil] at htarget
          exact hhere htarget
        have hlt := Nat.not_le.1 hhere
        have hfront : (e.span? offset).toList.filter (·.holdsCursor target) = [] := by
          refine List.filter_eq_nil_iff.2 fun s hs => ?_
          rw [Element.not_holdsCursor_of_behind h.1 hne hlt (Option.mem_toList.1 hs)]
          exact Bool.false_ne_true
        obtain ⟨holder, hholder, hstate⟩ := ih h.2 htarget
        refine ⟨holder, by rw [hfront, hholder, List.nil_append], ?_⟩
        rw [Element.stateAfter_of_behind h.1 hne hlt, ← hstate]
        cases h.1 with
        | lineComment inside stop => exact congrArg State.span? (stateAfter_lineComment stop hne hlt)
        | blank => rfl
        | blockComment => rfl
        | lexeme => rfl

end Elements

namespace Scan

theorem exists_holder_spans {cs : List Char} {offset : Nat} (h : offset ≤ size cs) :
    ∃ holder : Option Span, (spans cs).filter (·.holdsCursor offset) = holder.toList ∧
      (stateAt cs offset).span? = holder.bind fun s => s.kindAt? offset := by
  obtain ⟨es, rfl, hplaced⟩ := Elements.exists_placed cs
  have htarget : offset ≤ 0 + size (Elements.text es) := by rwa [Nat.zero_add]
  rw [spans, Elements.spans_text hplaced]
  exact Elements.exists_holder hplaced htarget

theorem span?_stateAt {cs : List Char} {offset : Nat} (h : offset ≤ size cs) {s : Span}
    (hs : s ∈ spans cs) (hholds : s.holdsCursor offset) :
    (stateAt cs offset).span? = s.kindAt? offset := by
  obtain ⟨holder, hfilter, hstate⟩ := exists_holder_spans h
  have hmem : s ∈ holder.toList := hfilter ▸ List.mem_filter.2 ⟨hs, hholds⟩
  rw [hstate, Option.mem_def.1 (Option.mem_toList.1 hmem), Option.bind_some]

theorem isNormal_eq_isNone (s : State) : s.isNormal = s.span?.isNone := by
  cases s <;> rfl

theorem isNormal_stateAt_iff {cs : List Char} {offset : Nat} (h : offset ≤ size cs) :
    (stateAt cs offset).isNormal = false ↔
      (∃ s ∈ spans cs, s.holdsCursor offset) ∧ ¬ ∃ s ∈ spans cs, s.partsClosing offset := by
  rw [isNormal_eq_isNone, Option.isNone_eq_false_iff]
  constructor
  · intro hsome
    obtain ⟨holder, hfilter, hstate⟩ := exists_holder_spans h
    cases holder with
    | none =>
        rw [hstate] at hsome
        contradiction
    | some s =>
        have hs : s ∈ (spans cs).filter (·.holdsCursor offset) := by simp [hfilter]
        obtain ⟨hs, hholds⟩ := List.mem_filter.1 hs
        refine ⟨⟨s, hs, hholds⟩, fun ⟨t, ht, hparts⟩ => ?_⟩
        rw [span?_stateAt h ht (Span.holdsCursor_of_partsClosing hparts), Span.kindAt?,
          if_neg (by simp [hparts])] at hsome
        contradiction
  · rintro ⟨⟨s, hs, hholds⟩, hnot⟩
    have hparts : s.partsClosing offset = false :=
      Bool.eq_false_iff.2 fun hparts => hnot ⟨s, hs, hparts⟩
    rw [span?_stateAt h hs hholds, Span.kindAt?, if_pos ⟨hholds, hparts⟩]
    rfl

end Scan

/-- The state for a cursor is the one inside the span that holds it, and nothing is offered there,
unless the cursor stands between the two characters that close a comment; there the state is that of
code. -/
theorem state_of_holdsCursor (source : String) (offset : Nat) (h : offset ≤ size source.toList) :
    ((stateAt source.toList offset).isNormal = false ↔
        (∃ s ∈ spans source.toList, s.holdsCursor offset) ∧
          ¬ ∃ s ∈ spans source.toList, s.partsClosing offset) ∧
      ∀ s ∈ spans source.toList, s.holdsCursor offset → s.partsClosing offset = false →
        (stateAt source.toList offset).span? = some s.kind ∧
          (s.kind ≠ .bracket → ∀ (d : Detector) (p : Position),
            Cursor.offsetAt source.toList p = offset →
              d.detect source p =
                .ofWord .nothing (CursorSite.ofCursor source.toList p).word) := by
  refine ⟨isNormal_stateAt_iff h, fun s hs hholds hparts => ?_⟩
  have hstate : (stateAt source.toList offset).span? = some s.kind := by
    rw [span?_stateAt h hs hholds, Span.kindAt?, if_pos ⟨hholds, hparts⟩]
  refine ⟨hstate, fun hkind d p hp => ?_⟩
  have hinert : (CursorSite.ofCursor source.toList p).isInert := by
    rw [CursorSite.isInert, CursorSite.ofCursor, hp]
    cases hs : stateAt source.toList offset with
    | normal => simp [hs, State.span?] at hstate
    | bracket =>
        rw [hs] at hstate
        exact absurd (Option.some.inj hstate).symm hkind
    | _ => rfl
  rw [Detector.detect, Detector.detectIn]
  exact if_pos hinert

theorem state_of_holdsCursor_quoted :
    8 ≤ size "SELECT 'a'".toList ∧ (stateAt "SELECT 'a'".toList 8).isNormal = false :=
  ⟨by decide +kernel, (state_of_holdsCursor "SELECT 'a'" 8 (by decide +kernel)).1.2
    ⟨⟨⟨.quoted, 7, 10, true⟩, by decide +kernel, by decide⟩, by decide +kernel⟩⟩

/-- In the closing pair of `/**/` the cursor is in the comment and the state is that of code. -/
theorem stateAt_in_closing :
    ¬ ∀ (source : String) (offset : Nat), offset ≤ size source.toList →
      ((stateAt source.toList offset).isNormal = false ↔
        ∃ s ∈ spans source.toList, s.holdsCursor offset) := by
  intro h
  have hinside := (h "/**/" 3 (by decide +kernel)).2
    ⟨⟨.blockComment, 0, 4, true⟩, by decide +kernel, by decide⟩
  exact absurd hinside (by decide +kernel)

end Tsql
