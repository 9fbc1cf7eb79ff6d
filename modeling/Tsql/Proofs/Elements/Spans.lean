import Tsql.Proofs.Elements.Scan
import Tsql.Scan.Spans

/-!
The spans of a text, element by element.

A comment is a span, a lexeme with a literal in it holds one, and blanks have none. The pass over the
characters finds exactly these, in order (`spans_text`). Those of quoted texts and bracketed names are
the literals among the elements (`literals_text`); a token is longer than its span only where an `N`
stands in front of the quote.
-/

namespace Tsql

open Scan

namespace Scan

/-- Whether the span is a quoted text or a bracketed name, not a comment. -/
def Span.isLiteral (s : Span) : Bool :=
  s.kind = .quoted || s.kind = .bracket

/-- Whether the span is a comment. -/
def Span.isComment (s : Span) : Bool :=
  s.kind = .lineComment || s.kind = .blockComment

/-- The kind of span that `o` opens. -/
def SpanKind.ofOpening (o : Char) : SpanKind :=
  if o = '[' then .bracket else .quoted

theorem span?_inside (o : Char) : (State.inside o).span? = some (.ofOpening o) := by
  unfold State.inside SpanKind.ofOpening
  split <;> rfl

theorem ofOpening_ne_lineComment (o : Char) : SpanKind.ofOpening o ≠ .lineComment := by
  unfold SpanKind.ofOpening
  split <;> decide

theorem isComment_ofOpening (o : Char) (start stop : Nat) (terminated : Bool) :
    (⟨.ofOpening o, start, stop, terminated⟩ : Span).isComment = false := by
  unfold SpanKind.ofOpening Span.isComment
  split <;> rfl

theorem isLiteral_ofOpening (o : Char) (start stop : Nat) (terminated : Bool) :
    (⟨.ofOpening o, start, stop, terminated⟩ : Span).isLiteral := by
  unfold SpanKind.ofOpening Span.isLiteral
  split <;> rfl

/-- Whether the character at a byte offset is in the span. -/
def Span.covers (s : Span) (offset : Nat) : Bool :=
  s.start ≤ offset && offset < s.stop

/-! ### One piece more -/

theorem spansFrom_code (s : State) (offset opened : Nat) (c : Char) (ps : List Piece) :
    spansFrom s offset opened (.code c :: ps) =
      spansFrom .normal (offset + c.utf8Size) offset ps := rfl

/-- A piece that starts in code opens what it opens, whatever was open before. -/
theorem spansFrom_opened {ps : List Piece} (h : ∀ p ∈ ps.head?, p.before = .normal)
    (offset opened : Nat) : spansFrom .normal offset opened ps = spansFrom .normal offset 0 ps := by
  cases ps with
  | nil => rfl
  | cons p ps =>
      rw [spansFrom, spansFrom, h p rfl]
      rfl

theorem before_of_head?_pieces (s : State) (cs : List Char) :
    ∀ p ∈ (pieces s cs).head?, p.before = s := by
  intro p hp
  cases cs with
  | nil => contradiction
  | cons c rest =>
      rw [pieces_cons] at hp
      split at hp
      all_goals
        obtain rfl := Option.some.inj hp
        rfl

theorem spansFrom_map_code (cs : List Char) (offset : Nat) {ps : List Piece}
    (h : ∀ p ∈ ps.head?, p.before = .normal) :
    spansFrom .normal offset 0 (cs.map .code ++ ps) =
      spansFrom .normal (offset + Text.size cs) 0 ps := by
  induction cs generalizing offset with
  | nil => rfl
  | cons c cs ih =>
      have hhead : ∀ p ∈ (cs.map Piece.code ++ ps).head?, p.before = .normal := by
        cases cs with
        | nil => exact h
        | cons d cs =>
            intro p hp
            obtain rfl := Option.some.inj hp
            rfl
      rw [List.map_cons, List.cons_append, spansFrom_code, spansFrom_opened hhead, ih,
        Text.size_cons, Nat.add_assoc]

/-! ### Literals -/

theorem spansFrom_still (o : Char) (text : List Char) (s : State) (offset opened : Nat)
    (ps : List Piece) :
    spansFrom s offset opened (⟨.inside o, text, .inside o⟩ :: ps) =
      spansFrom (.inside o) (offset + Text.size text) opened ps := by
  rw [spansFrom, span?_inside]
  simp [isNormal_inside]

theorem spansFrom_closing (o : Char) (text : List Char) (s : State) (offset opened : Nat)
    (ps : List Piece) :
    spansFrom s offset opened (⟨.inside o, text, .normal⟩ :: ps) =
      ⟨.ofOpening o, opened, offset + Text.size text, true⟩ ::
        spansFrom .normal (offset + Text.size text) opened ps := by
  rw [spansFrom, span?_inside]
  simp [State.isNormal, ofOpening_ne_lineComment]

/-- The span of a literal, found from behind its opening delimiter on. -/
theorem spansFrom_literal (o : Char) {lit rest : List Char}
    (h : Delimited.Literal (Lexer.closing o) lit rest) (offset opened : Nat) :
    spansFrom (.inside o) offset opened (pieces (.inside o) lit ++ pieces .normal rest) =
      ⟨.ofOpening o, opened, offset + Text.size lit,
        Delimited.isClosed (Lexer.closing o) lit⟩ ::
        spansFrom .normal (offset + Text.size lit) 0 (pieces .normal rest) := by
  induction h generalizing offset with
  | endless =>
      rw [pieces, pieces, List.append_nil, spansFrom, spansFrom, span?_inside]
      simp [ofOpening_ne_lineComment, Delimited.isClosed, State.span?]
  | closing stop =>
      rw [pieces_inside_closing o (by simp), pieces, List.singleton_append, spansFrom_closing,
        spansFrom_opened (before_of_head?_pieces _ _)]
      simp [Delimited.isClosed]
  | escape whole ih =>
      rw [pieces_inside_escape, List.cons_append, spansFrom_still, ih]
      simp [Delimited.isClosed, Nat.add_assoc]
  | char inside whole ih =>
      rw [pieces_inside_char inside, List.cons_append, spansFrom_still, ih,
        Delimited.isClosed_cons inside]
      simp [Nat.add_assoc]

/-! ### Comments -/

/-- Whether the comment has its end, where `depth` openers are not yet closed. -/
def closesBlock (depth : Nat) (body : List Char) : Bool :=
  (lastState (.inBlock depth) (pieces (.inBlock depth) body)).isNormal

theorem closesBlock_opening (depth : Nat) (body : List Char) :
    closesBlock (depth + 1) ('/' :: '*' :: body) = closesBlock (depth + 2) body := by
  simp [closesBlock, pieces_block_opening]

theorem closesBlock_closing (depth : Nat) (body : List Char) :
    closesBlock (depth + 1) ('*' :: '/' :: body) = closesBlock depth body := by
  simp [closesBlock, pieces_block_closing]

theorem closesBlock_char {depth : Nat} {c : Char} {body : List Char}
    (opens : ¬ (c = '/' ∧ body.head? = some '*')) (closes : ¬ (c = '*' ∧ body.head? = some '/')) :
    closesBlock (depth + 1) (c :: body) = closesBlock (depth + 1) body := by
  simp [closesBlock, pieces_block_char opens closes]

/-- A piece that stays in a block comment only moves the offset. -/
theorem spansFrom_inBlock (depth depth' : Nat) (text : List Char) (s : State)
    (offset opened : Nat) (ps : List Piece) :
    spansFrom s offset opened (⟨.inBlock (depth + 1), text, .inBlock (depth' + 1)⟩ :: ps) =
      spansFrom (.inBlock (depth' + 1)) (offset + Text.size text) opened ps := rfl

/-- The span of a block comment, found from behind its opener on. -/
theorem spansFrom_block {depth : Nat} {body rest : List Char} (h : Lexer.Block depth body rest)
    (offset opened : Nat) :
    spansFrom (.inBlock depth) offset opened (pieces (.inBlock depth) body ++ pieces .normal rest) =
      (if depth = 0 then []
        else [⟨.blockComment, opened, offset + Text.size body, closesBlock depth body⟩]) ++
        spansFrom .normal (offset + Text.size body) 0 (pieces .normal rest) := by
  induction h generalizing offset with
  | closed => exact spansFrom_opened (before_of_head?_pieces _ _) _ _
  | endless => rfl
  | @opening depth body rest deeper ih =>
      have hsize : offset + Text.size ('/' :: '*' :: body) =
          offset + Text.size ['/', '*'] + Text.size body := by
        simp [Nat.add_assoc]
      rw [pieces_block_opening, List.cons_append, spansFrom_inBlock, ih, hsize,
        closesBlock_opening]
      rfl
  | @closing depth body rest outer ih =>
      have hsize : offset + Text.size ('*' :: '/' :: body) =
          offset + Text.size ['*', '/'] + Text.size body := by
        simp [Nat.add_assoc]
      rw [pieces_block_closing, List.cons_append, hsize, closesBlock_closing]
      cases depth with
      | succ depth =>
          rw [spansFrom_inBlock, ih]
          rfl
      | zero =>
          -- the outermost comment is closed, and nothing is left of its body
          cases outer
          exact congrArg (_ :: ·) (ih _)
  | @char depth c body rest opens closes inside ih =>
      have hbody := not_pair_of_append opens
      have hbody' := not_pair_of_append closes
      rw [pieces_block_char hbody hbody', List.cons_append, spansFrom_inBlock, ih,
        closesBlock_char hbody hbody', Text.size_cons, Nat.add_assoc]
      rfl

/-- The span of a line comment, found from behind its opener on. The line feed is not in it. -/
theorem spansFrom_line (body : List Char) {rest : List Char} (stop : ∀ d ∈ rest.head?, d = '\n')
    (offset opened : Nat) :
    spansFrom .lineComment offset opened
        (body.map (fun c => ⟨.lineComment, [c], .lineComment⟩) ++ pieces .lineComment rest) =
      ⟨.lineComment, opened, offset + Text.size body, true⟩ ::
        spansFrom .normal (offset + Text.size body) 0 (pieces .normal rest) := by
  induction body generalizing offset with
  | nil =>
      cases rest with
      | nil => rfl
      | cons d rest =>
          obtain rfl : d = '\n' := stop d rfl
          have hhead := before_of_head?_pieces .normal rest
          rw [pieces_lineFeed, spansFrom_code, spansFrom_opened hhead, pieces_lineComment_lineFeed]
          exact congrArg (_ :: ·) (spansFrom_opened hhead _ _)
  | cons c body ih =>
      rw [Text.size_cons, ← Nat.add_assoc]
      exact ih (offset + c.utf8Size)

end Scan

/-! ### Element by element -/

namespace Element

open Delimited Lexer

/-- The literal of an element that begins at byte `offset`. -/
def literalSpan? (offset : Nat) : Element → Option Span
  | lexeme k c tail => (literalPart? k c tail).map fun (o, lit) =>
    ⟨.ofOpening o, offset + Text.size (plainPart k c tail), offset + Text.size (c :: tail),
      isClosed (closing o) lit⟩
  | _ => none

/-- The comment that an element at byte `offset` is. -/
def commentSpan? (offset : Nat) (e : Element) : Option Span :=
  match e with
  | lineComment _ => some ⟨.lineComment, offset, offset + Text.size e.text, true⟩
  | blockComment body => some ⟨.blockComment, offset, offset + Text.size e.text, closesBlock 1 body⟩
  | _ => none

/-- The literal or comment of an element that begins at byte `offset`. -/
def span? (offset : Nat) (e : Element) : Option Span :=
  (e.commentSpan? offset).or (e.literalSpan? offset)

theorem span?_lexeme (offset : Nat) (k : TokenKind) (c : Char) (tail : List Char) :
    (lexeme k c tail).span? offset = (lexeme k c tail).literalSpan? offset := rfl

/-- A comment is a span with all of its characters. -/
theorem exists_commentSpan? {e : Element} (h : e.IsComment) (offset : Nat) :
    ∃ s ∈ e.span? offset,
      s.isComment ∧ s.start = offset ∧ s.stop = offset + Text.size e.text := by
  cases e with
  | blank => exact h.elim
  | lexeme => exact h.elim
  | lineComment => exact ⟨_, rfl, rfl, rfl, rfl⟩
  | blockComment => exact ⟨_, rfl, rfl, rfl, rfl⟩

theorem bounds_of_span? {offset : Nat} {e : Element} {s : Span} (h : s ∈ e.span? offset) :
    offset ≤ s.start ∧ s.stop ≤ offset + Text.size e.text := by
  cases e with
  | blank => contradiction
  | lineComment body =>
      obtain rfl := Option.some.inj h
      exact ⟨Nat.le_refl _, Nat.le_refl _⟩
  | blockComment body =>
      obtain rfl := Option.some.inj h
      exact ⟨Nat.le_refl _, Nat.le_refl _⟩
  | lexeme k c tail =>
      rw [span?_lexeme, literalSpan?, Option.mem_def, Option.map_eq_some_iff] at h
      obtain ⟨l, -, rfl⟩ := h
      exact ⟨Nat.le_add_right _ _, Nat.le_refl _⟩

theorem filter_isLiteral_span? (offset : Nat) (e : Element) :
    (e.span? offset).toList.filter Span.isLiteral = (e.literalSpan? offset).toList := by
  cases e with
  | blank => rfl
  | lineComment => rfl
  | blockComment => rfl
  | lexeme k c tail =>
      rw [span?_lexeme, literalSpan?]
      cases literalPart? k c tail with
      | none => rfl
      | some l => exact List.filter_eq_self.2 (by simp [isLiteral_ofOpening])

theorem spans_literalPieces (cs : List Char) {o : Char} {lit rest : List Char}
    (whole : Literal (closing o) lit rest) (offset : Nat) :
    spansFrom .normal offset 0
        (cs.map .code ++ (literalPieces (o, lit) ++ Scan.pieces .normal rest)) =
      ⟨.ofOpening o, offset + Text.size cs, offset + Text.size (cs ++ o :: lit),
        isClosed (closing o) lit⟩ ::
        spansFrom .normal (offset + Text.size (cs ++ o :: lit)) 0 (Scan.pieces .normal rest) := by
  have hsize : offset + Text.size (cs ++ o :: lit) =
      offset + Text.size cs + Text.size [o] + Text.size lit := by
    simp [Nat.add_assoc]
  rw [spansFrom_map_code cs offset (by simp [literalPieces]), hsize]
  exact spansFrom_literal o whole _ _

theorem spans_of_fits {e : Element} {rest : List Char} (h : e.Fits rest) (offset : Nat) :
    spansFrom .normal offset 0 (Scan.pieces .normal (e.text ++ rest)) =
      (e.span? offset).toList ++
        spansFrom .normal (offset + Text.size e.text) 0 (Scan.pieces .normal rest) := by
  have hpieces := pieces_of_fits h
  have hhead := before_of_head?_pieces .normal rest
  cases h with
  | @blank c =>
      rw [hpieces]
      exact spansFrom_map_code [c] offset hhead
  | @lineComment body _ inside stop =>
      have hsize : offset + Text.size (lineComment body).text =
          offset + Text.size ['-', '-'] + Text.size body := by
        simp [text, head, tail, Nat.add_assoc]
      rw [hpieces, span?, commentSpan?, hsize]
      exact spansFrom_line body stop _ _
  | @blockComment body _ whole =>
      have hsize : offset + Text.size (blockComment body).text =
          offset + Text.size ['/', '*'] + Text.size body := by
        simp [text, head, tail, Nat.add_assoc]
      rw [hpieces, span?, commentSpan?, hsize]
      exact spansFrom_block whole _ _
  | @lexeme k c tail _ solid code lexes =>
      cases hl : literalPart? k c tail with
      | none =>
          -- without a literal the pass stays in code
          have hplain : (lexeme k c tail).pieces = (plainPart k c tail).map .code := by
            rw [pieces, hl, Option.elim_none, List.append_nil]
          rw [hpieces, hplain, plainPart_of_none hl, span?_lexeme, literalSpan?, hl]
          exact spansFrom_map_code (c :: tail) offset hhead
      | some l =>
          obtain ⟨o, lit⟩ := l
          obtain ⟨-, whole, htext⟩ := literalPart?_of_lexes lexes hl
          rw [hpieces, pieces, hl, Option.elim_some, List.append_assoc]
          refine (spans_literalPieces (plainPart k c tail) whole offset).trans ?_
          rw [span?_lexeme, literalSpan?, hl, ← htext]
          rfl

end Element

namespace Elements

/-- The literals and comments of the elements, where the first one begins at byte `offset`. -/
def spans (offset : Nat) : List Element → List Span
  | [] => []
  | e :: es => (e.span? offset).toList ++ spans (offset + Text.size e.text) es

theorem spans_text {es : List Element} (h : Placed es) (offset : Nat) :
    spansFrom .normal offset 0 (pieces .normal (text es)) = spans offset es := by
  induction es generalizing offset with
  | nil => rfl
  | cons e es ih => rw [text_cons, Element.spans_of_fits h.1, ih h.2, spans]

theorem spans_append (offset : Nat) (as bs : List Element) :
    spans offset (as ++ bs) = spans offset as ++ spans (offset + Text.size (text as)) bs := by
  induction as generalizing offset with
  | nil => rfl
  | cons a as ih => simp [spans, ih, Nat.add_assoc]

theorem bounds_of_mem_spans {offset : Nat} {es : List Element} {s : Span}
    (h : s ∈ spans offset es) : offset ≤ s.start ∧ s.stop ≤ offset + Text.size (text es) := by
  induction es generalizing offset with
  | nil => contradiction
  | cons e es ih =>
      rw [text_cons, Text.size_append]
      rcases List.mem_append.1 h with h | h
      · have hbounds := Element.bounds_of_span? (Option.mem_toList.1 h)
        omega
      · have hbounds := ih h
        omega

/-- The literals of the elements, where the first one begins at byte `offset`. -/
def literalSpans (offset : Nat) : List Element → List Span
  | [] => []
  | e :: es => (e.literalSpan? offset).toList ++ literalSpans (offset + Text.size e.text) es

theorem literals_text {es : List Element} (h : Placed es) (offset : Nat) :
    (spansFrom .normal offset 0 (pieces .normal (text es))).filter Span.isLiteral =
      literalSpans offset es := by
  rw [spans_text h]
  induction es generalizing offset with
  | nil => rfl
  | cons e es ih =>
      rw [spans, List.filter_append, Element.filter_isLiteral_span?, ih h.2, literalSpans]

end Elements

end Tsql
