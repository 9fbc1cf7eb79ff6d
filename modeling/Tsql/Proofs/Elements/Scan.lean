import Tsql.Proofs.Elements.Basic
import Tsql.Scan.Spans

/-!
The pieces that the pass over a text cuts it into, element by element.

`pieces_of_fits` is the step: the pieces of a text are those of its first element and those of the
rest. The pass is back in code behind each element, save for a line comment, whose line feed it
still counts to the comment; no question about the text tells the two readings of that line feed
apart (`flatMap_pieces`).
-/

namespace Tsql.Scan

open Element (OpensComment)

/-! ### Code -/

/-- A character outside all literals and comments. -/
def Piece.code (c : Char) : Piece :=
  ⟨.normal, [c], .normal⟩

def opensLiteral (c : Char) : Bool :=
  c = '\'' || c = '"' || c = '['

theorem step_normal {c : Char} {rest : List Char} (hc : ¬ OpensComment c rest)
    (hl : opensLiteral c = false) : State.normal.step c rest.head? = ⟨false, .normal⟩ := by
  simp only [OpensComment, not_or] at hc
  simp only [opensLiteral, Bool.or_eq_false_iff, decide_eq_false_iff_not] at hl
  simp only [State.step, hc, hl]
  rfl

theorem pieces_cons (s : State) (c : Char) (rest : List Char) :
    pieces s (c :: rest) =
      if (s.step c rest.head?).pair then
        ⟨s, c :: rest.take 1, (s.step c rest.head?).after⟩ ::
          pieces (s.step c rest.head?).after (rest.drop 1)
      else ⟨s, [c], (s.step c rest.head?).after⟩ :: pieces (s.step c rest.head?).after rest := by
  cases rest with
  | nil => simp [pieces]
  | cons d rest => simp [pieces]

theorem pieces_code {c : Char} {rest : List Char} (hc : ¬ OpensComment c rest)
    (hl : opensLiteral c = false) :
    pieces .normal (c :: rest) = .code c :: pieces .normal rest := by
  rw [pieces_cons, step_normal hc hl]
  rfl

/-! ### Literals -/

/-- The state inside the literal that `o` opens. -/
def State.inside (o : Char) : State :=
  if o = '[' then .bracket else .quoted o

theorem isNormal_inside (o : Char) : (State.inside o).isNormal = false := by
  unfold State.inside
  split <;> rfl

theorem step_opening {o : Char} (h : opensLiteral o) (following : Option Char) :
    State.normal.step o following = ⟨false, .inside o⟩ := by
  simp only [opensLiteral, Bool.or_eq_true, decide_eq_true_eq] at h
  rcases h with (rfl | rfl) | rfl <;> rfl

theorem step_inside (o c : Char) (following : Option Char) :
    (State.inside o).step c following =
      if c = Lexer.closing o then
        if following = some (Lexer.closing o) then ⟨true, .inside o⟩ else ⟨false, .normal⟩
      else ⟨false, .inside o⟩ := by
  by_cases h : o = '['
  · simp only [State.inside, h, if_true, Lexer.closing, State.step]
  · simp only [State.inside, h, if_false, Lexer.closing, State.step]

/-- A piece of a literal behind its opening delimiter. Only the closing delimiter leads back to
code. -/
structure InLiteral (o : Char) (p : Piece) : Prop where
  before : p.before = .inside o
  after : p.after = .inside o ∨ p.after = .normal ∧ p.text = [Lexer.closing o]

theorem pieces_inside_char {o c : Char} (hc : c ≠ Lexer.closing o) (rest : List Char) :
    pieces (.inside o) (c :: rest) = ⟨.inside o, [c], .inside o⟩ :: pieces (.inside o) rest := by
  rw [pieces_cons, step_inside, if_neg hc]
  rfl

theorem pieces_inside_escape (o : Char) (rest : List Char) :
    pieces (.inside o) (Lexer.closing o :: Lexer.closing o :: rest) =
      ⟨.inside o, [Lexer.closing o, Lexer.closing o], .inside o⟩ :: pieces (.inside o) rest := by
  rw [pieces_cons, step_inside]
  simp

theorem pieces_inside_closing (o : Char) {rest : List Char}
    (stop : rest.head? ≠ some (Lexer.closing o)) :
    pieces (.inside o) (Lexer.closing o :: rest) =
      ⟨.inside o, [Lexer.closing o], .normal⟩ :: pieces .normal rest := by
  rw [pieces_cons, step_inside, if_pos rfl, if_neg stop]
  rfl

theorem pieces_literal (o : Char) {lit rest : List Char}
    (h : Delimited.Literal (Lexer.closing o) lit rest) :
    pieces (.inside o) (lit ++ rest) = pieces (.inside o) lit ++ pieces .normal rest := by
  induction h with
  | endless => rfl
  | closing stop =>
      rw [List.singleton_append, pieces_inside_closing o stop, pieces_inside_closing o (by simp)]
      rfl
  | escape whole ih =>
      rw [List.cons_append, List.cons_append, pieces_inside_escape, pieces_inside_escape, ih]
      rfl
  | char inside whole ih =>
      rw [List.cons_append, pieces_inside_char inside, pieces_inside_char inside, ih]
      rfl

theorem inLiteral_of_mem (o : Char) {lit rest : List Char}
    (h : Delimited.Literal (Lexer.closing o) lit rest) :
    ∀ p ∈ pieces (.inside o) lit, InLiteral o p := by
  induction h with
  | endless => simp [pieces]
  | closing stop =>
      rw [pieces_inside_closing o (by simp)]
      simp only [pieces, List.mem_singleton, forall_eq]
      exact ⟨rfl, .inr ⟨rfl, rfl⟩⟩
  | escape whole ih =>
      rw [pieces_inside_escape]
      rintro p (_ | ⟨_, hp⟩)
      · exact ⟨rfl, .inl rfl⟩
      · exact ih p hp
  | char inside whole ih =>
      rw [pieces_inside_char inside]
      rintro p (_ | ⟨_, hp⟩)
      · exact ⟨rfl, .inl rfl⟩
      · exact ih p hp

theorem pieces_opening {o : Char} (h : opensLiteral o) (rest : List Char) :
    pieces .normal (o :: rest) = ⟨.normal, [o], .inside o⟩ :: pieces (.inside o) rest := by
  rw [pieces_cons, step_opening h]
  rfl

/-! ### Comments -/

def State.isLiteral : State → Bool
  | quoted _ => true
  | bracket => true
  | _ => false

/-- A piece of a comment behind its opener. -/
structure InComment (p : Piece) : Prop where
  before : p.before.isComment
  after : p.after.isLiteral = false

def State.inBlock (depth : Nat) : State :=
  if depth = 0 then .normal else .blockComment depth

theorem step_inBlock (depth : Nat) (c : Char) (following : Option Char) :
    (State.inBlock (depth + 1)).step c following =
      if c = '/' ∧ following = some '*' then ⟨true, .inBlock (depth + 2)⟩
      else if c = '*' ∧ following = some '/' then ⟨true, .inBlock depth⟩
      else ⟨false, .inBlock (depth + 1)⟩ := by
  cases depth with
  | zero => rfl
  | succ depth => simp [State.inBlock, State.step]

theorem pieces_block_opening (depth : Nat) (rest : List Char) :
    pieces (.inBlock (depth + 1)) ('/' :: '*' :: rest) =
      ⟨.inBlock (depth + 1), ['/', '*'], .inBlock (depth + 2)⟩ ::
        pieces (.inBlock (depth + 2)) rest := by
  rw [pieces_cons, step_inBlock]
  simp

theorem pieces_block_closing (depth : Nat) (rest : List Char) :
    pieces (.inBlock (depth + 1)) ('*' :: '/' :: rest) =
      ⟨.inBlock (depth + 1), ['*', '/'], .inBlock depth⟩ :: pieces (.inBlock depth) rest := by
  rw [pieces_cons, step_inBlock]
  simp

theorem pieces_block_char {depth : Nat} {c : Char} {rest : List Char}
    (opens : ¬ (c = '/' ∧ rest.head? = some '*')) (closes : ¬ (c = '*' ∧ rest.head? = some '/')) :
    pieces (.inBlock (depth + 1)) (c :: rest) =
      ⟨.inBlock (depth + 1), [c], .inBlock (depth + 1)⟩ :: pieces (.inBlock (depth + 1)) rest := by
  rw [pieces_cons, step_inBlock, if_neg opens, if_neg closes]
  rfl

/-- What does not start a pair in front of a longer text does not start one in front of a part of
it. -/
theorem not_pair_of_append {c a b : Char} {body rest : List Char}
    (h : ¬ (c = a ∧ (body ++ rest).head? = some b)) : ¬ (c = a ∧ body.head? = some b) := by
  rintro ⟨hc, hb⟩
  exact h ⟨hc, by rw [List.head?_append, hb, Option.some_or]⟩

theorem pieces_block {depth : Nat} {body rest : List Char} (h : Lexer.Block depth body rest) :
    pieces (.inBlock depth) (body ++ rest) =
      pieces (.inBlock depth) body ++ pieces .normal rest := by
  induction h with
  | closed => rfl
  | endless => rfl
  | opening deeper ih =>
      rw [List.cons_append, List.cons_append, pieces_block_opening, pieces_block_opening, ih]
      rfl
  | closing outer ih =>
      rw [List.cons_append, List.cons_append, pieces_block_closing, pieces_block_closing, ih]
      rfl
  | char opens closes inside ih =>
      rw [List.cons_append, pieces_block_char opens closes,
        pieces_block_char (not_pair_of_append opens) (not_pair_of_append closes), ih]
      rfl

theorem isLiteral_inBlock (depth : Nat) : (State.inBlock depth).isLiteral = false := by
  unfold State.inBlock
  split <;> rfl

theorem inComment_of_mem_block {depth : Nat} {body rest : List Char}
    (h : Lexer.Block depth body rest) : ∀ p ∈ pieces (.inBlock depth) body, InComment p := by
  induction h with
  | closed => simp [pieces]
  | endless => simp [pieces]
  | @opening depth _ _ deeper ih =>
      rw [pieces_block_opening]
      exact List.forall_mem_cons.2 ⟨⟨rfl, isLiteral_inBlock (depth + 2)⟩, ih⟩
  | @closing depth _ _ outer ih =>
      rw [pieces_block_closing]
      exact List.forall_mem_cons.2 ⟨⟨rfl, isLiteral_inBlock depth⟩, ih⟩
  | @char depth _ _ _ opens closes inside ih =>
      rw [pieces_block_char (not_pair_of_append opens) (not_pair_of_append closes)]
      exact List.forall_mem_cons.2 ⟨⟨rfl, isLiteral_inBlock (depth + 1)⟩, ih⟩

/-- The line feed behind a line comment is read in the state of the comment. -/
theorem pieces_line {body rest : List Char} (inside : ∀ d ∈ body, d ≠ '\n') :
    pieces .lineComment (body ++ rest) =
      body.map (fun c => ⟨.lineComment, [c], .lineComment⟩) ++ pieces .lineComment rest := by
  induction body with
  | nil => rfl
  | cons c body ih =>
      obtain ⟨hc, hbody⟩ := List.forall_mem_cons.1 inside
      rw [List.cons_append, pieces_cons]
      simpa [State.step, hc] using ih hbody

theorem pieces_lineFeed (rest : List Char) :
    pieces .normal ('\n' :: rest) = .code '\n' :: pieces .normal rest :=
  pieces_code (by simp [OpensComment]) (by decide)

theorem pieces_lineComment_lineFeed (rest : List Char) :
    pieces .lineComment ('\n' :: rest) =
      ⟨.lineComment, ['\n'], .normal⟩ :: pieces .normal rest := by
  rw [pieces_cons]
  rfl

/-- The state of the line comment matters only to the line feed that ends it. -/
theorem flatMap_pieces_lineComment {α : Type} (f : Piece → List α)
    (hf : f ⟨.lineComment, ['\n'], .normal⟩ = f (.code '\n')) {rest : List Char}
    (stop : ∀ d ∈ rest.head?, d = '\n') :
    (pieces .lineComment rest).flatMap f = (pieces .normal rest).flatMap f := by
  cases rest with
  | nil => rfl
  | cons d rest =>
      obtain rfl : d = '\n' := stop d rfl
      rw [pieces_lineFeed, pieces_lineComment_lineFeed, List.flatMap_cons, List.flatMap_cons, hf]

end Tsql.Scan

/-! ### Elements -/

namespace Tsql

open Scan Element

namespace Lexer

/-- The characters of a lexeme in front of its literal; all of them where it has none. -/
def plainPart (k : TokenKind) (c : Char) (tail : List Char) : List Char :=
  match k with
  | .quoted => if c = '\'' then [] else [c]
  | .bracketed => []
  | _ => c :: tail

/-- The literal in a lexeme: its opening delimiter and the characters behind that one. -/
def literalPart? (k : TokenKind) (c : Char) (tail : List Char) : Option (Char × List Char) :=
  match k with
  | .quoted => some ('\'', if c = '\'' then tail else tail.tail)
  | .bracketed => some (c, tail)
  | _ => none

theorem plainPart_of_none {k : TokenKind} {c : Char} {tail : List Char}
    (h : literalPart? k c tail = none) : plainPart k c tail = c :: tail := by
  cases k <;> first | rfl | simp [literalPart?] at h

def literalPieces (l : Char × List Char) : List Piece :=
  ⟨.normal, [l.1], .inside l.1⟩ :: pieces (.inside l.1) l.2

end Lexer

/-- The pieces of an element that stands in code. -/
def Element.pieces : Element → List Piece
  | blank c => [.code c]
  | lineComment body =>
    ⟨.normal, ['-', '-'], .lineComment⟩ :: body.map fun c => ⟨.lineComment, [c], .lineComment⟩
  | blockComment body =>
    ⟨.normal, ['/', '*'], .blockComment 1⟩ :: Scan.pieces (.blockComment 1) body
  | lexeme k c tail =>
    (Lexer.plainPart k c tail).map .code ++
      (Lexer.literalPart? k c tail).elim [] Lexer.literalPieces

/-- The state behind an element. -/
def Element.after : Element → State
  | lineComment _ => .lineComment
  | _ => .normal

namespace Lexer

theorem wordKind_plain (c : Char) (tail : List Char) :
    plainPart (wordKind c tail) c tail = c :: tail ∧
      literalPart? (wordKind c tail) c tail = none := by
  unfold wordKind
  split
  · split <;> exact ⟨rfl, rfl⟩
  · cases Keyword.ofWord? (c :: tail) <;> exact ⟨rfl, rfl⟩

theorem symbolKind_plain (c : Char) (tail : List Char) :
    plainPart (symbolKind c) c tail = c :: tail ∧
      literalPart? (symbolKind c) c tail = none := by
  unfold symbolKind
  repeat' split
  all_goals exact ⟨rfl, rfl⟩

theorem not_opensComment {c : Char} (h : c ≠ '-' ∧ c ≠ '/') (rest : List Char) :
    ¬ OpensComment c rest := by
  rintro (⟨hc, -⟩ | ⟨hc, -⟩)
  · exact h.1 hc
  · exact h.2 hc

theorem pieces_word {run : List Char} (h : ∀ d ∈ run, Text.isWordChar d) (rest : List Char) :
    Scan.pieces .normal (run ++ rest) = run.map .code ++ Scan.pieces .normal rest := by
  induction run with
  | nil => rfl
  | cons c run ih =>
      obtain ⟨hc, hrun⟩ := List.forall_mem_cons.1 h
      have hne : ∀ d, Text.isWordChar d = false → c ≠ d := fun d hd => ne_of_isWordChar hc hd
      have hcode := not_opensComment ⟨hne '-' (by decide), hne '/' (by decide)⟩ (run ++ rest)
      have hlit : opensLiteral c = false := by
        simp [opensLiteral, hne '\'' (by decide), hne '"' (by decide), hne '[' (by decide)]
      rw [List.cons_append, pieces_code hcode hlit, ih hrun]
      rfl

theorem pieces_literalPieces {o : Char} {lit rest : List Char} (ho : opensLiteral o)
    (h : Delimited.Literal (closing o) lit rest) :
    Scan.pieces .normal (o :: lit ++ rest) =
      literalPieces (o, lit) ++ Scan.pieces .normal rest := by
  rw [List.cons_append, pieces_opening ho, pieces_literal o h]
  rfl

theorem pieces_of_lexes {k : TokenKind} {c : Char} {tail rest : List Char}
    (h : Lexes k c tail rest) (code : ¬ OpensComment c (tail ++ rest)) :
    Scan.pieces .normal (c :: tail ++ rest) =
      (Element.lexeme k c tail).pieces ++ Scan.pieces .normal rest := by
  cases h with
  | word start word stop plain =>
      have hword : ∀ d ∈ c :: tail, Text.isWordChar d :=
        List.forall_mem_cons.2 ⟨isWordChar_of_start start, word⟩
      simp only [Element.pieces, wordKind_plain, Option.elim_none, List.append_nil]
      exact pieces_word hword rest
  | @national _ lit _ start whole =>
      have hne : c ≠ '\'' := by rcases start with rfl | rfl <;> decide
      have hword : ∀ d ∈ [c], Text.isWordChar d := by
        rcases start with rfl | rfl <;> simp <;> decide
      have hc := pieces_word hword ('\'' :: lit ++ rest)
      rw [pieces_literalPieces (o := '\'') rfl whole] at hc
      simp only [Element.pieces, plainPart, literalPart?, if_neg hne]
      exact hc
  | quoted whole => exact pieces_literalPieces (o := '\'') rfl whole
  | bracketed start whole =>
      have ho : opensLiteral c := by rcases start with rfl | rfl <;> decide
      exact pieces_literalPieces ho whole
  | symbol start single =>
      have hlit : opensLiteral c = false := by simp_all [isSymbol, opensLiteral]
      simp only [Element.pieces, symbolKind_plain, Option.elim_none, List.append_nil]
      exact pieces_code code hlit
  | @pair _ d _ pair =>
      -- neither character of the pair opens a literal, nor the second one a comment
      obtain ⟨hsymbol, -, -, hd⟩ := operatorPairs_spec pair
      simp only [List.mem_cons, List.not_mem_nil, or_false, not_or] at hd
      have hlit : opensLiteral c = false := by simp_all [isSymbol, opensLiteral]
      have hlit' : opensLiteral d = false := by simp [opensLiteral, hd]
      have hcode' := not_opensComment ⟨hd.1, hd.2.1⟩ rest
      rw [List.cons_append, pieces_code code hlit, List.cons_append, List.nil_append,
        pieces_code hcode' hlit']
      rfl

theorem literalPart?_of_lexes {k : TokenKind} {c o : Char} {tail lit rest : List Char}
    (h : Lexes k c tail rest) (hl : literalPart? k c tail = some (o, lit)) :
    opensLiteral o ∧ Delimited.Literal (closing o) lit rest ∧
      c :: tail = plainPart k c tail ++ o :: lit := by
  cases h with
  | word => simp [(wordKind_plain c tail).2] at hl
  | national start whole =>
      have hne : c ≠ '\'' := by rcases start with rfl | rfl <;> decide
      simp only [literalPart?, if_neg hne, Option.some.injEq, Prod.mk.injEq] at hl
      obtain ⟨rfl, rfl⟩ := hl
      exact ⟨rfl, whole, by simp [plainPart, hne]⟩
  | quoted whole =>
      simp only [literalPart?, if_true, Option.some.injEq, Prod.mk.injEq] at hl
      obtain ⟨rfl, rfl⟩ := hl
      exact ⟨rfl, whole, rfl⟩
  | bracketed start whole =>
      simp only [literalPart?, Option.some.injEq, Prod.mk.injEq] at hl
      obtain ⟨rfl, rfl⟩ := hl
      refine ⟨?_, whole, rfl⟩
      rcases start with rfl | rfl <;> rfl
  | symbol => simp [(symbolKind_plain c []).2] at hl
  | pair => simp [literalPart?] at hl

end Lexer

namespace Element

theorem pieces_of_fits {e : Element} {rest : List Char} (h : e.Fits rest) :
    Scan.pieces .normal (e.text ++ rest) = e.pieces ++ Scan.pieces e.after rest := by
  cases h with
  | @blank c _ solid =>
      have hne : ∀ d, Text.isBlank d = false → c ≠ d := by
        rintro d hd rfl
        rw [solid] at hd
        contradiction
      have hcode := Lexer.not_opensComment ⟨hne '-' (by decide), hne '/' (by decide)⟩ rest
      have hlit : opensLiteral c = false := by
        simp [opensLiteral, hne '\'' (by decide), hne '"' (by decide), hne '[' (by decide)]
      exact pieces_code hcode hlit
  | @lineComment body _ inside stop =>
      have hopen : Scan.pieces .normal ((lineComment body).text ++ rest) =
          ⟨.normal, ['-', '-'], .lineComment⟩ :: Scan.pieces .lineComment (body ++ rest) := rfl
      rw [hopen, pieces_line inside]
      rfl
  | @blockComment body _ whole =>
      have hopen : Scan.pieces .normal ((blockComment body).text ++ rest) =
          ⟨.normal, ['/', '*'], .blockComment 1⟩ :: Scan.pieces (.inBlock 1) (body ++ rest) := rfl
      rw [hopen, pieces_block whole]
      rfl
  | lexeme solid code lexes => exact Lexer.pieces_of_lexes lexes code

theorem flatMap_text_pieces {e : Element} {rest : List Char} (h : e.Fits rest) :
    e.pieces.flatMap Piece.text = e.text := by
  have hpieces := congrArg (fun ps => (ps.map Piece.text).flatten) (pieces_of_fits h)
  simp only [flatten_pieces, List.map_append, List.flatten_append] at hpieces
  rw [List.flatMap_def]
  exact (List.append_cancel_right hpieces).symm

/-- The pieces of a comment behind its opener start inside it. -/
theorem inComment_of_mem_tail {e : Element} {rest : List Char} (h : e.Fits rest)
    (hc : e.IsComment) : ∀ p ∈ e.pieces.tail, InComment p := by
  cases h with
  | blank => exact hc.elim
  | lexeme => exact hc.elim
  | lineComment =>
      intro p hp
      obtain ⟨c, -, rfl⟩ := List.mem_map.1 hp
      exact ⟨rfl, rfl⟩
  | blockComment whole => exact inComment_of_mem_block whole

theorem isComment_inside (o : Char) : (State.inside o).isComment = false := by
  unfold State.inside
  split <;> rfl

theorem isComment_of_mem_pieces {e : Element} {rest : List Char} (h : e.Fits rest)
    (hc : ¬ e.IsComment) : ∀ p ∈ e.pieces, p.isComment = false := by
  cases h.plain hc with
  | blank => simp [pieces, Piece.isComment, Piece.code, State.isComment]
  | @lexeme k c tail _ solid code lexes =>
      intro p hp
      rcases List.mem_append.1 hp with hp | hp
      · obtain ⟨d, -, rfl⟩ := List.mem_map.1 hp
        rfl
      · cases hl : Lexer.literalPart? k c tail with
        | none => simp [hl] at hp
        | some l =>
            obtain ⟨o, lit⟩ := l
            obtain ⟨-, hlit, -⟩ := Lexer.literalPart?_of_lexes lexes hl
            rw [hl] at hp
            rcases List.mem_cons.1 hp with rfl | hp
            · rw [Piece.isComment, isComment_inside]
              rfl
            · obtain ⟨hbefore, hafter⟩ := inLiteral_of_mem o hlit p hp
              rw [Piece.isComment, hbefore, isComment_inside, Bool.false_or]
              rcases hafter with hafter | ⟨hafter, -⟩
              · rw [hafter, isComment_inside]
              · rw [hafter]
                rfl

end Element

namespace Elements

/-- A question about the pieces of a text is a question about its elements, unless it tells the line
feed behind a line comment from any other. -/
theorem flatMap_pieces {α : Type} (f : Piece → List α)
    (hf : f ⟨.lineComment, ['\n'], .normal⟩ = f (.code '\n')) {es : List Element}
    (h : Placed es) :
    (pieces .normal (text es)).flatMap f = es.flatMap fun e => e.pieces.flatMap f := by
  induction es with
  | nil => rfl
  | cons e es ih =>
      -- behind a line comment the pass is still in the comment, behind all others in code
      have hrest : (pieces e.after (text es)).flatMap f =
          (pieces .normal (text es)).flatMap f := by
        cases h.1 with
        | lineComment inside stop => exact flatMap_pieces_lineComment f hf stop
        | blank => rfl
        | blockComment => rfl
        | lexeme => rfl
      rw [text_cons, Element.pieces_of_fits h.1, List.flatMap_append, hrest, ih h.2,
        List.flatMap_cons]

end Elements

end Tsql
