import Tsql.Proofs.Cursor.Offset
import Tsql.Proofs.Elements.Comments
import Tsql.Proofs.Elements.Spans

/-!
The pass over the characters of a text and the lexer agree on its comments and literals.

Both are computed element by element, the one by `mask_text`, `clean_text` and `literals_text`, the
other by `tokens_text`.
-/

namespace Tsql

open Scan

namespace Token

/-- Whether the token is a quoted text or a name between delimiters. -/
def isLiteral (t : Token) : Bool :=
  t.kind = .quoted || t.kind = .bracketed

/-- The place of the opening delimiter. An `N` in front of a quoted text is no part of the
literal. -/
def literalStart (t : Token) : Position :=
  if t.kind = .quoted ∧ t.text.toList.head? ≠ some '\'' then ⟨t.start.line, t.start.col + 1⟩
  else t.start

/-- The kind of the literal that the token is in the text `cs`, and its first byte and the one
behind its last. -/
def literalRange (cs : List Char) (t : Token) : SpanKind × Nat × Nat :=
  (if Cursor.charAt? cs t.start = some '[' then .bracket else .quoted,
    Cursor.offsetAt cs t.literalStart, Cursor.offsetAt cs t.stop)

end Token

namespace Scan

def Span.range (s : Span) : SpanKind × Nat × Nat :=
  (s.kind, s.start, s.stop)

end Scan

namespace Element

open Lexer

theorem filter_isLiteral_tokensAt (k : TokenKind) (c : Char) (tail : List Char) (p : Position) :
    ((lexeme k c tail).tokensAt p).filter Token.isLiteral =
      if (literalPart? k c tail).isSome then (lexeme k c tail).tokensAt p else [] := by
  cases k <;> rfl

/-- The literal of a token begins behind the plain part of its lexeme. -/
theorem literalStart_of_lexes {k : TokenKind} {c o : Char} {tail lit rest : List Char}
    (h : Lexes k c tail rest) (hl : literalPart? k c tail = some (o, lit)) (p q : Position) :
    Token.literalStart ⟨k, String.ofList (tokenText k c tail), p, q⟩ =
      p.advance (plainPart k c tail) := by
  cases h with
  | word => simp [(wordKind_plain c tail).2] at hl
  | national start whole =>
      have hc : c ≠ '\'' ∧ c ≠ '\n' := by rcases start with rfl | rfl <;> decide
      simp [Token.literalStart, plainPart, tokenText, Position.next, hc]
  | quoted whole => simp [Token.literalStart, plainPart, tokenText]
  | bracketed start whole => simp [Token.literalStart, plainPart]
  | symbol => simp [(symbolKind_plain c []).2] at hl
  | pair => simp [literalPart?] at hl

theorem ofOpening_of_lexes {k : TokenKind} {c o : Char} {tail lit rest : List Char}
    (h : Lexes k c tail rest) (hl : literalPart? k c tail = some (o, lit)) :
    SpanKind.ofOpening o = if c = '[' then .bracket else .quoted := by
  cases h with
  | word => simp [(wordKind_plain c tail).2] at hl
  | national start whole =>
      simp only [literalPart?, Option.some.injEq, Prod.mk.injEq] at hl
      obtain ⟨rfl, -⟩ := hl
      rcases start with rfl | rfl <;> rfl
  | quoted whole =>
      simp only [literalPart?, Option.some.injEq, Prod.mk.injEq] at hl
      obtain ⟨rfl, -⟩ := hl
      rfl
  | bracketed start whole =>
      simp only [literalPart?, Option.some.injEq, Prod.mk.injEq] at hl
      rw [hl.1, SpanKind.ofOpening]
  | symbol => simp [(symbolKind_plain c []).2] at hl
  | pair => simp [literalPart?] at hl

/-- An element is one literal token and one span, in the same place, or neither. -/
theorem literalRange_tokensAt {e : Element} {rest : List Char} (h : e.Fits rest)
    (before : List Char) :
    ((e.tokensAt (Position.origin.advance before)).filter Token.isLiteral).map
        (Token.literalRange (before ++ (e.text ++ rest))) =
      (e.literalSpan? (Text.size before)).toList.map Span.range := by
  cases h with
  | blank => rfl
  | lineComment => rfl
  | blockComment => rfl
  | @lexeme k c tail _ solid code lexes =>
      rw [filter_isLiteral_tokensAt]
      cases hl : literalPart? k c tail with
      | none => simp [literalSpan?, hl]
      | some l =>
          obtain ⟨o, lit⟩ := l
          obtain ⟨-, -, htext⟩ := literalPart?_of_lexes lexes hl
          -- the opening delimiter and the places of both ends, read off the whole text
          have hchar : Cursor.charAt? (before ++ ((lexeme k c tail).text ++ rest))
              (Position.origin.advance before) = some c := by
            rw [Cursor.charAt?_advance]
            rfl
          have hstart : Cursor.offsetAt (before ++ ((lexeme k c tail).text ++ rest))
              ((Position.origin.advance before).advance (plainPart k c tail)) =
                Text.size before + Text.size (plainPart k c tail) := by
            have hsplit : before ++ ((lexeme k c tail).text ++ rest) =
                (before ++ plainPart k c tail) ++ (o :: lit ++ rest) := by
              simp only [text, head, Element.tail, htext, List.append_assoc]
            rw [hsplit, ← Position.advance_append, Cursor.offsetAt_advance, Text.size_append]
          have hstop : Cursor.offsetAt (before ++ ((lexeme k c tail).text ++ rest))
              ((Position.origin.advance before).advance (c :: tail)) =
                Text.size before + Text.size (c :: tail) := by
            have hsplit : before ++ ((lexeme k c tail).text ++ rest) =
                (before ++ c :: tail) ++ rest := (List.append_assoc _ _ _).symm
            rw [hsplit, ← Position.advance_append, Cursor.offsetAt_advance, Text.size_append]
          simp only [Option.isSome_some, if_true, tokensAt, literalSpan?, hl, Option.map_some,
            Option.toList_some, List.map_cons, List.map_nil, Token.literalRange, Span.range,
            literalStart_of_lexes lexes hl, hchar, hstart, hstop, ofOpening_of_lexes lexes hl,
            Option.some.injEq]

end Element

namespace Elements

theorem map_literalRange_tokensFrom {es : List Element} (h : Placed es) (before : List Char) :
    ((tokensFrom (Position.origin.advance before) es).filter Token.isLiteral).map
        (Token.literalRange (before ++ text es)) =
      (literalSpans (Text.size before) es).map Span.range := by
  induction es generalizing before with
  | nil => rfl
  | cons e es ih =>
      have hrest := ih h.2 (before ++ e.text)
      rw [List.append_assoc, Text.size_append, Position.advance_append] at hrest
      rw [tokensFrom, List.filter_append, List.map_append, text_cons,
        Element.literalRange_tokensAt h.1, hrest, literalSpans, List.map_append]

end Elements

/-- Masking comments leaves every token in its place, removing them leaves every token on its line,
and the spans of quoted texts and bracketed names are the literals of the tokens, in order. -/
theorem tokenize_agrees_with_scan (source : String) :
    tokenize (maskComments source) = tokenize source ∧
      (tokenize (removeComments source)).map Token.onLine =
        (tokenize source).map Token.onLine ∧
      ((spans source.toList).filter Span.isLiteral).map Span.range =
        ((tokenize source).filter Token.isLiteral).map (Token.literalRange source.toList) := by
  obtain ⟨es, htext, hplaced⟩ := Elements.exists_placed source.toList
  have htokens : tokenize source = Elements.tokensFrom .origin es := by
    rw [tokenize, tokenizeFrom, ← htext, Elements.tokens_text hplaced]
  refine ⟨?_, ?_, ?_⟩
  · have hmask := hplaced.flatMap Element.blanks_masked
    rw [htokens, tokenize, tokenizeFrom, maskComments, String.toList_ofList, ← htext,
      Elements.mask_text hplaced, Elements.tokens_text hmask, Elements.tokensFrom_masked]
  · have hclean := hplaced.flatMap Element.blanks_cleaned
    rw [htokens, tokenize, tokenizeFrom, removeComments, String.toList_ofList, ← htext,
      Elements.clean_text hplaced, Elements.tokens_text hclean,
      Elements.map_onLine_tokensFrom_cleaned]
  · have hspans := Elements.literals_text hplaced 0
    have hranges := Elements.map_literalRange_tokensFrom hplaced []
    rw [htokens, ← htext]
    exact (congrArg (List.map Span.range) hspans).trans hranges.symm

end Tsql
