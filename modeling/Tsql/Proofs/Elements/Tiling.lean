import Mathlib.Data.List.Chain
import Tsql.Proofs.Cursor.Offset
import Tsql.Proofs.Elements.Spans
import Tsql.Proofs.Elements.States
import Tsql.Proofs.Token.Order

/-!
The tokens and the comments of a text leave no character out but blanks.

The range of a token holds the characters that it is read from (`exists_reads`), and every other
character is blank or in a comment (`covered`). Where one token follows the other without a blank or
a comment, a word is not cut in two (`isChain_tokensFrom`).
-/

namespace Tsql

open Text Scan

/-! ### What a token is read from -/

namespace Delimited

/-- A literal is its content with each delimiter doubled, and its closing delimiter; only at the end
of the text the closing delimiter may be missing. -/
theorem Literal.eq_doubled {close : Char} {lit rest : List Char} (h : Literal close lit rest) :
    lit = doubled close (content close lit) ++ [close] ∨
      lit = doubled close (content close lit) ∧ rest = [] := by
  induction h with
  | endless => exact .inr ⟨rfl, rfl⟩
  | closing stop => exact .inl (by simp [content, doubled])
  | escape whole ih =>
      rcases ih with ih | ⟨ih, hrest⟩
      · exact .inl (by simpa [content, doubled] using ih)
      · exact .inr ⟨by simpa [content, doubled] using ih, hrest⟩
  | char inside whole ih =>
      rw [content_cons inside, doubled, if_neg inside]
      rcases ih with ih | ⟨ih, hrest⟩
      · exact .inl (by rw [List.cons_append, ← ih])
      · exact .inr ⟨by rw [← ih], hrest⟩

end Delimited

/-- Whether a token of the kind is a run of word characters. -/
def TokenKind.isRun : TokenKind → Bool
  | number => true
  | identifier => true
  | keyword _ => true
  | _ => false

namespace Token

/-- The token is what `word` is read as where `rest` stands behind it. A name between delimiters has
its closing delimiter doubled, and only at the end of the text may the last one be missing. -/
inductive Reads (t : Token) : List Char → List Char → Prop
  | bare {rest : List Char} (other : t.kind ≠ .bracketed) : Reads t t.text.toList rest
  | closed {c : Char} {inner rest : List Char} (bracketed : t.kind = .bracketed)
      (start : c = '[' ∨ c = '"') (double : inner = Delimited.doubled (Lexer.closing c) t.text.toList)
      (single : t.text.toList = Delimited.undoubled (Lexer.closing c) inner) :
      Reads t (c :: (inner ++ [Lexer.closing c])) rest
  | endless {c : Char} {inner : List Char} (bracketed : t.kind = .bracketed)
      (start : c = '[' ∨ c = '"') (double : inner = Delimited.doubled (Lexer.closing c) t.text.toList)
      (single : t.text.toList = Delimited.undoubled (Lexer.closing c) inner) :
      Reads t (c :: inner) []

theorem Reads.of_literal {t : Token} {c : Char} {lit rest : List Char}
    (bracketed : t.kind = .bracketed) (start : c = '[' ∨ c = '"')
    (whole : Delimited.Literal (Lexer.closing c) lit rest)
    (htext : t.text.toList = Delimited.content (Lexer.closing c) lit) : Reads t (c :: lit) rest := by
  have hsingle := (Delimited.undoubled_doubled (Lexer.closing c) t.text.toList).symm
  rcases whole.eq_doubled with heq | ⟨heq, rfl⟩
  · rw [heq, ← htext]
    exact .closed bracketed start rfl hsingle
  · rw [heq, ← htext]
    exact .endless bracketed start rfl hsingle

theorem reads_of_plain {k : TokenKind} {c : Char} {tail : List Char}
    (h : Lexer.literalPart? k c tail = none ∨ k = .quoted) (rest : List Char) (p q : Position) :
    Reads ⟨k, String.ofList (Lexer.tokenText k c tail), p, q⟩ (c :: tail) rest := by
  have hk : k ≠ .bracketed := by
    rintro rfl
    rcases h with h | h <;> contradiction
  have htext : Lexer.tokenText k c tail = c :: tail := if_neg hk
  have hread : Reads ⟨k, String.ofList (c :: tail), p, q⟩ (String.ofList (c :: tail)).toList rest :=
    .bare hk
  rw [String.toList_ofList] at hread
  rwa [htext]

theorem reads_of_lexes {k : TokenKind} {c : Char} {tail rest : List Char}
    (h : Lexer.Lexes k c tail rest) (p q : Position) :
    Reads ⟨k, String.ofList (Lexer.tokenText k c tail), p, q⟩ (c :: tail) rest := by
  cases h with
  | word start word stop plain =>
      exact reads_of_plain (.inl (Lexer.wordKind_plain c tail).2) rest p q
  | national start whole => exact reads_of_plain (.inr rfl) rest p q
  | quoted whole => exact reads_of_plain (.inr rfl) rest p q
  | symbol start single => exact reads_of_plain (.inl (Lexer.symbolKind_plain c []).2) rest p q
  | pair pair => exact reads_of_plain (.inl rfl) rest p q
  | bracketed start whole =>
      refine .of_literal rfl start whole ?_
      rw [String.toList_ofList, Lexer.tokenText, if_pos rfl]

/-- The two tokens are not parts of one word. -/
def Parted (t u : Token) : Prop :=
  t.stop = u.start → ¬ (t.kind.isRun ∧ u.kind.isRun)

end Token

/-- A run of word characters does not stand in front of a further one. -/
theorem Lexer.Lexes.of_isRun {k : TokenKind} {c : Char} {tail rest : List Char}
    (h : Lexes k c tail rest) (hk : k.isRun) :
    isWordChar c ∧ ∀ d ∈ rest.head?, isWordChar d = false := by
  cases h with
  | word start word stop plain => exact ⟨isWordChar_of_start start, stop⟩
  | national start whole => contradiction
  | quoted whole => contradiction
  | bracketed start whole => contradiction
  | pair pair => contradiction
  | symbol start single =>
      unfold symbolKind at hk
      repeat' split at hk
      all_goals contradiction

namespace Elements

theorem exists_reads {es : List Element} (h : Placed es) {t : Token}
    (ht : t ∈ tokensFrom .origin es) :
    ∃ front word rest, text es = front ++ (word ++ rest) ∧
      t.start = Cursor.positionAt (text es) (size front) ∧
      t.stop = Cursor.positionAt (text es) (size (front ++ word)) ∧ t.Reads word rest := by
  obtain ⟨front, k, c, tail, back, rfl, rfl⟩ := exists_of_mem_tokensFrom ht
  have htext : text (front ++ .lexeme k c tail :: back) = text front ++ (c :: tail ++ text back) :=
    text_append front _
  refine ⟨text front, c :: tail, text back, htext, ?_, ?_, ?_⟩
  · rw [htext, Cursor.positionAt_size]
  · rw [htext, ← List.append_assoc, Cursor.positionAt_size]
  · cases h.right.1 with
    | lexeme solid code lexes => exact Token.reads_of_lexes lexes _ _

/-- A character is blank, in the range of a token, or in a comment. -/
theorem covered {es : List Element} (h : Placed es) {x : Nat × Char}
    (hx : x ∈ offsets 0 (text es)) :
    isBlank x.2 ∨
      (∃ t ∈ tokensFrom .origin es, t.range.contains (Cursor.positionAt (text es) x.1)) ∨
        ∃ s ∈ spans 0 es, s.isComment ∧ s.covers x.1 := by
  obtain ⟨before, behind, htext, hoffset⟩ := exists_of_mem_offsets hx
  rw [Nat.zero_add] at hoffset
  rw [hoffset]
  have hposition : Cursor.positionAt (text es) (size before) = Position.origin.advance before := by
    rw [htext, Cursor.positionAt_size]
  obtain ⟨front, e, back, inner, outer, rfl, hfit, rfl, he, -⟩ := exists_element h htext
  rw [hposition]
  by_cases hc : e.IsComment
  · refine .inr (.inr ?_)
    obtain ⟨s, hs, hcomment, hstart, hstop⟩ := Element.exists_commentSpan? hc (size (text front))
    refine ⟨s, ?_, hcomment, ?_⟩
    · rw [spans_append, Nat.zero_add]
      exact List.mem_append_right _ (List.mem_append_left _ (Option.mem_toList.2 hs))
    · have hpos := Char.utf8Size_pos x.2
      simp only [Span.covers, hstart, hstop, he, size_append, size_cons, Bool.and_eq_true,
        decide_eq_true_eq]
      omega
  · cases hfit.plain hc with
    | blank solid =>
        left
        cases inner with
        | nil =>
            obtain ⟨heq, -⟩ := List.cons.inj he
            rwa [← heq]
        | cons d inner => simp [Element.text, Element.head, Element.tail] at he
    | @lexeme k c tail _ solid code lexes =>
        refine .inr (.inl ⟨_, mem_tokensFrom_lexeme front back k c tail, ?_⟩)
        have hlexeme : text front ++ c :: tail = text front ++ inner ++ x.2 :: outer := by
          rw [List.append_assoc]
          exact congrArg (text front ++ ·) he
        simp only [Range.contains, Token.range, Bool.and_eq_true, decide_eq_true_eq, hlexeme]
        refine ⟨?_, ?_⟩
        · rw [Position.advance_append]
          exact Position.le_advance _ inner
        · rw [Position.advance_append _ (text front ++ inner), Position.advance_cons]
          exact Position.lt_of_lt_of_le (Position.lt_next _ _) (Position.le_advance _ outer)

/-- A token that begins where the elements do is the first of them. -/
theorem exists_of_head?_tokensFrom {p : Position} {es : List Element} {u : Token}
    (hu : u ∈ (tokensFrom p es).head?) (hstart : p = u.start) :
    ∃ k c tail back, es = .lexeme k c tail :: back ∧ u.kind = k := by
  cases es with
  | nil => contradiction
  | cons e es =>
      have hbehind : u ∉ tokensFrom (p.advance e.text) es := by
        intro hu
        have hlt : p < p.advance e.text :=
          Position.lt_of_lt_of_le (Position.lt_next p e.head) (Position.le_advance _ e.tail)
        have hle := (start_lt_stop hu).1
        rw [← hstart] at hle
        exact Position.lt_irrefl p (Position.lt_of_lt_of_le hlt hle)
      cases e with
      | lexeme k c tail =>
          obtain rfl := Option.some.inj hu
          exact ⟨k, c, tail, es, rfl, rfl⟩
      | blank c => exact absurd (List.mem_of_mem_head? hu) hbehind
      | lineComment body => exact absurd (List.mem_of_mem_head? hu) hbehind
      | blockComment body => exact absurd (List.mem_of_mem_head? hu) hbehind

theorem isChain_tokensFrom {es : List Element} (h : Placed es) (p : Position) :
    (tokensFrom p es).IsChain Token.Parted := by
  induction es generalizing p with
  | nil => exact .nil
  | cons e es ih =>
      cases e with
      | blank c => exact ih h.2 _
      | lineComment body => exact ih h.2 _
      | blockComment body => exact ih h.2 _
      | lexeme k c tail =>
          refine List.isChain_cons.2 ⟨fun u hu hstart ⟨ht, hrun⟩ => ?_, ih h.2 _⟩
          obtain ⟨k', d, tail', back, rfl, hkind⟩ := exists_of_head?_tokensFrom hu hstart
          cases h.1 with
          | lexeme _ _ lexes =>
              cases h.2.1 with
              | lexeme _ _ lexes' =>
                  -- the word in front would go on with the character that the next one begins with
                  have hword := (lexes'.of_isRun (hkind ▸ hrun)).1
                  have hstop := (lexes.of_isRun ht).2 d rfl
                  rw [hstop] at hword
                  contradiction

end Elements

/-- The tokens stand apart and in order, each between two characters of the text and read from
what is between them; what no token is read from is blank or in a comment; and words are whole. -/
theorem tokenize_tiles (source : String) :
    IsOrdered (tokenize source) ∧
      (∀ t ∈ tokenize source, ∃ front word rest, source.toList = front ++ (word ++ rest) ∧
        t.start = Cursor.positionAt source.toList (size front) ∧
        t.stop = Cursor.positionAt source.toList (size (front ++ word)) ∧ t.Reads word rest) ∧
      (∀ x ∈ offsets 0 source.toList, isBlank x.2 ∨
        (∃ t ∈ tokenize source, t.range.contains (Cursor.positionAt source.toList x.1)) ∨
          ∃ s ∈ spans source.toList, s.isComment ∧ s.covers x.1) ∧
      (tokenize source).IsChain Token.Parted := by
  obtain ⟨es, htext, hplaced⟩ := Elements.exists_placed source.toList
  have htokens : tokenize source = Elements.tokensFrom .origin es := by
    rw [tokenize, tokenizeFrom, ← htext, Elements.tokens_text hplaced]
  have hspans : spans source.toList = Elements.spans 0 es := by
    rw [← htext, spans, Elements.spans_text hplaced]
  refine ⟨isOrdered_tokenize source, ?_⟩
  rw [htokens, hspans, ← htext]
  exact ⟨fun t ht => Elements.exists_reads hplaced ht,
    fun x hx => Elements.covered hplaced hx, Elements.isChain_tokensFrom hplaced _⟩

end Tsql
