import Tsql.Proofs.Elements.Lexeme

/-!
The elements of a text: blanks, comments and lexemes.

A list of elements is `Placed` if each element ends where the text behind it makes it end. Every
text is the text of exactly one such list (`exists_placed`, `Placed.unique`), so what a pass over
the text does can be said element by element. For the tokens this is `tokens_text`.
-/

namespace Tsql

open Text

/-- A token with the line that it starts on, without its columns. -/
def Token.onLine (t : Token) : TokenKind × String × Nat :=
  (t.kind, t.text, t.start.line)

namespace Lexer

/-- `body` is the comment, or the end of it, with `depth` openers not yet closed, in front of the
text `rest`. -/
inductive Block : Nat → List Char → List Char → Prop
  | closed {rest : List Char} : Block 0 [] rest
  | endless {depth : Nat} : Block (depth + 1) [] []
  | opening {depth : Nat} {body rest : List Char} (deeper : Block (depth + 2) body rest) :
      Block (depth + 1) ('/' :: '*' :: body) rest
  | closing {depth : Nat} {body rest : List Char} (outer : Block depth body rest) :
      Block (depth + 1) ('*' :: '/' :: body) rest
  | char {depth : Nat} {c : Char} {body rest : List Char}
      (opens : ¬ (c = '/' ∧ (body ++ rest).head? = some '*'))
      (closes : ¬ (c = '*' ∧ (body ++ rest).head? = some '/'))
      (inside : Block (depth + 1) body rest) : Block (depth + 1) (c :: body) rest

theorem blockTail_of_block {depth : Nat} {body rest : List Char} (h : Block depth body rest) :
    blockTail depth (body ++ rest) = body.length := by
  induction h with
  | closed => simp [blockTail]
  | endless => simp [blockTail]
  | opening deeper ih => simp [blockTail, ih]
  | closing outer ih => simp [blockTail, ih]
  | @char depth c body rest opens closes inside ih =>
      rw [List.cons_append]
      -- a last character starts no pair
      cases hcs : body ++ rest with
      | nil =>
          obtain ⟨rfl, rfl⟩ := List.append_eq_nil_iff.1 hcs
          rfl
      | cons d t =>
          rw [hcs, List.head?_cons, Option.some.injEq] at opens closes
          rw [blockTail, if_neg opens, if_neg closes, ← hcs, ih, List.length_cons]

theorem exists_block (depth : Nat) (cs : List Char) :
    ∃ body rest, cs = body ++ rest ∧ Block depth body rest := by
  fun_induction blockTail depth cs with
  | case1 cs => exact ⟨[], cs, rfl, .closed⟩
  | case2 depth hdepth =>
      obtain ⟨depth, rfl⟩ := Nat.exists_eq_succ_of_ne_zero hdepth
      exact ⟨[], [], rfl, .endless⟩
  | case3 depth c hdepth =>
      obtain ⟨depth, rfl⟩ := Nat.exists_eq_succ_of_ne_zero hdepth
      exact ⟨[c], [], rfl, .char (by simp) (by simp) .endless⟩
  | case4 depth c d t h ih =>
      obtain ⟨rfl, rfl⟩ := h
      obtain ⟨body, rest, rfl, deeper⟩ := ih
      exact ⟨_, rest, rfl, .opening deeper⟩
  | case5 depth c d t _ h ih =>
      obtain ⟨rfl, rfl⟩ := h
      obtain ⟨body, rest, rfl, outer⟩ := ih
      exact ⟨_, rest, rfl, .closing outer⟩
  | case6 depth c d t ho hc ih =>
      obtain ⟨body, rest, heq, inside⟩ := ih
      refine ⟨c :: body, rest, by rw [heq, List.cons_append], .char ?_ ?_ inside⟩
      · rwa [← heq, List.head?_cons, Option.some.injEq]
      · rwa [← heq, List.head?_cons, Option.some.injEq]

end Lexer

inductive Element
  | blank (c : Char)
  | lineComment (body : List Char)
  | blockComment (body : List Char)
  | lexeme (kind : TokenKind) (c : Char) (tail : List Char)

namespace Element

def head : Element → Char
  | blank c => c
  | lineComment _ => '-'
  | blockComment _ => '/'
  | lexeme _ c _ => c

def tail : Element → List Char
  | blank _ => []
  | lineComment body => '-' :: body
  | blockComment body => '*' :: body
  | lexeme _ _ tail => tail

def text (e : Element) : List Char :=
  e.head :: e.tail

/-- Whether a comment starts with `c` where the text `rest` stands behind it. -/
def OpensComment (c : Char) (rest : List Char) : Prop :=
  c = '-' ∧ rest.head? = some '-' ∨ c = '/' ∧ rest.head? = some '*'

instance (c : Char) (rest : List Char) : Decidable (OpensComment c rest) :=
  inferInstanceAs (Decidable (_ ∨ _))

/-- The element ends where the text `rest` begins. -/
inductive Fits : Element → List Char → Prop
  | blank {c : Char} {rest : List Char} (solid : isBlank c) : Fits (blank c) rest
  | lineComment {body rest : List Char} (inside : ∀ d ∈ body, d ≠ '\n')
      (stop : ∀ d ∈ rest.head?, d = '\n') : Fits (lineComment body) rest
  | blockComment {body rest : List Char} (whole : Lexer.Block 1 body rest) :
      Fits (blockComment body) rest
  | lexeme {k : TokenKind} {c : Char} {tail rest : List Char} (solid : isBlank c = false)
      (code : ¬ OpensComment c (tail ++ rest)) (lexes : Lexer.Lexes k c tail rest) :
      Fits (lexeme k c tail) rest

/-- The first element of the text. -/
def first (c : Char) (rest : List Char) : Element :=
  if isBlank c then blank c
  else if c = '-' ∧ rest.head? = some '-' then lineComment (rest.tail.takeWhile (· ≠ '\n'))
  else if c = '/' ∧ rest.head? = some '*' then
    blockComment (rest.tail.take (Lexer.blockTail 1 rest.tail))
  else lexeme (Lexer.lexeme c rest).1 c (Lexer.lexeme c rest).2

theorem takeWhile_line {body rest : List Char} (inside : ∀ d ∈ body, d ≠ '\n')
    (stop : ∀ d ∈ rest.head?, d = '\n') : (body ++ rest).takeWhile (· ≠ '\n') = body :=
  Lexer.takeWhile_append_of_stop (fun d hd => by simpa using inside d hd)
    fun d hd => by simpa using stop d hd

theorem first_of_fits {e : Element} {rest : List Char} (h : e.Fits rest) :
    first e.head (e.tail ++ rest) = e := by
  cases h with
  | blank solid => simp [first, head, solid]
  | lineComment inside stop =>
      have hline := takeWhile_line inside stop
      have hdash : isBlank '-' = false := by decide
      simp only [first, head, tail, hdash, List.cons_append, List.head?_cons, List.tail_cons, hline]
      rfl
  | blockComment whole =>
      have hslash : isBlank '/' = false := by decide
      simp [first, head, tail, hslash, Lexer.blockTail_of_block whole]
  | lexeme solid code lexes =>
      have hc := code
      rw [OpensComment, not_or] at hc
      simp only [first, head, tail, solid, hc, Lexer.lexeme_of_lexes lexes]
      rfl

theorem exists_fits (c : Char) (rest : List Char) :
    ∃ e rest', c :: rest = text e ++ rest' ∧ e.Fits rest' := by
  by_cases hb : isBlank c
  · exact ⟨blank c, rest, rfl, .blank hb⟩
  by_cases hc : OpensComment c rest
  · rcases hc with ⟨rfl, hhead⟩ | ⟨rfl, hhead⟩
    · obtain ⟨t, rfl⟩ := List.head?_eq_some_iff.1 hhead
      obtain ⟨body, rest', rfl, hbody, hstop⟩ := Lexer.exists_run (· ≠ '\n') t
      refine ⟨lineComment body, rest', rfl, .lineComment ?_ ?_⟩
      · simpa using hbody
      · simpa using hstop
    · obtain ⟨t, rfl⟩ := List.head?_eq_some_iff.1 hhead
      obtain ⟨body, rest', rfl, whole⟩ := Lexer.exists_block 1 t
      exact ⟨blockComment body, rest', rfl, .blockComment whole⟩
  · obtain ⟨k, tail, rest', rfl, hlex⟩ := Lexer.exists_lexes c rest
    exact ⟨lexeme k c tail, rest', rfl, .lexeme (by simpa using hb) hc hlex⟩

def IsComment : Element → Prop
  | lineComment _ => True
  | blockComment _ => True
  | _ => False

/-- The element is no comment and ends where the text `rest` begins. -/
inductive Plain : Element → List Char → Prop
  | blank {c : Char} {rest : List Char} (solid : isBlank c) : Plain (blank c) rest
  | lexeme {k : TokenKind} {c : Char} {tail rest : List Char} (solid : isBlank c = false)
      (code : ¬ OpensComment c (tail ++ rest)) (lexes : Lexer.Lexes k c tail rest) :
      Plain (lexeme k c tail) rest

theorem Fits.plain {e : Element} {rest : List Char} (h : e.Fits rest) (hc : ¬ e.IsComment) :
    e.Plain rest := by
  cases h with
  | blank solid => exact .blank solid
  | lineComment => exact absurd trivial hc
  | blockComment => exact absurd trivial hc
  | lexeme solid code lexes => exact .lexeme solid code lexes

theorem not_opensComment_of_follows {c : Char} {tail rest rest' : List Char}
    (h : ¬ OpensComment c (tail ++ rest)) (hf : Follows rest rest') :
    ¬ OpensComment c (tail ++ rest') := by
  cases tail with
  | cons d tail => exact h
  | nil =>
      have hhead : ∀ d ∈ rest'.head?, ¬ (c = '-' ∧ d = '-' ∨ c = '/' ∧ d = '*') := by
        refine Lexer.head_of_follows hf ?_ ?_
        · rintro d hd (⟨hc, rfl⟩ | ⟨hc, rfl⟩)
          · exact h (.inl ⟨hc, hd⟩)
          · exact h (.inr ⟨hc, hd⟩)
        · rintro d hd (⟨-, rfl⟩ | ⟨-, rfl⟩) <;> revert hd <;> decide
      rintro (⟨hc, hd⟩ | ⟨hc, hd⟩)
      · exact hhead _ hd (.inl ⟨hc, rfl⟩)
      · exact hhead _ hd (.inr ⟨hc, rfl⟩)

/-- What is no comment is the same in front of a text that cannot prolong it. -/
theorem Fits.of_follows {e : Element} {rest rest' : List Char} (h : e.Fits rest)
    (hc : ¬ e.IsComment) (hf : Follows rest rest') : e.Fits rest' := by
  cases h.plain hc with
  | blank solid => exact .blank solid
  | lexeme solid code lexes =>
      exact .lexeme solid (not_opensComment_of_follows code hf) (lexes.of_follows hf)

/-- The tokens of an element at a position: one for a lexeme, else none. -/
def tokensAt (p : Position) : Element → List Token
  | lexeme k c tail =>
    [⟨k, String.ofList (Lexer.tokenText k c tail), p, p.advance (c :: tail)⟩]
  | _ => []

end Element

/-! ### Lists of elements -/

namespace Elements

def text (es : List Element) : List Char :=
  es.flatMap Element.text

@[simp] theorem text_nil : text [] = [] := rfl

@[simp] theorem text_cons (e : Element) (es : List Element) :
    text (e :: es) = e.text ++ text es := rfl

@[simp] theorem text_append (as bs : List Element) : text (as ++ bs) = text as ++ text bs :=
  List.flatMap_append

/-- Each element ends where the text behind it makes it end. -/
def Placed : List Element → Prop
  | [] => True
  | e :: es => e.Fits (text es) ∧ Placed es

theorem exists_placed (cs : List Char) : ∃ es, text es = cs ∧ Placed es := by
  match cs with
  | [] => exact ⟨[], rfl, trivial⟩
  | c :: rest =>
      obtain ⟨e, rest', heq, hfit⟩ := Element.exists_fits c rest
      have hlt : rest'.length < (c :: rest).length := by
        rw [heq]
        simp only [Element.text, List.length_append, List.length_cons]
        omega
      obtain ⟨es, rfl, hes⟩ := exists_placed rest'
      exact ⟨e :: es, heq.symm, hfit, hes⟩
termination_by cs.length
decreasing_by exact hlt

theorem Placed.right {as bs : List Element} (h : Placed (as ++ bs)) : Placed bs := by
  induction as with
  | nil => exact h
  | cons a as ih => exact ih h.2

theorem Placed.unique {es fs : List Element} (he : Placed es) (hf : Placed fs)
    (h : text es = text fs) : es = fs := by
  induction es generalizing fs with
  | nil =>
      cases fs with
      | nil => rfl
      | cons f fs => simp [Element.text] at h
  | cons e es ih =>
      cases fs with
      | nil => simp [Element.text] at h
      | cons f fs =>
          have hcons : e.head :: (e.tail ++ text es) = f.head :: (f.tail ++ text fs) := h
          obtain ⟨hhead, htail⟩ := List.cons.inj hcons
          -- the first element can be computed from the text
          have hef : e = f := by
            rw [← Element.first_of_fits he.1, ← Element.first_of_fits hf.1, hhead, htail]
          subst hef
          have hrest : text es = text fs := List.append_cancel_left h
          rw [ih he.2 hf.2 hrest]

def tokensFrom (p : Position) : List Element → List Token
  | [] => []
  | e :: es => e.tokensAt p ++ tokensFrom (p.advance e.text) es

theorem tokensFrom_append (p : Position) (as bs : List Element) :
    tokensFrom p (as ++ bs) = tokensFrom p as ++ tokensFrom (p.advance (text as)) bs := by
  induction as generalizing p with
  | nil => rfl
  | cons e as ih => simp [tokensFrom, ih]

theorem exists_of_mem_tokensFrom {p : Position} {es : List Element} {t : Token}
    (h : t ∈ tokensFrom p es) :
    ∃ front k c tail back, es = front ++ .lexeme k c tail :: back ∧
      t = ⟨k, String.ofList (Lexer.tokenText k c tail), p.advance (text front),
        p.advance (text front ++ c :: tail)⟩ := by
  induction es generalizing p with
  | nil => exact absurd h List.not_mem_nil
  | cons e es ih =>
      rcases List.mem_append.1 h with h | h
      · cases e with
        | lexeme k c tail =>
            obtain rfl := List.mem_singleton.1 h
            exact ⟨[], k, c, tail, es, rfl, rfl⟩
        | blank c => exact absurd h List.not_mem_nil
        | lineComment body => exact absurd h List.not_mem_nil
        | blockComment body => exact absurd h List.not_mem_nil
      · obtain ⟨front, k, c, tail, back, rfl, rfl⟩ := ih h
        refine ⟨e :: front, k, c, tail, back, rfl, ?_⟩
        rw [text_cons, List.append_assoc, Position.advance_append p e.text,
          Position.advance_append p e.text]

theorem tokensFrom_map_blank (p : Position) (cs : List Char) :
    tokensFrom p (cs.map .blank) = [] := by
  induction cs generalizing p with
  | nil => rfl
  | cons c cs ih => exact ih _

theorem text_map_blank (cs : List Char) : text (cs.map .blank) = cs := by
  induction cs with
  | nil => rfl
  | cons c cs ih =>
      rw [List.map_cons, text_cons, ih]
      rfl

/-- The lines of the tokens do not depend on the column at which the text starts. -/
theorem map_onLine_tokensFrom {p q : Position} (h : p.line = q.line) (es : List Element) :
    (tokensFrom p es).map Token.onLine = (tokensFrom q es).map Token.onLine := by
  induction es generalizing p q with
  | nil => rfl
  | cons e es ih =>
      have hnext : (p.advance e.text).line = (q.advance e.text).line := by
        rw [Position.line_advance, Position.line_advance, h]
      have hhere : (e.tokensAt p).map Token.onLine = (e.tokensAt q).map Token.onLine := by
        cases e <;> simp [Element.tokensAt, Token.onLine, h]
      rw [tokensFrom, tokensFrom, List.map_append, List.map_append, hhere, ih hnext]

end Elements

/-! ### The tokens of the elements -/

namespace Lexer

theorem tokens_eq (p : Position) (cs : List Char) :
    tokens p cs =
      match cs.drop (triviaWidth cs) with
      | [] => []
      | c :: rest =>
        let start := p.advance (cs.take (triviaWidth cs))
        let tail := (lexeme c rest).2
        let stop := start.advance (c :: tail)
        ⟨(lexeme c rest).1, String.ofList (tokenText (lexeme c rest).1 c tail), start, stop⟩ ::
          tokens stop (rest.drop tail.length) := by
  rw [tokens]
  split
  · next h => simp [h]
  · next h => simp [h]

/-- Trivia only moves the place of the tokens behind it. -/
theorem tokens_append_of_trivia {trivia rest : List Char}
    (h : triviaWidth (trivia ++ rest) = trivia.length + triviaWidth rest) (p : Position) :
    tokens p (trivia ++ rest) = tokens (p.advance trivia) rest := by
  rw [tokens_eq, tokens_eq (p.advance trivia), h]
  have hdrop : (trivia ++ rest).drop (trivia.length + triviaWidth rest) =
      rest.drop (triviaWidth rest) := by
    rw [← List.drop_drop, List.drop_left]
  have htake : (trivia ++ rest).take (trivia.length + triviaWidth rest) =
      trivia ++ rest.take (triviaWidth rest) := by
    rw [List.take_append, Nat.add_sub_cancel_left, List.take_of_length_le (Nat.le_add_right _ _)]
  rw [hdrop, htake, Position.advance_append]

theorem triviaWidth_comment {c : Char} {tail rest : List Char} (solid : isBlank c = false)
    (h : commentWidth (c :: (tail ++ rest)) = tail.length + 1) :
    triviaWidth (c :: tail ++ rest) = (c :: tail).length + triviaWidth rest := by
  rw [List.cons_append, triviaWidth, solid]
  simp [h]

theorem commentWidth_eq_zero {c : Char} {rest : List Char} (h : ¬ Element.OpensComment c rest) :
    commentWidth (c :: rest) = 0 := by
  cases rest with
  | nil => rfl
  | cons d rest =>
      simp only [Element.OpensComment, List.head?_cons, Option.some.injEq, not_or] at h
      rw [commentWidth, if_neg h.1, if_neg h.2]

end Lexer

theorem Element.tokens_of_fits {e : Element} {rest : List Char} (h : e.Fits rest) (p : Position) :
    Lexer.tokens p (e.text ++ rest) = e.tokensAt p ++ Lexer.tokens (p.advance e.text) rest := by
  cases h with
  | blank solid =>
      refine Lexer.tokens_append_of_trivia ?_ p
      simp [text, head, tail, Lexer.triviaWidth, solid, Nat.add_comm]
  | @lineComment body _ inside stop =>
      have hline := takeWhile_line inside stop
      have hwidth : Lexer.commentWidth ('-' :: ('-' :: body ++ rest)) =
          ('-' :: body).length + 1 := by
        simp only [List.cons_append, Lexer.commentWidth, and_self, if_true, hline]
        rfl
      exact Lexer.tokens_append_of_trivia (Lexer.triviaWidth_comment (by decide) hwidth) p
  | @blockComment body _ whole =>
      have hwidth : Lexer.commentWidth ('/' :: ('*' :: body ++ rest)) =
          ('*' :: body).length + 1 := by
        simp [Lexer.commentWidth, Lexer.blockTail_of_block whole]
      exact Lexer.tokens_append_of_trivia (Lexer.triviaWidth_comment (by decide) hwidth) p
  | @lexeme k c tail _ solid code lexes =>
      have htrivia : Lexer.triviaWidth (c :: (tail ++ rest)) = 0 := by
        rw [Lexer.triviaWidth, solid]
        simp [Lexer.commentWidth_eq_zero code]
      have htext : (lexeme k c tail).text ++ rest = c :: (tail ++ rest) := rfl
      rw [Lexer.tokens_eq, htext, htrivia]
      simp only [List.drop_zero, List.take_zero, Lexer.lexeme_of_lexes lexes, List.drop_left]
      rfl

theorem Elements.tokens_text {es : List Element} (h : Placed es) (p : Position) :
    Lexer.tokens p (text es) = tokensFrom p es := by
  induction es generalizing p with
  | nil => simp [Lexer.tokens_eq, tokensFrom]
  | cons e es ih => rw [text_cons, Element.tokens_of_fits h.1, ih h.2, tokensFrom]

end Tsql
