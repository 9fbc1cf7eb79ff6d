import Tsql.Proofs.Elements.Closed

/-!
The lexemes of a text with their lines and the characters that they touch.

What a lexeme touches is only what stands right in front of it or right behind it without a blank or
a comment in between; how a name ends is decided by that. Parts of a text that are kept apart by a
blank have the lexemes that they have together (`lexedFrom_append_blank`).
-/

namespace Tsql

open Text

/-- A lexeme where it stands in a text. -/
structure Lexed where
  kind : TokenKind
  first : Char
  tail : List Char
  line : Nat
  /-- Last character of a lexeme right in front of it. -/
  before : Option Char
  /-- First character of a lexeme right behind it. -/
  behind : Option Char
  deriving DecidableEq, Repr

namespace Lexed

/-- The text of the token. -/
def text (w : Lexed) : String :=
  String.ofList (Lexer.tokenText w.kind w.first w.tail)

def onLine (w : Lexed) : TokenKind × String × Nat :=
  (w.kind, w.text, w.line)

end Lexed

namespace Element

/-- The first character of a lexeme. -/
def firstTouching : Element → Option Char
  | lexeme _ c _ => some c
  | _ => none

/-- The last character of a lexeme. -/
def lastTouching : Element → Option Char
  | lexeme _ c tail => (c :: tail).getLast?
  | _ => none

end Element

namespace Elements

/-- The first character of a lexeme that the elements begin with. -/
def touching (es : List Element) : Option Char :=
  es.head?.bind Element.firstTouching

/-- The lexemes of the elements, where the first of them stands on the given line behind `before`. -/
def lexedFrom (line : Nat) (before : Option Char) : List Element → List Lexed
  | [] => []
  | .lexeme k c tail :: es =>
    ⟨k, c, tail, line, before, touching es⟩ ::
      lexedFrom (line + (c :: tail).count '\n') (c :: tail).getLast? es
  | e :: es => lexedFrom (line + e.text.count '\n') none es

theorem lexedFrom_lexeme (line : Nat) (before : Option Char) (k : TokenKind) (c : Char)
    (tail : List Char) (es : List Element) :
    lexedFrom line before (.lexeme k c tail :: es) =
      ⟨k, c, tail, line, before, touching es⟩ ::
        lexedFrom (line + (c :: tail).count '\n') (c :: tail).getLast? es := rfl

theorem lexedFrom_blank (line : Nat) (before : Option Char) (c : Char) (es : List Element) :
    lexedFrom line before (.blank c :: es) = lexedFrom (line + [c].count '\n') none es := rfl

/-- The last character of a lexeme that the elements end with, where `before` stands in front of
them. -/
def touched (before : Option Char) : List Element → Option Char
  | [] => before
  | e :: es => touched e.lastTouching es

/-- What stands in front of other elements only moves their lexemes. -/
theorem suffix_lexedFrom (line : Nat) (before : Option Char) (as bs : List Element) :
    lexedFrom (line + (text as).count '\n') (touched before as) bs <:+
      lexedFrom line before (as ++ bs) := by
  induction as generalizing line before with
  | nil => exact List.suffix_rfl
  | cons a as ih =>
      have ih := ih (line + a.text.count '\n') a.lastTouching
      rw [Nat.add_assoc, ← List.count_append, ← text_cons] at ih
      cases a with
      | lexeme k c tail => exact ih.trans (List.suffix_cons _ _)
      | blank c => exact ih
      | lineComment body => exact ih
      | blockComment body => exact ih

/-- The last character of a text without comments is that of a lexeme, or it is blank. -/
theorem any_touched {p : Char → Bool} (hp : ∀ c, isBlank c → p c = false) {as bs : List Element}
    (h : Uncommented (as ++ bs)) {before edge : Option Char} (hedge : before.any p = edge.any p) :
    ((text as).getLast?.or before).any p = (touched edge as).any p := by
  induction as generalizing before edge with
  | nil => exact hedge
  | cons a as ih =>
      have hlast : (text (a :: as)).getLast?.or before = (text as).getLast?.or a.text.getLast? := by
        have hsome : a.text.getLast?.isSome := by simp [Element.text]
        rw [text_cons, List.getLast?_append, Option.or_assoc, Option.or_of_isSome hsome]
      rw [hlast]
      refine ih h.tail ?_
      cases h.plain with
      | @blank c _ solid =>
          have hc := hp c solid
          simpa [Element.text, Element.head, Element.tail, Element.lastTouching] using hc
      | lexeme => rfl

/-- A blank keeps what stands in front of it apart from what stands behind it. -/
theorem lexedFrom_append_blank (line : Nat) (before : Option Char) (as : List Element) (c : Char)
    (bs : List Element) :
    lexedFrom line before (as ++ .blank c :: bs) =
      lexedFrom line before as ++ lexedFrom (line + (text as).count '\n' + [c].count '\n') none bs := by
  induction as generalizing line before with
  | nil => rfl
  | cons a as ih =>
      have htouching : touching (as ++ .blank c :: bs) = touching as := by
        cases as <;> rfl
      have hcount : line + (text (a :: as)).count '\n' =
          line + a.text.count '\n' + (text as).count '\n' := by
        rw [text_cons, List.count_append, Nat.add_assoc]
      rw [hcount]
      cases a with
      | lexeme k d tail =>
          rw [List.cons_append, lexedFrom_lexeme, lexedFrom_lexeme, ih, htouching]
          rfl
      | blank d => exact ih _ _
      | lineComment body => exact ih _ _
      | blockComment body => exact ih _ _

theorem AllBlank.isBlank {as : List Element} (h : AllBlank as) : ∀ d ∈ text as, isBlank d := by
  intro d hd
  obtain ⟨e, he, hd⟩ := List.mem_flatMap.1 hd
  obtain ⟨c, rfl, hc⟩ := h e he
  obtain rfl := List.mem_singleton.1 hd
  exact hc

theorem AllBlank.lexedFrom_append {as : List Element} (h : AllBlank as) (line : Nat)
    (es : List Element) :
    lexedFrom line none (as ++ es) = lexedFrom (line + (text as).count '\n') none es := by
  induction as generalizing line with
  | nil => rfl
  | cons a as ih =>
      obtain ⟨⟨c, rfl, -⟩, has⟩ := List.forall_mem_cons.1 h
      rw [List.cons_append, lexedFrom_blank, ih has, text_cons, List.count_append, Nat.add_assoc]
      rfl

theorem AllBlank.lexedFrom {as : List Element} (h : AllBlank as) (line : Nat)
    (before : Option Char) : lexedFrom line before as = [] := by
  induction as generalizing line before with
  | nil => rfl
  | cons a as ih =>
      obtain ⟨⟨c, rfl, -⟩, has⟩ := List.forall_mem_cons.1 h
      exact ih has _ _

/-- The tokens are the lexemes. -/
theorem map_onLine_lexedFrom (p : Position) (before : Option Char) (es : List Element) :
    (lexedFrom p.line before es).map Lexed.onLine = (tokensFrom p es).map Token.onLine := by
  induction es generalizing p before with
  | nil => rfl
  | cons e es ih =>
      have hnext := fun before => ih (p.advance e.text) before
      rw [Position.line_advance] at hnext
      rw [tokensFrom, List.map_append, ← hnext e.lastTouching]
      cases e <;> rfl

/-- The first lexeme stands behind blanks. -/
theorem allBlank_or_exists_lexeme {es : List Element} (h : Uncommented es) (line : Nat)
    (before : Option Char) :
    AllBlank es ∨ ∃ gap n rest, AllBlank gap ∧
      es = gap ++ .lexeme n.kind n.first n.tail :: rest ∧ n.behind = touching rest ∧
        (lexedFrom line before es).head? = some n := by
  induction es generalizing line before with
  | nil => exact .inl (List.forall_mem_nil _)
  | cons e es ih =>
      cases h.plain with
      | @blank c _ solid =>
          rcases ih h.tail (line + [c].count '\n') none with hes | ⟨gap, n, rest, hgap, rfl, hn⟩
          · exact .inl (List.forall_mem_cons.2 ⟨⟨c, rfl, solid⟩, hes⟩)
          · exact .inr ⟨.blank c :: gap, n, rest, List.forall_mem_cons.2 ⟨⟨c, rfl, solid⟩, hgap⟩,
              rfl, hn⟩
      | @lexeme k c tail _ solid code lexes =>
          exact .inr ⟨[], _, es, List.forall_mem_nil _, rfl, rfl, rfl⟩

theorem line_le_of_mem_lexedFrom {line : Nat} {before : Option Char} {es : List Element} {w : Lexed}
    (h : w ∈ lexedFrom line before es) :
    line ≤ w.line ∧ w.line ≤ line + (text es).count '\n' := by
  induction es generalizing line before with
  | nil => exact absurd h List.not_mem_nil
  | cons e es ih =>
      rw [text_cons, List.count_append]
      have hlater : ∀ before, w ∈ lexedFrom (line + e.text.count '\n') before es →
          line ≤ w.line ∧ w.line ≤ line + (e.text.count '\n' + (text es).count '\n') := by
        intro before hw
        have hlines := ih hw
        omega
      cases e with
      | lexeme k c tail =>
          rcases List.mem_cons.1 h with rfl | h
          · exact ⟨Nat.le_refl _, Nat.le_add_right _ _⟩
          · exact hlater _ h
      | blank c => exact hlater _ h
      | lineComment body => exact hlater _ h
      | blockComment body => exact hlater _ h

theorem mem_of_mem_lexedFrom {line : Nat} {before : Option Char} {es : List Element} {w : Lexed}
    (h : w ∈ lexedFrom line before es) : .lexeme w.kind w.first w.tail ∈ es := by
  induction es generalizing line before with
  | nil => exact absurd h List.not_mem_nil
  | cons e es ih =>
      cases e with
      | lexeme k c tail =>
          rcases List.mem_cons.1 h with rfl | h
          · exact List.mem_cons_self
          · exact List.mem_cons_of_mem _ (ih h)
      | blank c => exact List.mem_cons_of_mem _ (ih h)
      | lineComment body => exact List.mem_cons_of_mem _ (ih h)
      | blockComment body => exact List.mem_cons_of_mem _ (ih h)

/-! ### The elements of a text -/

/-- The elements that a text is read as. -/
def ofText (cs : List Char) : List Element :=
  match cs with
  | [] => []
  | c :: rest =>
    .first c rest :: ofText (rest.drop (Element.first c rest).tail.length)
termination_by cs.length
decreasing_by
  simp only [List.length_drop, List.length_cons]
  omega

theorem ofText_text {es : List Element} (h : Placed es) : ofText (text es) = es := by
  induction es with
  | nil => rw [text_nil, ofText]
  | cons e es ih =>
      have htext : text (e :: es) = e.head :: (e.tail ++ text es) := rfl
      rw [htext, ofText, Element.first_of_fits h.1, List.drop_left, ih h.2]

end Elements

/-- The lexemes of a text. -/
def lexed (source : String) : List Lexed :=
  Elements.lexedFrom 1 none (Elements.ofText source.toList)

end Tsql
