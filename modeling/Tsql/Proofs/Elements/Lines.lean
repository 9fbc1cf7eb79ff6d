import Tsql.Batch.Separator
import Tsql.Proofs.Elements.Comments
import Tsql.Proofs.Text.Parts

/-!
The lines of a text without comments, element by element.

A line feed is an element of its own or stands inside a literal. Only behind the former does a line
start in code, so the elements between two of them form a unit: its first line may separate batches,
the others, which start inside literals, may not.
-/

namespace Tsql

open Text Scan

namespace Element

def lineFeed : Element :=
  blank '\n'

end Element

namespace Elements

open Element (lineFeed)

/-- Elements that make up a text without comments. -/
structure Uncommented (es : List Element) : Prop where
  placed : Placed es
  bare : ∀ e ∈ es, ¬ e.IsComment

namespace Uncommented

theorem nil : Uncommented [] := ⟨trivial, by simp⟩

theorem tail {e : Element} {es : List Element} (h : Uncommented (e :: es)) : Uncommented es :=
  ⟨h.placed.2, fun f hf => h.bare f (List.mem_cons_of_mem e hf)⟩

theorem plain {e : Element} {es : List Element} (h : Uncommented (e :: es)) : e.Plain (text es) :=
  h.placed.1.plain (h.bare e List.mem_cons_self)

theorem cons {e : Element} {es : List Element} (hfit : e.Fits (text es)) (hc : ¬ e.IsComment)
    (h : Uncommented es) : Uncommented (e :: es) :=
  ⟨⟨hfit, h.placed⟩, List.forall_mem_cons.2 ⟨hc, h.bare⟩⟩

theorem right {es fs : List Element} (h : Uncommented (es ++ fs)) : Uncommented fs := by
  induction es with
  | nil => exact h
  | cons e es ih => exact ih h.tail

/-- The text behind elements without comments may be exchanged for one that cannot prolong them. -/
theorem exchange {es fs gs : List Element} (h : Uncommented (es ++ fs)) (hg : Uncommented gs)
    (hf : Follows (text fs) (text gs)) : Uncommented (es ++ gs) := by
  induction es with
  | nil => exact hg
  | cons e es ih =>
      have hc : ¬ e.IsComment := h.bare e List.mem_cons_self
      refine cons (h.placed.1.of_follows hc ?_) hc (ih h.tail)
      show Follows (text (es ++ fs)) (text (es ++ gs))
      rw [text_append, text_append]
      cases es with
      | nil => exact hf
      | cons f es => exact .inl rfl

theorem left {es fs : List Element} (h : Uncommented (es ++ fs)) : Uncommented es := by
  have hend : Follows (text fs) (text []) := by
    by_cases hnil : text fs = []
    · exact .inl (by rw [hnil]; rfl)
    · exact .inr ⟨hnil, by simp⟩
  have hes := h.exchange nil hend
  rwa [List.append_nil] at hes

theorem of_blanks {g : Element → List Element} (hg : Element.Blanks g) {es : List Element}
    (h : Placed es) : Uncommented (es.flatMap g) where
  placed := h.flatMap hg
  bare f hf := by
    obtain ⟨e, -, hfe⟩ := List.mem_flatMap.1 hf
    by_cases hc : e.IsComment
    · obtain ⟨c, rfl, -⟩ := hg.blank e hc f hfe
      exact id
    · rw [hg.keeps e hc] at hfe
      obtain rfl := List.mem_singleton.1 hfe
      exact hc

/-- Where there are no comments, nothing is put in their place. -/
theorem flatMap_blanks {g : Element → List Element} (hg : Element.Blanks g) {es : List Element}
    (h : Uncommented es) : es.flatMap g = es := by
  induction es with
  | nil => rfl
  | cons e es ih =>
      rw [List.flatMap_cons, ih h.tail, hg.keeps e (h.bare e List.mem_cons_self)]
      rfl

theorem pieces_text {es : List Element} (h : Uncommented es) :
    pieces .normal (text es) = es.flatMap Element.pieces := by
  induction es with
  | nil => rfl
  | cons e es ih =>
      have hafter : e.after = .normal := by
        cases h.plain with
        | blank => rfl
        | lexeme => rfl
      rw [text_cons, Element.pieces_of_fits h.placed.1, hafter, ih h.tail, List.flatMap_cons]

/-- A text that starts with no blank starts with a lexeme. -/
theorem exists_lexeme {es : List Element} (h : Uncommented es) {c : Char} {rest : List Char}
    (htext : text es = c :: rest) (solid : isBlank c = false) :
    ∃ k tail es', es = .lexeme k c tail :: es' ∧ Lexer.Lexes k c tail (text es') ∧
      rest = tail ++ text es' := by
  cases es with
  | nil => contradiction
  | cons e es =>
      obtain ⟨hhead, hrest⟩ := List.cons.inj htext
      cases h.plain with
      | @blank d _ hblank =>
          obtain rfl : d = c := hhead
          rw [solid] at hblank
          contradiction
      | @lexeme k d tail _ _ code lexes =>
          obtain rfl : d = c := hhead
          exact ⟨k, tail, es, rfl, lexes, hrest.symm⟩

end Uncommented

/-- Induction over the units between the line feeds outside literals. -/
theorem induction_lineFeed {P : List Element → Prop} (last : ∀ g, lineFeed ∉ g → P g)
    (line : ∀ g es, lineFeed ∉ g → P es → P (g ++ lineFeed :: es)) (es : List Element) : P es := by
  by_cases h : lineFeed ∈ es
  · obtain ⟨g, rest, heq, hg⟩ := List.eq_append_cons_of_mem h
    have hlt : rest.length < es.length := by
      rw [heq, List.length_append, List.length_cons]
      omega
    rw [heq]
    exact line g rest hg (induction_lineFeed last line rest)
  · exact last es h
termination_by es.length

end Elements

/-! ### The states at the line feeds -/

namespace Scan

/-- The state behind the line feed in a piece. -/
def Piece.lineState? (p : Piece) : Option State :=
  if '\n' ∈ p.text then some p.after else none

/-- There are as many states as line feeds in the text, and none of them is in code. -/
structure InsideLines (ss : List State) (cs : List Char) : Prop where
  length : ss.length = cs.count '\n'
  inside : ∀ s ∈ ss, s.isNormal = false

namespace InsideLines

theorem nil {cs : List Char} (h : '\n' ∉ cs) : InsideLines [] cs :=
  ⟨(List.count_eq_zero.2 h).symm, by simp⟩

theorem append {ss ts : List State} {cs ds : List Char} (hs : InsideLines ss cs)
    (ht : InsideLines ts ds) : InsideLines (ss ++ ts) (cs ++ ds) where
  length := by rw [List.length_append, List.count_append, hs.length, ht.length]
  inside s hmem := (List.mem_append.1 hmem).elim (hs.inside s) (ht.inside s)

end InsideLines

theorem insideLines_literal {o : Char} (ho : opensLiteral o) {lit rest : List Char}
    (h : Delimited.Literal (Lexer.closing o) lit rest) :
    InsideLines ((pieces (.inside o) lit).filterMap Piece.lineState?) lit := by
  -- the piece that leads back to code holds no line feed
  have hclosing : '\n' ≠ Lexer.closing o := by
    simp only [opensLiteral, Bool.or_eq_true, decide_eq_true_eq] at ho
    rcases ho with (rfl | rfl) | rfl <;> decide
  induction h with
  | endless => exact .nil (by simp)
  | closing stop =>
      rw [pieces_inside_closing o (by simp)]
      simpa [pieces, Piece.lineState?, hclosing] using InsideLines.nil (by simpa using hclosing)
  | @escape lit rest whole ih =>
      rw [pieces_inside_escape]
      have hpair : InsideLines [] [Lexer.closing o, Lexer.closing o] :=
        .nil (by simpa using hclosing)
      simpa [Piece.lineState?, hclosing] using hpair.append ih
  | @char c lit rest inside whole ih =>
      rw [pieces_inside_char inside]
      by_cases hc : c = '\n'
      · subst hc
        have hfeed : InsideLines [.inside o] ['\n'] := ⟨rfl, by simp [isNormal_inside]⟩
        simpa [Piece.lineState?] using hfeed.append ih
      · have hother : InsideLines [] [c] := .nil (by simpa using Ne.symm hc)
        simpa [Piece.lineState?, Ne.symm hc] using hother.append ih

end Scan

namespace Lexer

/-- A lexeme has no blanks outside its literal. -/
theorem isBlank_of_mem_plainPart {k : TokenKind} {c : Char} {tail rest : List Char}
    (h : Lexes k c tail rest) (solid : isBlank c = false) :
    ∀ d ∈ plainPart k c tail, isBlank d = false := by
  cases h with
  | word start word stop plain =>
      rw [(wordKind_plain c tail).1]
      refine List.forall_mem_cons.2 ⟨solid, fun d hd => ?_⟩
      cases hb : isBlank d with
      | false => rfl
      | true => exact absurd (word d hd) (by simp [isWordChar_of_isBlank hb])
  | national start whole => simpa [plainPart] using fun _ => solid
  | quoted whole => simp [plainPart]
  | bracketed start whole => simp [plainPart]
  | symbol start single =>
      rw [(symbolKind_plain c []).1]
      simpa using solid
  | pair pair => simpa [plainPart, solid] using (operatorPairs_spec pair).2.2.1

end Lexer

namespace Element

theorem notMem_of_isBlank {cs : List Char} (h : ∀ d ∈ cs, isBlank d = false) : '\n' ∉ cs := by
  intro hmem
  have := h _ hmem
  revert this
  decide

/-- Of the line feeds in an element only the one that is an element of its own is in code. -/
theorem insideLines_of_fits {e : Element} {rest : List Char} (h : e.Fits rest)
    (hc : ¬ e.IsComment) (hfeed : lineFeed ≠ e) :
    InsideLines (e.pieces.filterMap Piece.lineState?) e.text := by
  cases h.plain hc with
  | @blank c _ solid =>
      have hne : '\n' ≠ c := fun heq => hfeed (by rw [← heq]; rfl)
      have hnone : (blank c).pieces.filterMap Piece.lineState? = [] := by
        simp [pieces, Piece.lineState?, Piece.code, hne]
      rw [hnone]
      exact .nil (by simpa [text, head, tail] using hne)
  | @lexeme k c tail _ solid code lexes =>
      -- only the literal of a lexeme may hold line feeds
      have hplain := notMem_of_isBlank (Lexer.isBlank_of_mem_plainPart lexes solid)
      have hnone : ((Lexer.plainPart k c tail).map Piece.code).filterMap Piece.lineState? = [] := by
        rw [List.filterMap_eq_nil_iff]
        intro p hp
        obtain ⟨d, hd, rfl⟩ := List.mem_map.1 hp
        have hne : '\n' ≠ d := fun heq => hplain (heq ▸ hd)
        simp [Piece.lineState?, Piece.code, hne]
      rw [pieces, List.filterMap_append, hnone, List.nil_append]
      cases hl : Lexer.literalPart? k c tail with
      | none =>
          rw [Lexer.plainPart_of_none hl] at hplain
          exact .nil hplain
      | some l =>
          obtain ⟨o, lit⟩ := l
          obtain ⟨ho, whole, htext⟩ := Lexer.literalPart?_of_lexes lexes hl
          have hopen : '\n' ≠ o := by
            rintro rfl
            exact absurd ho (by decide)
          have hfront : InsideLines [] (Lexer.plainPart k c tail ++ [o]) :=
            .nil (by simp [hplain, hopen])
          have hall := hfront.append (insideLines_literal ho whole)
          show InsideLines _ (c :: tail)
          rw [htext]
          simpa [Lexer.literalPieces, Piece.lineState?, hopen] using hall

end Element

end Tsql
