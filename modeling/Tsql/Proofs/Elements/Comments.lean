import Tsql.Proofs.Elements.Scan
import Tsql.Scan.Comments

/-!
Removing and masking comments, element by element.

Both put blanks in the place of comments and keep every other element as it is. A list of elements
that is changed in this way is still placed, because a lexeme cannot grow into a blank; so the text
without comments has the lexemes of the text with comments, and no others.
-/

namespace Tsql

open Text Scan

namespace Element

/-- A way to put blanks in the place of comments. A block comment leaves at least one. -/
structure Blanks (g : Element → List Element) : Prop where
  keeps : ∀ e : Element, ¬ e.IsComment → g e = [e]
  blank : ∀ e : Element, e.IsComment → ∀ f ∈ g e, ∃ c, f = .blank c ∧ isBlank c
  gap : ∀ body, g (blockComment body) ≠ []

end Element

namespace Elements

open Element (Blanks)

theorem head?_text (e : Element) (es : List Element) : (text (e :: es)).head? = some e.head := rfl

/-- Behind the replacement of an element stands what stood there before, or a blank. -/
theorem follows_flatMap {g : Element → List Element} (hg : Blanks g) {es : List Element}
    (h : Placed es) : Follows (text es) (text (es.flatMap g)) := by
  induction es with
  | nil => exact .inl rfl
  | cons e es ih =>
      rw [List.flatMap_cons]
      by_cases hc : e.IsComment
      · refine .inr ⟨by simp [Element.text], ?_⟩
        cases hge : g e with
        | cons f fs =>
            obtain ⟨c, rfl, hblank⟩ := hg.blank e hc f (by rw [hge]; exact List.mem_cons_self)
            simpa [Element.text, Element.head] using hblank
        | nil =>
            cases h.1 with
            | blank => exact hc.elim
            | lexeme => exact hc.elim
            | @blockComment body => exact absurd hge (hg.gap body)
            | lineComment inside stop =>
                -- nothing is left of a line comment, and its line feed is a blank
                refine Lexer.head_of_follows (p := fun d => isBlank d) (ih h.2) ?_ fun d hd => hd
                intro d hd
                rw [stop d hd]
                decide
      · rw [hg.keeps e hc]
        exact .inl rfl

theorem Placed.append_blanks {bs es : List Element}
    (hb : ∀ f ∈ bs, ∃ c, f = .blank c ∧ isBlank c) (h : Placed es) : Placed (bs ++ es) := by
  induction bs with
  | nil => exact h
  | cons f bs ih =>
      obtain ⟨⟨c, rfl, hblank⟩, hbs⟩ := List.forall_mem_cons.1 hb
      exact ⟨.blank hblank, ih hbs⟩

theorem Placed.flatMap {g : Element → List Element} (hg : Blanks g) {es : List Element}
    (h : Placed es) : Placed (es.flatMap g) := by
  induction es with
  | nil => trivial
  | cons e es ih =>
      rw [List.flatMap_cons]
      by_cases hc : e.IsComment
      · exact (ih h.2).append_blanks (hg.blank e hc)
      · rw [hg.keeps e hc]
        exact ⟨h.1.of_follows hc (follows_flatMap hg h.2), ih h.2⟩

end Elements

/-! ### Masking and removal -/

namespace Element

/-- The character that masking puts in the place of one in a comment. -/
def hidden (c : Char) : Char :=
  if c = '\n' then c else ' '

def masked : Element → List Element
  | e@(lineComment _) => (e.text.map hidden).map blank
  | e@(blockComment _) => (e.text.map hidden).map blank
  | e => [e]

def cleaned : Element → List Element
  | e@(lineComment _) => (e.text.filter (· = '\n')).map blank
  | e@(blockComment _) => (' ' :: e.text.filter (· = '\n')).map blank
  | e => [e]

theorem mem_map_blank {cs : List Char} (h : ∀ c ∈ cs, isBlank c) :
    ∀ f ∈ cs.map blank, ∃ c, f = blank c ∧ isBlank c := by
  intro f hf
  obtain ⟨c, hc, rfl⟩ := List.mem_map.1 hf
  exact ⟨c, rfl, h c hc⟩

theorem isBlank_hidden {cs : List Char} : ∀ c ∈ cs.map hidden, isBlank c := by
  intro c hc
  obtain ⟨d, -, rfl⟩ := List.mem_map.1 hc
  unfold hidden
  split
  · next h =>
    rw [h]
    decide
  · decide

theorem isBlank_lineFeed {cs : List Char} : ∀ c ∈ cs.filter (· = '\n'), isBlank c := by
  intro c hc
  obtain rfl : c = '\n' := by simpa using (List.mem_filter.1 hc).2
  decide

theorem blanks_masked : Blanks masked where
  keeps e he := by
    cases e with
    | blank => rfl
    | lexeme => rfl
    | lineComment => exact absurd trivial he
    | blockComment => exact absurd trivial he
  blank e he := by
    cases e with
    | blank => exact he.elim
    | lexeme => exact he.elim
    | lineComment => exact mem_map_blank isBlank_hidden
    | blockComment => exact mem_map_blank isBlank_hidden
  gap body := by simp [masked, text]

theorem blanks_cleaned : Blanks cleaned where
  keeps e he := by
    cases e with
    | blank => rfl
    | lexeme => rfl
    | lineComment => exact absurd trivial he
    | blockComment => exact absurd trivial he
  blank e he := by
    cases e with
    | blank => exact he.elim
    | lexeme => exact he.elim
    | lineComment => exact mem_map_blank isBlank_lineFeed
    | blockComment =>
        exact mem_map_blank (List.forall_mem_cons.2 ⟨by decide, isBlank_lineFeed⟩)
  gap body := by simp [cleaned]

theorem flatMap_eq_text {f : Piece → List Char} {ps : List Piece}
    (h : ∀ p ∈ ps, f p = p.text) : ps.flatMap f = ps.flatMap Piece.text := by
  rw [List.flatMap_def, List.flatMap_def, List.map_congr_left h]

theorem flatMap_eq_map {f : Piece → List Char} {g : Char → Char} {ps : List Piece}
    (h : ∀ p ∈ ps, f p = p.text.map g) : ps.flatMap f = (ps.flatMap Piece.text).map g := by
  rw [List.map_flatMap, List.flatMap_def, List.flatMap_def, List.map_congr_left h]

theorem isComment_of_mem_comment {e : Element} {rest : List Char} (h : e.Fits rest)
    (hc : e.IsComment) : ∀ p ∈ e.pieces, p.isComment := by
  have htail := inComment_of_mem_tail h hc
  cases e with
  | blank => exact hc.elim
  | lexeme => exact hc.elim
  | lineComment body =>
      refine List.forall_mem_cons.2 ⟨rfl, fun p hp => ?_⟩
      rw [Piece.isComment, (htail p hp).before, Bool.true_or]
  | blockComment body =>
      refine List.forall_mem_cons.2 ⟨rfl, fun p hp => ?_⟩
      rw [Piece.isComment, (htail p hp).before, Bool.true_or]

theorem flatMap_masked {e : Element} {rest : List Char} (h : e.Fits rest) :
    e.pieces.flatMap Piece.masked = Elements.text e.masked := by
  by_cases hc : e.IsComment
  · have hmasked : ∀ p ∈ e.pieces, p.masked = p.text.map hidden := fun p hp => by
      rw [Piece.masked, if_pos (isComment_of_mem_comment h hc p hp)]
      rfl
    rw [flatMap_eq_map hmasked, flatMap_text_pieces h]
    cases e with
    | blank => exact hc.elim
    | lexeme => exact hc.elim
    | lineComment => exact (Elements.text_map_blank _).symm
    | blockComment => exact (Elements.text_map_blank _).symm
  · have hkept : ∀ p ∈ e.pieces, p.masked = p.text := fun p hp => by
      rw [Piece.masked, isComment_of_mem_pieces h hc p hp]
      rfl
    rw [flatMap_eq_text hkept, flatMap_text_pieces h, blanks_masked.keeps e hc]
    simp

theorem flatMap_cleaned_of_inComment {ps : List Piece} (h : ∀ p ∈ ps, InComment p) :
    ps.flatMap Piece.cleaned = (ps.flatMap Piece.text).filter (· = '\n') := by
  have hcleaned : ∀ p ∈ ps, p.cleaned = p.text.filter (· = '\n') := by
    intro p hp
    have hbefore := (h p hp).before
    have hnormal : p.before.isNormal = false := by
      cases hs : p.before <;> simp_all [State.isComment, State.isNormal]
    simp [Piece.cleaned, Piece.isComment, Piece.opensBlockComment, hbefore, hnormal]
  rw [List.filter_flatMap, List.flatMap_def, List.flatMap_def, List.map_congr_left hcleaned]

theorem flatMap_cleaned {e : Element} {rest : List Char} (h : e.Fits rest) :
    e.pieces.flatMap Piece.cleaned = Elements.text e.cleaned := by
  by_cases hc : e.IsComment
  · have htail := flatMap_cleaned_of_inComment (inComment_of_mem_tail h hc)
    have htext := flatMap_text_pieces h
    cases e with
    | blank => exact hc.elim
    | lexeme => exact hc.elim
    | lineComment body =>
        rw [cleaned, Elements.text_map_blank, ← htext]
        exact htail
    | blockComment body =>
        rw [cleaned, Elements.text_map_blank, ← htext]
        exact congrArg (' ' :: ·) htail
  · have hkept : ∀ p ∈ e.pieces, p.cleaned = p.text := fun p hp => by
      rw [Piece.cleaned, isComment_of_mem_pieces h hc p hp]
      rfl
    rw [flatMap_eq_text hkept, flatMap_text_pieces h, blanks_cleaned.keeps e hc]
    simp

end Element

namespace Elements

theorem mask_text {es : List Element} (h : Placed es) :
    mask (text es) = text (es.flatMap Element.masked) := by
  rw [mask, flatMap_pieces _ rfl h]
  induction es with
  | nil => rfl
  | cons e es ih =>
      rw [List.flatMap_cons, List.flatMap_cons, text_append, Element.flatMap_masked h.1, ih h.2]

theorem clean_text {es : List Element} (h : Placed es) :
    clean (text es) = text (es.flatMap Element.cleaned) := by
  rw [clean, flatMap_pieces _ rfl h]
  induction es with
  | nil => rfl
  | cons e es ih =>
      rw [List.flatMap_cons, List.flatMap_cons, text_append, Element.flatMap_cleaned h.1, ih h.2]

theorem advance_map_hidden (p : Position) (cs : List Char) :
    p.advance (cs.map Element.hidden) = p.advance cs := by
  induction cs generalizing p with
  | nil => rfl
  | cons c cs ih =>
      have hnext : p.next (Element.hidden c) = p.next c := by
        unfold Position.next Element.hidden
        by_cases h : c = '\n'
        · simp [h]
        · simp [h]
      rw [List.map_cons, Position.advance_cons, Position.advance_cons, hnext, ih]

/-- Masking moves no token. -/
theorem tokensFrom_masked (p : Position) (es : List Element) :
    tokensFrom p (es.flatMap Element.masked) = tokensFrom p es := by
  induction es generalizing p with
  | nil => rfl
  | cons e es ih =>
      have hblanks : ∀ cs : List Char,
          tokensFrom p ((cs.map Element.hidden).map .blank ++ es.flatMap Element.masked) =
            tokensFrom (p.advance cs) es := fun cs => by
        rw [tokensFrom_append, tokensFrom_map_blank, text_map_blank, advance_map_hidden, ih]
        rfl
      rw [List.flatMap_cons]
      cases e with
      | blank c => exact ih _
      | lexeme k c tail => exact congrArg (_ :: ·) (ih _)
      | lineComment body => exact hblanks _
      | blockComment body => exact hblanks _

theorem count_filter_lineFeed (cs : List Char) :
    (cs.filter (· = '\n')).count '\n' = cs.count '\n' :=
  List.count_filter (by simp)

/-- Removal moves no token to another line. -/
theorem map_onLine_tokensFrom_cleaned (p : Position) (es : List Element) :
    (tokensFrom p (es.flatMap Element.cleaned)).map Token.onLine =
      (tokensFrom p es).map Token.onLine := by
  induction es generalizing p with
  | nil => rfl
  | cons e es ih =>
      have hblanks : ∀ bs cs : List Char, bs.count '\n' = cs.count '\n' →
          (tokensFrom p (bs.map .blank ++ es.flatMap Element.cleaned)).map Token.onLine =
            (tokensFrom (p.advance cs) es).map Token.onLine := fun bs cs hcount => by
        have hline : (p.advance bs).line = (p.advance cs).line := by
          rw [Position.line_advance, Position.line_advance, hcount]
        rw [tokensFrom_append, tokensFrom_map_blank, text_map_blank, List.nil_append, ih,
          map_onLine_tokensFrom hline]
      rw [List.flatMap_cons]
      cases e with
      | blank c => exact ih _
      | lexeme k c tail => exact congrArg (_ :: ·) (ih _)
      | lineComment body => exact hblanks _ _ (count_filter_lineFeed _)
      | blockComment body => exact hblanks _ _ (count_filter_lineFeed _)

end Elements

end Tsql
