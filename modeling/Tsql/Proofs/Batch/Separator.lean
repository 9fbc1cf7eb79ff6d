import Tsql.Proofs.Elements.Lines
import Tsql.Proofs.Text.Words

/-!
The separator lines of a text without comments.

A separator line is a unit of its own that holds the word `GO`, alone or with a number, and blanks
(`unitLines_eq`). Which lines these are depends on the lexemes and the line feeds only, so the
text with masked comments has the same ones as the text without comments.
-/

namespace Tsql

open Text Scan

namespace Elements

open Element (lineFeed)

theorem insideLines_unit {g : List Element} (h : Uncommented g) (hg : lineFeed ∉ g) :
    InsideLines ((g.flatMap Element.pieces).filterMap Piece.lineState?) (text g) := by
  induction g with
  | nil => exact .nil (by simp)
  | cons e g ih =>
      obtain ⟨he, hg⟩ := not_or.1 fun h' => hg (List.mem_cons.2 h')
      have hhead := Element.insideLines_of_fits h.placed.1 (h.bare e List.mem_cons_self) he
      rw [List.flatMap_cons, List.filterMap_append]
      exact hhead.append (ih h.tail hg)

end Elements

namespace Batch

open Elements
open Element (lineFeed)

/-- The lines of a text of which only the first one starts in code. -/
def unitLines (cs : List Char) : List (Bool × List Char) :=
  match lines cs with
  | [] => []
  | l :: ls => (isSeparator l, l) :: ls.map fun l => (false, l)

theorem lineStates_eq (cs : List Char) :
    lineStates cs = .normal :: (pieces .normal cs).filterMap Piece.lineState? := rfl

theorem zipWith_inside {ls : List (List Char)} {ss : List State} (hlen : ss.length = ls.length)
    (hinside : ∀ s ∈ ss, s.isNormal = false) :
    List.zipWith (fun line state => (state.isNormal && isSeparator line, line)) ls ss =
      ls.map fun l => (false, l) := by
  induction ls generalizing ss with
  | nil => rfl
  | cons l ls ih =>
      cases ss with
      | nil => simp at hlen
      | cons s ss =>
          obtain ⟨hs, hss⟩ := List.forall_mem_cons.1 hinside
          rw [List.zipWith_cons_cons, hs, ih (by simpa using hlen) hss]
          rfl

theorem zipWith_unit {ss : List State} {cs : List Char} (h : InsideLines ss cs) :
    List.zipWith (fun line state => (state.isNormal && isSeparator line, line)) (lines cs)
      (.normal :: ss) = unitLines cs := by
  have hlen := length_lines cs
  unfold unitLines
  cases hl : lines cs with
  | nil => rfl
  | cons l ls =>
      rw [hl, List.length_cons] at hlen
      rw [List.zipWith_cons_cons, zipWith_inside (by rw [h.length]; omega) h.inside]
      rfl

theorem markedLines_unit {g : List Element} (h : Uncommented g) (hg : lineFeed ∉ g) :
    markedLines (text g) = unitLines (text g) := by
  rw [markedLines, lineStates_eq, h.pieces_text, zipWith_unit (insideLines_unit h hg)]

theorem markedLines_append {g es : List Element} (h : Uncommented (g ++ lineFeed :: es))
    (hg : lineFeed ∉ g) :
    markedLines (text (g ++ lineFeed :: es)) = unitLines (text g) ++ markedLines (text es) := by
  have hinside := insideLines_unit h.left hg
  have htext : text (g ++ lineFeed :: es) = text g ++ '\n' :: text es := by
    rw [text_append]
    rfl
  have hstates : lineStates (text (g ++ lineFeed :: es)) =
      (.normal :: (g.flatMap Element.pieces).filterMap Piece.lineState?) ++
        lineStates (text es) := by
    rw [lineStates_eq, lineStates_eq, h.pieces_text, h.right.tail.pieces_text, List.flatMap_append,
      List.filterMap_append]
    rfl
  have hlen : (lines (text g)).length =
      (State.normal :: (g.flatMap Element.pieces).filterMap Piece.lineState?).length := by
    rw [length_lines, List.length_cons, hinside.length]
  rw [markedLines, hstates, htext, lines_append_lineFeed, List.zipWith_append hlen,
    zipWith_unit hinside]
  rfl

end Batch

/-! ### Units that separate -/

namespace Element

/-- The lexeme as written. -/
def lexeme? : Element → Option (List Char)
  | lexeme _ c tail => some (c :: tail)
  | _ => none

theorem wordlike_head {w : List Char} (h : Wordlike w) : ∀ d ∈ w, isWordChar d := by
  obtain ⟨c, tail, rfl, hstart, htail⟩ := h
  exact List.forall_mem_cons.2 ⟨Lexer.isWordChar_of_start hstart, htail⟩

/-- A lexeme that looks like a word is one, so no character of a word stands behind it. -/
theorem stop_of_wordlike {k : TokenKind} {c : Char} {tail rest : List Char}
    (h : Lexer.Lexes k c tail rest) (hw : Wordlike (c :: tail)) :
    ∀ d ∈ rest.head?, isWordChar d = false := by
  have hall := wordlike_head hw
  obtain ⟨c', tail', heq, hstart, -⟩ := hw
  obtain ⟨rfl, rfl⟩ := List.cons.inj heq
  -- every other lexeme has a character that no word has
  cases h with
  | word start word stop plain => exact stop
  | national start whole =>
      have hquote := hall '\'' (by simp)
      exact absurd hquote (by decide)
  | quoted whole =>
      have hquote := hall '\'' List.mem_cons_self
      exact absurd hquote (by decide)
  | bracketed start whole =>
      have hopen := hall c List.mem_cons_self
      rcases start with rfl | rfl <;> exact absurd hopen (by decide)
  | symbol start single => simp_all [Lexer.isSymbol]
  | pair pair =>
      have hsymbol := (Lexer.operatorPairs_spec pair).1
      simp_all [Lexer.isSymbol]

/-- A word in front of a text that does not prolong it is a lexeme. -/
theorem fits_of_wordlike {c : Char} {tail rest : List Char} (hw : Wordlike (c :: tail))
    (hrest : ∀ d ∈ rest.head?, isWordChar d = false ∧ d ≠ '\'') :
    (lexeme (Lexer.wordKind c tail) c tail).Fits rest := by
  have hall := wordlike_head hw
  obtain ⟨c', tail', heq, hstart, htail⟩ := hw
  obtain ⟨rfl, rfl⟩ := List.cons.inj heq
  have hc : isWordChar c := hall c List.mem_cons_self
  have hne : ∀ d, isWordChar d = false → c ≠ d := fun d hd => Lexer.ne_of_isWordChar hc hd
  refine .lexeme (isBlank_of_isWordChar hc)
    (Lexer.not_opensComment ⟨hne '-' (by decide), hne '/' (by decide)⟩ _) ?_
  -- a quote stands neither behind the word nor in it
  refine .word hstart htail (fun d hd => (hrest d hd).1) fun _ hquote => ?_
  cases tail with
  | nil => exact (hrest _ hquote).2 rfl
  | cons d tail =>
      obtain rfl : d = '\'' := by simpa using hquote
      exact absurd (htail _ List.mem_cons_self) (by decide)

end Element

namespace Elements

open Element (lineFeed)

/-- The lexemes as written, in order. -/
def lexemes (es : List Element) : List (List Char) :=
  es.filterMap Element.lexeme?

theorem lexemes_lexeme (k : TokenKind) (c : Char) (tail : List Char) (es : List Element) :
    lexemes (.lexeme k c tail :: es) = (c :: tail) :: lexemes es := rfl

theorem head_blank_of_stop {es : List Element} (h : Uncommented es)
    (hw : ∀ w ∈ lexemes es, Wordlike w) (hstop : ∀ d ∈ (text es).head?, isWordChar d = false) :
    ∀ d ∈ (text es).head?, isBlank d := by
  cases es with
  | nil => simp
  | cons f es =>
      rw [head?_text]
      rintro d ⟨⟩
      cases h.plain with
      | blank solid => exact solid
      | @lexeme k c tail _ solid code lexes =>
          rw [lexemes_lexeme] at hw
          have hword := Element.wordlike_head (hw _ List.mem_cons_self) c List.mem_cons_self
          have hnot : isWordChar c = false := hstop c rfl
          rw [hword] at hnot
          contradiction

/-- Where all lexemes are words, they are the words of the text. -/
theorem words_text {es : List Element} (h : Uncommented es) (hw : ∀ w ∈ lexemes es, Wordlike w) :
    words (text es) = lexemes es := by
  induction es with
  | nil => rfl
  | cons e es ih =>
      cases h.plain with
      | blank solid => exact (words_cons_blank solid (text es)).trans (ih h.tail hw)
      | @lexeme k c tail _ solid code lexes =>
          rw [lexemes_lexeme] at hw
          obtain ⟨hhead, hes⟩ := List.forall_mem_cons.1 hw
          have hblank := head_blank_of_stop h.tail hes (Element.stop_of_wordlike lexes hhead)
          have hsolid : ∀ d ∈ c :: tail, isBlank d = false := fun d hd =>
            isBlank_of_isWordChar (Element.wordlike_head hhead d hd)
          have hfirst := words_append_solid (List.cons_ne_nil c tail) hsolid hblank
          exact hfirst.trans (congrArg _ (ih h.tail hes))

/-- Where all words of a text look like words to the lexer too, they are its lexemes. -/
theorem exists_words {cs : List Char} (hw : ∀ w ∈ words cs, Wordlike w) {rest : List Element}
    (hrest : Placed rest) (hblank : ∀ d ∈ (text rest).head?, isBlank d) :
    ∃ es, text es = cs ∧ Placed (es ++ rest) ∧ lexemes es = words cs := by
  match cs with
  | [] => exact ⟨[], rfl, hrest, rfl⟩
  | c :: cs =>
      by_cases hc : isBlank c
      · rw [words_cons_blank hc] at hw ⊢
        obtain ⟨es, rfl, hes, hlex⟩ := exists_words hw hrest hblank
        exact ⟨.blank c :: es, rfl, ⟨.blank hc, hes⟩, hlex⟩
      · have hc : isBlank c = false := by simpa using hc
        obtain ⟨run, tail, rfl, hrun, hstop⟩ := Lexer.exists_run (fun d => !isBlank d) cs
        have hsolid : ∀ d ∈ c :: run, isBlank d = false :=
          List.forall_mem_cons.2 ⟨hc, fun d hd => by simpa using hrun d hd⟩
        have hnext : ∀ d ∈ tail.head?, isBlank d := fun d hd => by simpa using hstop d hd
        have hcons := words_append_solid (List.cons_ne_nil c run) hsolid hnext
        rw [← List.cons_append, hcons] at hw ⊢
        obtain ⟨hhead, htail⟩ := List.forall_mem_cons.1 hw
        obtain ⟨es, rfl, hes, hlex⟩ := exists_words htail hrest hblank
        -- what follows the word is a blank of the text or of `rest`
        have hnext' : ∀ d ∈ (text (es ++ rest)).head?, isBlank d := by
          rw [text_append]
          cases hes' : text es with
          | nil => exact hblank
          | cons d ds =>
              rw [hes'] at hnext
              exact hnext
        refine ⟨.lexeme (Lexer.wordKind c run) c run :: es, rfl, ?_, ?_⟩
        · refine ⟨Element.fits_of_wordlike hhead fun d hd => ?_, hes⟩
          have hd := hnext' d hd
          refine ⟨isWordChar_of_isBlank hd, ?_⟩
          rintro rfl
          exact absurd hd (by decide)
        · rw [lexemes_lexeme, hlex]
termination_by cs.length

end Elements

namespace Batch

open Elements
open Element (lineFeed)

/-- The word `GO`, alone or with a number. -/
def separates : List (List Char) → Bool
  | [word] => sameFolded word ['G', 'O']
  | [word, count] => sameFolded word ['G', 'O'] && count.all Char.isDigit
  | _ => false

theorem isSeparator_eq (line : List Char) : isSeparator line = separates (words line) := by
  unfold isSeparator separates
  rfl

theorem wordlike_of_separates {ws : List (List Char)} (h : separates ws) (hne : ∀ w ∈ ws, w ≠ []) :
    ∀ w ∈ ws, Wordlike w := by
  unfold separates at h
  split at h
  · next word =>
    have hword := wordlike_of_sameFolded h (by decide) (by simp)
    simpa using hword
  · next word count =>
    rw [Bool.and_eq_true] at h
    have hword := wordlike_of_sameFolded h.1 (by decide) (by simp)
    have hcount := wordlike_of_digits h.2 (hne count (by simp))
    simpa using ⟨hword, hcount⟩
  · contradiction

theorem ne_nil_of_mem_lexemes (es : List Element) : ∀ w ∈ lexemes es, w ≠ [] := by
  intro w hw
  obtain ⟨e, -, he⟩ := List.mem_filterMap.1 hw
  cases e with
  | lexeme k c tail =>
      obtain rfl : c :: tail = w := Option.some.inj he
      exact List.cons_ne_nil c tail
  | blank c => contradiction
  | lineComment body => contradiction
  | blockComment body => contradiction

theorem notMem_text_of_wordlike {g : List Element} (h : Uncommented g) (hg : lineFeed ∉ g)
    (hw : ∀ w ∈ lexemes g, Wordlike w) : '\n' ∉ text g := by
  intro hmem
  obtain ⟨e, he, hc⟩ := List.mem_flatMap.1 hmem
  cases e with
  | blank c =>
      obtain rfl : '\n' = c := by simpa [Element.text, Element.head, Element.tail] using hc
      exact hg he
  | lexeme k c tail =>
      have hword := hw (c :: tail) (List.mem_filterMap.2 ⟨_, he, rfl⟩)
      have hfeed : isWordChar '\n' := Element.wordlike_head hword _ hc
      exact absurd hfeed (by decide)
  | lineComment body => exact h.bare _ he trivial
  | blockComment body => exact h.bare _ he trivial

theorem notMem_text_of_separates {g : List Element} (h : Uncommented g) (hg : lineFeed ∉ g)
    (hs : separates (lexemes g)) : '\n' ∉ text g :=
  notMem_text_of_wordlike h hg (wordlike_of_separates hs (ne_nil_of_mem_lexemes g))

/-- A unit whose first line separates is that line, and its lexemes are the words of the line. -/
theorem separates_of_isSeparator {g : List Element} (h : Uncommented g) (hg : lineFeed ∉ g)
    {l : List Char} {ls : List (List Char)} (hlines : lines (text g) = l :: ls)
    (hl : isSeparator l) : separates (lexemes g) := by
  rw [isSeparator_eq] at hl
  have hne : ∀ w ∈ words l, w ≠ [] := by
    intro w hw
    simpa using (List.mem_filter.1 hw).2
  have hword := wordlike_of_separates hl hne
  have htext : joinLines (l :: ls) = text g := by rw [← hlines, joinLines_lines]
  cases ls with
  | nil =>
      have hnil : Placed [] := trivial
      obtain ⟨es, hes, hplaced, hlex⟩ := exists_words hword hnil (by simp)
      rw [List.append_nil] at hplaced
      have hunique : es = g := hplaced.unique h.placed (hes.trans htext)
      rw [← hunique, hlex]
      exact hl
  | cons l' ls =>
      -- the line feed behind the first line would be outside literals
      obtain ⟨fs, hfs, hplaced⟩ := exists_placed (joinLines (l' :: ls))
      have hfeed : isBlank '\n' := by decide
      have hrest : Placed (lineFeed :: fs) := ⟨.blank hfeed, hplaced⟩
      obtain ⟨es, hes, hall, -⟩ := exists_words hword hrest (by rintro d ⟨⟩; exact hfeed)
      have hunique : es ++ lineFeed :: fs = g := by
        refine hall.unique h.placed ?_
        rw [text_append, hes, ← htext, text_cons, hfs]
        simp [joinLines, joinWith, Element.text, Element.head, Element.tail, lineFeed]
      exact absurd (hunique ▸ List.mem_append_right es List.mem_cons_self) hg

/-- A unit is one separator line or holds none. -/
theorem unitLines_eq {g : List Element} (h : Uncommented g) (hg : lineFeed ∉ g) :
    unitLines (text g) =
      if separates (lexemes g) then [(true, text g)]
      else (lines (text g)).map fun l => (false, l) := by
  by_cases hs : separates (lexemes g)
  · have hword := wordlike_of_separates hs (ne_nil_of_mem_lexemes g)
    have hone := lines_eq_singleton (notMem_text_of_separates h hg hs)
    have htrue : isSeparator (text g) := by rw [isSeparator_eq, words_text h hword, hs]
    rw [if_pos hs, unitLines, hone]
    simp [htrue]
  · rw [if_neg hs, unitLines]
    cases hl : lines (text g) with
    | nil => rfl
    | cons l ls =>
        have hnot : isSeparator l = false := by
          cases hsep : isSeparator l with
          | false => rfl
          | true => exact absurd (separates_of_isSeparator h hg hl hsep) hs
        simp [hnot]

end Batch

end Tsql
