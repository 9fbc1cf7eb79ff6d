import Tsql.Proofs.Batch.Use
import Tsql.Proofs.Elements.Closed

/-!
The tokens of the segments of a batch.

The segments hold the tokens that stand outside the directives of the batch, all of them, in order
and on their lines (`segmentTokens_segments`).
-/

namespace Tsql

open Text Scan

/-! ### Places of tokens -/

namespace Elements

/-- A token starts inside the text that it stands in. -/
theorem start_of_mem_tokensFrom {p : Position} {es : List Element} {t : Token}
    (h : t ∈ tokensFrom p es) : p ≤ t.start ∧ t.start < p.advance (text es) := by
  induction es generalizing p with
  | nil => exact absurd h List.not_mem_nil
  | cons e es ih =>
      rw [text_cons, Position.advance_append]
      have hstep : p < p.advance e.text :=
        Position.lt_of_lt_of_le (Position.lt_next p e.head) (Position.le_advance _ e.tail)
      rcases List.mem_append.1 h with h | h
      · cases e with
        | lexeme k c tail =>
            obtain rfl := List.mem_singleton.1 h
            exact ⟨Position.le_refl p, Position.lt_of_lt_of_le hstep (Position.le_advance _ _)⟩
        | blank c => exact absurd h List.not_mem_nil
        | lineComment body => exact absurd h List.not_mem_nil
        | blockComment body => exact absurd h List.not_mem_nil
      · obtain ⟨hlow, hhigh⟩ := ih h
        exact ⟨Position.le_trans (Position.le_of_lt hstep) hlow, hhigh⟩

end Elements

namespace Batch

open Elements

/-- The ranges of the first texts of the pairs, where all texts stand one behind the other from `p`
on. -/
def coveredRanges (p : Position) : List (List Char × List Char) → List Range
  | [] => []
  | (covered, text) :: rest =>
    ⟨p, p.advance covered⟩ :: coveredRanges ((p.advance covered).advance text) rest

/-- The token starts in none of the ranges. -/
def isOutside (rs : List Range) (t : Token) : Bool :=
  rs.all fun r => !r.contains t.start

/-- The tokens of the second elements of the pairs. -/
def uncoveredTokens (p : Position) : List (List Element × List Element) → List Token
  | [] => []
  | (covered, es) :: rest =>
    tokensFrom (p.advance (text covered)) es ++
      uncoveredTokens ((p.advance (text covered)).advance (text es)) rest

theorem le_of_mem_coveredRanges {p : Position} {ps : List (List Char × List Char)} {r : Range}
    (h : r ∈ coveredRanges p ps) :
    p ≤ r.start ∧ r.stop ≤ p.advance (ps.flatMap fun q => q.1 ++ q.2) := by
  induction ps generalizing p with
  | nil => exact absurd h List.not_mem_nil
  | cons q ps ih =>
      obtain ⟨covered, cs⟩ := q
      rw [List.flatMap_cons, Position.advance_append, Position.advance_append]
      rcases List.mem_cons.1 h with rfl | h
      · refine ⟨Position.le_refl p, ?_⟩
        exact Position.le_trans (Position.le_advance _ _) (Position.le_advance _ _)
      · obtain ⟨hlow, hhigh⟩ := ih h
        refine ⟨Position.le_trans ?_ hlow, hhigh⟩
        exact Position.le_trans (Position.le_advance _ _) (Position.le_advance _ _)

theorem contains_iff {r : Range} {p : Position} :
    r.contains p = true ↔ r.start ≤ p ∧ p < r.stop := by
  simp [Range.contains]

/-- In front of all ranges a token is outside. -/
theorem isOutside_of_lt {p : Position} {ps : List (List Char × List Char)} {t : Token}
    (h : t.start < p) : isOutside (coveredRanges p ps) t := by
  refine List.all_eq_true.2 fun r hr => ?_
  rw [Bool.not_eq_true', ← Bool.not_eq_true, contains_iff]
  rintro ⟨hlow, -⟩
  have hle := Position.le_trans (le_of_mem_coveredRanges hr).1 hlow
  exact Position.lt_irrefl _ (Position.lt_of_lt_of_le h hle)

theorem isOutside_cons (r : Range) (rs : List Range) (t : Token) :
    isOutside (r :: rs) t = (!r.contains t.start && isOutside rs t) := rfl

/-- Behind the first range only the others count. -/
theorem filter_isOutside_cons {r : Range} {p : Position} (h : r.stop ≤ p) (es : List Element)
    (rs : List Range) :
    (tokensFrom p es).filter (isOutside (r :: rs)) = (tokensFrom p es).filter (isOutside rs) := by
  refine List.filter_congr fun t ht => ?_
  have hnot : r.contains t.start = false := by
    rw [← Bool.not_eq_true, contains_iff]
    rintro ⟨-, hlt⟩
    have hle := Position.le_trans h (start_of_mem_tokensFrom ht).1
    exact Position.lt_irrefl _ (Position.lt_of_lt_of_le hlt hle)
  rw [isOutside_cons, hnot]
  rfl

/-- No token of a text is outside the range of the text. -/
theorem filter_isOutside_self (p : Position) (es : List Element) (rs : List Range) :
    (tokensFrom p es).filter (isOutside (⟨p, p.advance (text es)⟩ :: rs)) = [] := by
  rw [List.filter_eq_nil_iff]
  intro t ht
  have hin : (Range.mk p (p.advance (text es))).contains t.start :=
    contains_iff.2 (start_of_mem_tokensFrom ht)
  simp [isOutside_cons, hin]

/-- All tokens in front of the ranges are outside. -/
theorem filter_isOutside_of_front (p : Position) (es : List Element)
    (ps : List (List Char × List Char)) :
    (tokensFrom p es).filter (isOutside (coveredRanges (p.advance (text es)) ps)) =
      tokensFrom p es := by
  rw [List.filter_eq_self]
  intro t ht
  exact isOutside_of_lt (start_of_mem_tokensFrom ht).2

/-- Leaving out the tokens in the ranges leaves those of the other texts. -/
theorem filter_isOutside (p : Position) (qs : List (List Element × List Element)) :
    (tokensFrom p (qs.flatMap fun q => q.1 ++ q.2)).filter
        (isOutside (coveredRanges p (qs.map fun q => (text q.1, text q.2)))) =
      uncoveredTokens p qs := by
  induction qs generalizing p with
  | nil => rfl
  | cons q qs ih =>
      obtain ⟨covered, es⟩ := q
      -- the range of the covered text ends where the other text starts
      have hstop : p.advance (text covered) ≤ (p.advance (text covered)).advance (text es) :=
        Position.le_advance _ _
      rw [List.flatMap_cons, tokensFrom_append, tokensFrom_append, text_append,
        Position.advance_append, List.filter_append, List.filter_append, List.map_cons,
        coveredRanges, uncoveredTokens, ← ih, filter_isOutside_self, List.nil_append,
        filter_isOutside_cons (Position.le_refl _), filter_isOutside_of_front,
        filter_isOutside_cons hstop]

/-! ### Tokens of segments -/

/-- The tokens of a segment of a batch that starts on the given line, on their lines. -/
def segmentTokens (line : Nat) (s : Segment) : List (TokenKind × String × Nat) :=
  (tokenizeFrom ⟨line + s.lineOffset, 1⟩ s.sql).map Token.onLine

theorem segmentTokens_of_isEmpty {s : Segment} (h : s.sql.isEmpty) (line : Nat) :
    segmentTokens line s = [] := by
  have hnil : s.sql = "" := by simpa using h
  rw [segmentTokens, hnil, tokenizeFrom, Lexer.tokens_eq]
  simp

/-- Trimming a text takes no tokens from it, and the rest starts as many lines later as its leading
blanks have. -/
theorem map_onLine_trim {es : List Element} (h : Closed es) (p : Position) (q : Position)
    (hline : q.line = p.line + (leadingBlanks (text es)).count '\n') :
    (tokenizeFrom q (String.ofList (trim (text es)))).map Token.onLine =
      (tokensFrom p es).map Token.onLine := by
  obtain ⟨as, bs, cs, rfl, has, hcs, hlead, htrim⟩ := h.exists_trim
  have hplaced : Placed bs := h.right.left.placed
  rw [tokenizeFrom, String.toList_ofList, ← htrim, tokens_text hplaced, tokensFrom_append,
    tokensFrom_append, has.tokensFrom, hcs.tokensFrom, List.nil_append, List.append_nil]
  refine map_onLine_tokensFrom ?_ bs
  rw [Position.line_advance, hlead, hline]

theorem segmentTokens_ofText {es : List Element} (h : Closed es) {p : Position} {line before : Nat}
    (hline : p.line = line + before) (database : Option (List Char)) :
    segmentTokens line (Segment.ofText database before (text es)) =
      (tokensFrom p es).map Token.onLine := by
  refine map_onLine_trim h p _ ?_
  rw [hline, Nat.add_assoc]
  rfl

theorem segmentTokens_segmentsFrom {ds : List (Directive × List Char)}
    {qs : List (List Element × List Element)} {p : Position} {line before : Nat}
    (hline : p.line = line + before)
    (h : ds.map (fun d => (d.1.text, d.2)) = qs.map fun q => (text q.1, text q.2))
    (hclosed : Closed (qs.flatMap fun q => q.1 ++ q.2)) :
    (segmentsFrom before ds).flatMap (segmentTokens line) =
      (uncoveredTokens p qs).map Token.onLine := by
  induction qs generalizing ds p before with
  | nil =>
      obtain rfl : ds = [] := by simpa using h
      rfl
  | cons q qs ih =>
      obtain ⟨covered, es⟩ := q
      cases ds with
      | nil => contradiction
      | cons d ds =>
          obtain ⟨d, cs⟩ := d
          obtain ⟨hhead, htail⟩ := List.cons.inj h
          obtain ⟨hd, rfl⟩ := Prod.mk.inj hhead
          rw [List.flatMap_cons] at hclosed
          -- the text starts behind its directive, the next directive behind the text
          have hbehind : (p.advance (text covered)).line = line + (before + d.text.count '\n') := by
            rw [Position.line_advance, hd, hline, Nat.add_assoc]
          have hnext : ((p.advance (text covered)).advance (text es)).line =
              line + (before + d.text.count '\n' + (text es).count '\n') := by
            rw [Position.line_advance, hbehind, Nat.add_assoc]
          simp only [segmentsFrom]
          rw [List.flatMap_cons, uncoveredTokens, List.map_append,
            segmentTokens_ofText hclosed.left.right hbehind, ih hnext htail hclosed.right]

/-- The directives of a batch whose text stands at `p`. -/
def useRanges (p : Position) (cs : List Char) : List Range :=
  coveredRanges (p.advance (directives none (marked cs)).1)
    ((directives none (marked cs)).2.map fun d => (d.1.text, d.2))

theorem exists_isUse_of_mem_coveredRanges {p : Position} {others : List (List Element × List Element)}
    (huses : AreUses others) {r : Range}
    (h : r ∈ coveredRanges p (others.map fun q => (text q.1, text q.2))) :
    ∃ front as behind, others.flatMap (fun q => q.1 ++ q.2) = front ++ (as ++ behind) ∧
      IsUse as (text behind) ∧
      r = ⟨p.advance (text front), (p.advance (text front)).advance (text as)⟩ := by
  induction others generalizing p with
  | nil => exact absurd h List.not_mem_nil
  | cons q others ih =>
      obtain ⟨covered, es⟩ := q
      obtain ⟨huse, huses⟩ := huses
      rcases List.mem_cons.1 h with rfl | h
      · exact ⟨[], covered, _, List.append_assoc .., huse, rfl⟩
      · obtain ⟨front, as, behind, hsplit, has, rfl⟩ := ih huses h
        refine ⟨covered ++ (es ++ front), as, behind, ?_, has, ?_⟩
        · rw [List.flatMap_cons, hsplit]
          simp only [List.append_assoc]
        · simp only [text_append, Position.advance_append]

/-- The range of a directive is that of the elements of one. -/
theorem exists_isUse_of_mem_useRanges {es : List Element} (h : Uncommented es) {p : Position}
    {r : Range} (hr : r ∈ useRanges p (text es)) :
    ∃ front as behind, es = front ++ (as ++ behind) ∧ IsUse as (text behind) ∧
      r = ⟨p.advance (text front), (p.advance (text front)).advance (text as)⟩ := by
  obtain ⟨first, others, rfl, hfirst, hothers, huses⟩ := exists_directives h none
  rw [← h.marked_text] at hfirst hothers
  rw [useRanges, hfirst, hothers] at hr
  obtain ⟨front, as, behind, hsplit, has, rfl⟩ := exists_isUse_of_mem_coveredRanges huses hr
  refine ⟨first ++ front, as, behind, ?_, has, ?_⟩
  · rw [hsplit, List.append_assoc]
  · simp only [text_append, Position.advance_append]

/-- The segments of a batch hold its tokens outside directives, each on its line. -/
theorem segmentTokens_segments {es : List Element} (h : Closed es) (p : Position) :
    (segments (text es)).flatMap (segmentTokens p.line) =
      ((tokensFrom p es).filter (isOutside (useRanges p (text es)))).map Token.onLine := by
  obtain ⟨first, others, rfl, hfirst, hothers, -⟩ := exists_directives h.toUncommented none
  rw [← h.marked_text] at hfirst hothers
  have hline : (p.advance (text first)).line = p.line + (text first).count '\n' :=
    Position.line_advance p (text first)
  have hopening : ∀ s : Segment,
      (if s.sql.isEmpty then [] else [s]).flatMap (segmentTokens p.line) =
        segmentTokens p.line s := by
    intro s
    split
    · next hempty => exact (segmentTokens_of_isEmpty hempty _).symm
    · exact List.flatMap_singleton ..
  simp only [segments]
  rw [List.flatMap_append, hopening, hfirst, segmentTokens_ofText h.left (Nat.add_zero _).symm,
    segmentTokens_segmentsFrom hline hothers h.right, useRanges, hfirst, hothers, tokensFrom_append,
    List.filter_append, filter_isOutside_of_front, filter_isOutside, List.map_append]

end Batch

end Tsql
