import Mathlib.Data.List.Basic
import Tsql.Proofs.Batch.Names
import Tsql.Proofs.Batch.Sections
import Tsql.Proofs.Elements.Agreement

/-!
The tokens of the batches of a text.

Nothing is lost and nothing is made up when a text is cut into batches: the batches hold the tokens
of the text, each on its line, without those on separator lines and those of `USE` directives.
-/

namespace Tsql

open Text Scan

namespace Batch

open Elements

/-! ### Directives of a text -/

/-- The places of the directives in a section whose first line has the given number. -/
def sectionRanges (firstLine : Nat) (ls : List (List Char)) : List Range :=
  useRanges ((Position.mk firstLine 1).advance (leadingBlanks (joinLines ls))) (trim (joinLines ls))

/-- The places of the directives of a text without comments. -/
def directiveRanges (cs : List Char) : List Range :=
  (numberedSections 1 (markedLines cs)).flatMap fun s => sectionRanges s.1 s.2

/-- The range of a directive of a text: the word `USE`, which is a token of the text, blanks, the name
of a database as it is written, and what is taken behind the name. The name and the bytes of what is
read for it are those that `databaseName?` finds behind the word. -/
inductive IsDirective (cs : List Char) : Range → Prop
  | intro {front use blanks written taken behind name : List Char}
      (text_eq : cs = front ++ (use ++ (blanks ++ (written ++ (taken ++ behind)))))
      (word : sameFolded use ['U', 'S', 'E'])
      (token : ⟨.keyword .USE, String.ofList use, Position.origin.advance front,
        (Position.origin.advance front).advance use⟩ ∈ tokenize (String.ofList cs))
      (names : NamesDatabase blanks written taken behind name)
      (read : databaseName? (blanks ++ (written ++ (taken ++ behind))) =
        some (name, size (blanks ++ written ++ taken))) :
      IsDirective cs ⟨Position.origin.advance front,
        (Position.origin.advance front).advance (use ++ (blanks ++ (written ++ taken)))⟩

/-- The elements of a directive are one of the text. -/
theorem IsUse.isDirective {front as behind : List Element} (has : IsUse as (text behind))
    (h : Elements.Placed (front ++ (as ++ behind))) :
    IsDirective (text (front ++ (as ++ behind))) ⟨Position.origin.advance (text front),
      (Position.origin.advance (text front)).advance (text as)⟩ := by
  generalize hbehind : text behind = rest at has
  cases has with
  | @intro u s t es blanks written taken _ name word text_eq names =>
      have hkind : Lexer.wordKind u [s, t] = .keyword .USE := Lexer.wordKind_eq_keyword word
      have htext : text (front ++ (.lexeme (Lexer.wordKind u [s, t]) u [s, t] :: es ++ behind)) =
          text front ++ ([u, s, t] ++ (blanks ++ (written ++ (taken ++ rest)))) := by
        simp only [text_append, text_cons, text_eq, hbehind, List.append_assoc]
        rfl
      have hrange : text (.lexeme (Lexer.wordKind u [s, t]) u [s, t] :: es) =
          [u, s, t] ++ (blanks ++ (written ++ taken)) := by
        rw [text_cons, text_eq]
        rfl
      rw [hrange]
      refine .intro htext word ?_ names
        (databaseName?_eq_some_iff.2 ⟨blanks, written, taken, rest, rfl, names, rfl⟩)
      rw [tokenize, tokenizeFrom, String.toList_ofList, tokens_text h, tokensFrom_append, hkind]
      exact List.mem_append_right _ List.mem_cons_self

/-- A directive of a section is one of the whole text. -/
theorem isDirective_of_mem_sectionRanges {es : List Element} (h : Uncommented es) {s : Section}
    (hstands : s.StandsIn 1 es) (hclosed : Closed s.elements) {r : Range}
    (hr : r ∈ sectionRanges s.firstLine s.lines) : IsDirective (text es) r := by
  obtain ⟨as, bs, cs, helements, -, hcs, hlead, htrim⟩ := hclosed.exists_trim
  have hbs : Uncommented bs := (helements ▸ s.code).right.left
  rw [sectionRanges, s.text_eq, ← htrim, ← hlead] at hr
  obtain ⟨front, use, behind, rfl, huse, rfl⟩ := exists_isUse_of_mem_useRanges hbs hr
  rcases hstands with hlines | ⟨gs, hs, rfl, hstart, hend⟩
  · -- a section without lines has no elements
    rw [Section.elements_of_lines hlines] at helements
    cases huse
    simp at helements
  have hrest : text hs = [] ∨ (text hs).head? = some '\n' := by
    rcases hend with rfl | hhead
    · exact .inl rfl
    · obtain ⟨hs, rfl⟩ := List.head?_eq_some_iff.1 hhead
      exact .inr rfl
  have hhead : ∀ d ∈ (text cs ++ text hs).head?, isBlank d := by
    intro d hd
    rw [List.head?_append] at hd
    rcases Option.or_eq_some_iff.1 hd with hd | ⟨-, hd⟩
    · exact hcs.isBlank d (List.mem_of_mem_head? hd)
    · rcases hrest with hnil | hfeed
      · rw [hnil] at hd
        contradiction
      · obtain rfl := Option.some.inj (hfeed.symm.trans hd)
        decide
  have huse' := huse.append hhead (behindName_of_line hcs.isBlank hrest)
  rw [← text_append, ← text_append] at huse'
  have hsplit : gs ++ (s.elements ++ hs) =
      (gs ++ (as ++ front)) ++ (use ++ (behind ++ (cs ++ hs))) := by
    rw [helements]
    simp only [List.append_assoc]
  have hdirective := huse'.isDirective (hsplit ▸ h.placed)
  have hstart : Position.origin.advance (text gs) = ⟨s.firstLine, 1⟩ := hstart
  rw [← hsplit] at hdirective
  simpa only [text_append, Position.advance_append, ← hstart] using hdirective

/-- The tokens of the segments of a batch that starts on the given line, on their lines. -/
def batchTokens (line : Nat) (cs : List Char) : List (TokenKind × String × Nat) :=
  (segments cs).flatMap (segmentTokens line)

theorem batchTokens_nil (line : Nat) : batchTokens line [] = [] := by
  rw [batchTokens, segments_nil]
  rfl

theorem batchTokens_section (s : Section) (hclosed : Closed s.elements) :
    ofTrimmed batchTokens s.firstLine s.lines =
      (s.tokens.filter (isOutside (sectionRanges s.firstLine s.lines))).map Token.onLine := by
  obtain ⟨as, bs, cs, helements, has, hcs, hlead, htrim⟩ := hclosed.exists_trim
  rw [helements] at hclosed
  have htokens : s.tokens =
      tokensFrom ((Position.mk s.firstLine 1).advance (leadingBlanks (text s.elements))) bs := by
    rw [Section.tokens, ← hlead, helements, tokensFrom_append, tokensFrom_append, has.tokensFrom,
      hcs.tokensFrom, List.nil_append, List.append_nil]
  have hsegments := segmentTokens_segments hclosed.right.left
    ((Position.mk s.firstLine 1).advance (leadingBlanks (text s.elements)))
  rw [Position.line_advance] at hsegments
  rw [ofTrimmed, sectionRanges, s.text_eq, ← htrim, htokens]
  exact hsegments

theorem line_le_of_le {p q : Position} (h : p ≤ q) : p.line ≤ q.line := by
  rw [Position.le_def] at h
  omega

theorem line_of_mem_sectionRanges {s : Section} {r : Range}
    (h : r ∈ sectionRanges s.firstLine s.lines) :
    s.firstLine ≤ r.start.line ∧ r.stop.line ≤ s.lastLine := by
  obtain ⟨hlow, hhigh⟩ := le_of_mem_coveredRanges h
  obtain ⟨trailing, htext⟩ := exists_trim (joinLines s.lines)
  have hflat := flatten_directives none (marked (trim (joinLines s.lines)))
  rw [Scan.map_fst_marked] at hflat
  rw [List.flatMap_map, ← Position.advance_append, hflat] at hhigh
  have hlow := line_le_of_le hlow
  have hhigh := line_le_of_le hhigh
  rw [Position.line_advance, Position.line_advance] at hlow hhigh
  have hcount := congrArg (List.count '\n') htext
  rw [List.count_append, List.count_append, s.text_eq] at hcount
  rw [s.text_eq] at hlow hhigh
  simp only at hlow hhigh
  unfold Section.lastLine
  omega

theorem isOutside_append (rs rs' : List Range) (t : Token) :
    isOutside (rs ++ rs') t = (isOutside rs t && isOutside rs' t) :=
  List.all_append

theorem isOutside_of_lines {rs : List Range} {t : Token}
    (h : ∀ r ∈ rs, t.start.line < r.start.line ∨ r.stop.line < t.start.line) : isOutside rs t := by
  refine List.all_eq_true.2 fun r hr => ?_
  have hlines := h r hr
  rw [Bool.not_eq_true', ← Bool.not_eq_true, contains_iff, Position.le_def, Position.lt_def]
  omega

/-- A section keeps the tokens outside the directives of all sections if it keeps those outside its
own. -/
theorem filter_sections {ss : List Section}
    (h : ss.Pairwise fun a b => a.lastLine < b.firstLine) :
    (ss.flatMap Section.tokens).filter
        (isOutside (ss.flatMap fun s => sectionRanges s.firstLine s.lines)) =
      ss.flatMap fun s => s.tokens.filter (isOutside (sectionRanges s.firstLine s.lines)) := by
  induction ss with
  | nil => rfl
  | cons s ss ih =>
      obtain ⟨hs, hss⟩ := List.pairwise_cons.1 h
      rw [List.flatMap_cons, List.flatMap_cons, List.flatMap_cons, List.filter_append, ← ih hss]
      congr 1
      · refine List.filter_congr fun t ht => ?_
        have hlines := line_of_mem_tokensFrom ht
        -- the other sections start behind the tokens of the first
        have hout : isOutside (ss.flatMap fun s => sectionRanges s.firstLine s.lines) t := by
          refine isOutside_of_lines fun r hr => .inl ?_
          obtain ⟨s', hs', hr⟩ := List.mem_flatMap.1 hr
          have hlast : t.start.line ≤ s.lastLine := Nat.le_trans hlines.2.1 hlines.2.2
          have hfirst := (line_of_mem_sectionRanges hr).1
          exact Nat.lt_of_le_of_lt hlast (Nat.lt_of_lt_of_le (hs s' hs') hfirst)
        rw [isOutside_append, hout, Bool.and_true]
      · refine List.filter_congr fun t ht => ?_
        obtain ⟨s', hs', ht⟩ := List.mem_flatMap.1 ht
        have hlines := line_of_mem_tokensFrom ht
        -- and the directives of the first section end in front of their tokens
        have hout : isOutside (sectionRanges s.firstLine s.lines) t := by
          refine isOutside_of_lines fun r hr => .inr ?_
          have hlast := (line_of_mem_sectionRanges hr).2
          exact Nat.lt_of_le_of_lt hlast (Nat.lt_of_lt_of_le (hs s' hs') hlines.1)
        rw [isOutside_append, hout, Bool.true_and]

/-! ### From sections to batches -/

/-- The tokens of a batch, on their lines. -/
def tokens (b : Batch) : List (TokenKind × String × Nat) :=
  (tokenizeFrom ⟨b.startLine, 1⟩ b.sql).map Token.onLine

theorem flatMap_ofSegments (slice : Slice) (database : Option String) (ss : List Segment) :
    (ofSegments slice database ss).1.flatMap tokens =
      ss.flatMap (segmentTokens slice.startLine) := by
  induction ss generalizing database with
  | nil => rfl
  | cons s ss ih =>
      simp only [ofSegments, List.flatMap_cons]
      split
      · next hempty =>
        rw [ih, segmentTokens_of_isEmpty hempty, List.nil_append]
      · rw [List.flatMap_cons, ih]
        rfl

theorem flatMap_ofSlices (database : Option String) (ss : List Slice) :
    (ofSlices database ss).flatMap tokens =
      ss.flatMap fun slice => batchTokens slice.startLine slice.sql := by
  induction ss generalizing database with
  | nil => rfl
  | cons s ss ih =>
      rw [ofSlices, List.flatMap_append, flatMap_ofSegments, ih, List.flatMap_cons, batchTokens]

/-- The tokens of the batches of a text without comments. -/
theorem flatMap_tokens {es : List Element} (h : Closed es) (database : Option String) :
    (ofSlices database (slices (text es))).flatMap tokens =
      ((tokensFrom .origin es).filter fun t =>
        decide (t.start.line ∉ separators (text es)) &&
          isOutside (directiveRanges (text es)) t).map Token.onLine := by
  obtain ⟨ss, hss⟩ := exists_sections h.toUncommented 1
  have hranges : directiveRanges (text es) =
      ss.flatMap fun s => sectionRanges s.firstLine s.lines := by
    rw [directiveRanges, hss.numbered, List.flatMap_map]
    rfl
  have hfilter : (tokensFrom .origin es).filter (fun t =>
      decide (t.start.line ∉ separators (text es)) && isOutside (directiveRanges (text es)) t) =
        (ss.flatMap Section.tokens).filter (isOutside (directiveRanges (text es))) := by
    rw [← hss.tokens, List.filter_filter]
    refine List.filter_congr fun t _ => ?_
    rw [Bool.and_comm]
    rfl
  rw [flatMap_ofSlices, flatMap_slices batchTokens_nil, hss.numbered, List.flatMap_map, hfilter,
    hranges, filter_sections hss.ordered, List.map_flatMap]
  refine List.flatMap_congr fun s hs => ?_
  have hclosed : Closed s.elements := ⟨s.code, fun e he => h.ends e ((hss.stands s hs).subset he)⟩
  exact batchTokens_section s hclosed

/-- What is taken for the place of a directive is one. -/
theorem isDirective_of_mem_directiveRanges {es : List Element} (h : Closed es) {r : Range}
    (hr : r ∈ directiveRanges (text es)) : IsDirective (text es) r := by
  obtain ⟨ss, hss⟩ := exists_sections h.toUncommented 1
  rw [directiveRanges, hss.numbered, List.flatMap_map] at hr
  obtain ⟨s, hs, hr⟩ := List.mem_flatMap.1 hr
  have hstands := hss.stands s hs
  have hclosed : Closed s.elements := ⟨s.code, fun e he => h.ends e (hstands.subset he)⟩
  exact isDirective_of_mem_sectionRanges h.toUncommented hstands hclosed hr

/-- Tokens that agree save for their columns may be picked by either of two lists. -/
theorem map_filter_zip {ts us : List Token} (h : ts.map Token.onLine = us.map Token.onLine)
    (ls : List Nat) (p : Token → Bool) :
    (((ts.zip us).filter fun (t, u) => decide (t.start.line ∉ ls) && p u).map fun (t, _) =>
        t.onLine) =
      (us.filter fun u => decide (u.start.line ∉ ls) && p u).map Token.onLine := by
  induction ts generalizing us with
  | nil =>
      obtain rfl : us = [] := by simpa using h.symm
      rfl
  | cons t ts ih =>
      cases us with
      | nil => contradiction
      | cons u us =>
          obtain ⟨hhead, htail⟩ := List.cons.inj h
          have hline : t.start.line = u.start.line := congrArg (fun x => x.2.2) hhead
          rw [List.zip_cons_cons, List.filter_cons, List.filter_cons]
          simp only [hline]
          split
          · rw [List.map_cons, List.map_cons, ih htail, hhead]
          · exact ih htail

end Batch

/-- The batches of a text that does not end inside a literal hold its tokens, in order and on their
lines, save for those on separator lines and those of directives. The latter are found in the text
without comments, which has the same tokens, and none of them holds more than a `USE`, the name behind
it and what is read with the name. -/
theorem tokens_ofSource (source : String) (database : Option String)
    (h : (summary source.toList).finalState.isLiteral = false) :
    let clean := removeComments source
    (tokenize clean).map Token.onLine = (tokenize source).map Token.onLine ∧
      (Batch.ofSource source database).flatMap Batch.tokens =
        (((tokenize source).zip (tokenize clean)).filter fun (t, u) =>
          decide (t.start.line ∉ Batch.separators (maskComments source).toList) &&
            Batch.isOutside (Batch.directiveRanges clean.toList) u).map (fun (t, _) =>
              t.onLine) ∧
      ∀ r ∈ Batch.directiveRanges clean.toList, Batch.IsDirective clean.toList r := by
  intro clean
  have honLine := (tokenize_agrees_with_scan source).2.1
  obtain ⟨es, htext, hplaced⟩ := Elements.exists_placed source.toList
  -- no literal is without its end, so no trimming reaches into one
  have hends : ∀ e ∈ es, e.EndsSolid := by
    refine Elements.endsSolid_of_lastState hplaced ?_
    rw [htext]
    exact h
  have hclosed := Elements.Closed.of_blanks Element.blanks_cleaned hplaced hends
  have hclean : Scan.clean source.toList = Elements.text (es.flatMap Element.cleaned) := by
    rw [← htext, Elements.clean_text hplaced]
  have hcleanText : clean.toList = Elements.text (es.flatMap Element.cleaned) := by
    rw [← hclean]
    exact String.toList_ofList
  refine ⟨honLine, ?_, fun r hr => ?_⟩
  · have htokens : tokenize clean = Elements.tokensFrom .origin (es.flatMap Element.cleaned) := by
      rw [tokenize, tokenizeFrom, hcleanText, Elements.tokens_text hclosed.placed]
    rw [Batch.map_filter_zip honLine.symm, Batch.ofSource, hclean, Batch.flatMap_tokens hclosed,
      htokens, hcleanText, maskComments, String.toList_ofList, ← Batch.separators_clean_eq_mask,
      hclean]
  · rw [hcleanText] at hr ⊢
    exact Batch.isDirective_of_mem_directiveRanges hclosed hr

/-- A literal, a comment, a separator line and a directive with a `;` inside its brackets and one
behind them. Of nine tokens the batches keep four: the two on the separator line and the three of the
directive are left out. -/
theorem tokens_ofSource_directive :
    let source := "SELECT N'it''s' /* GO */\nGO 2\nUSE [a;b];SELECT 1"
    let clean := removeComments source
    (summary source.toList).finalState.isLiteral = false ∧
      ((Batch.ofSource source none).flatMap Batch.tokens =
        (((tokenize source).zip (tokenize clean)).filter fun (t, u) =>
          decide (t.start.line ∉ Batch.separators (maskComments source).toList) &&
            Batch.isOutside (Batch.directiveRanges clean.toList) u).map (fun (t, _) => t.onLine) ∧
        ∀ r ∈ Batch.directiveRanges clean.toList, Batch.IsDirective clean.toList r) ∧
      (tokenize source).map Token.onLine =
        [(.keyword .SELECT, "SELECT", 1), (.quoted, "N'it''s'", 1), (.keyword .GO, "GO", 2),
          (.number, "2", 2), (.keyword .USE, "USE", 3), (.bracketed, "a;b", 3),
          (.semicolon, ";", 3), (.keyword .SELECT, "SELECT", 3), (.number, "1", 3)] ∧
      Batch.directiveRanges clean.toList = [⟨⟨3, 1⟩, ⟨3, 11⟩⟩] ∧
      (Batch.ofSource source none).flatMap Batch.tokens =
        [(.keyword .SELECT, "SELECT", 1), (.quoted, "N'it''s'", 1), (.keyword .SELECT, "SELECT", 3),
          (.number, "1", 3)] := by
  intro source clean
  have hend : (summary source.toList).finalState.isLiteral = false := by decide +kernel
  exact ⟨hend, (tokens_ofSource source none hend).2, by decide +kernel, by decide +kernel,
    by decide +kernel⟩

end Tsql
