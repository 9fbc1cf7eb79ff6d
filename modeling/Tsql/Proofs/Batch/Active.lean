import Tsql.Proofs.Batch.Lines
import Tsql.Proofs.Batch.Sections
import Tsql.Proofs.Batch.Trimmed

/-!
The database that is active in a batch.

A batch has the database of the last directive in front of it (`Batch.exists_active`). Where it is
clear how each `USE` is meant, the directives of all sections are the plain uses among the lexemes of
the text (`Batch.upTo_directiveSelections`).
-/

namespace Tsql

open Text Scan

/-! ### Lexemes of several parts -/

theorem UsesClear.left {separators : List Nat} {last : Nat} {us ws : List Lexed}
    (h : UsesClear separators last (us ++ ws)) : UsesClear separators last us := by
  induction us with
  | nil => trivial
  | cons u us ih =>
      refine ⟨fun huse hline => ⟨(h.1 huse hline).1, fun n hn => ?_⟩, ih h.2⟩
      obtain ⟨rest, rfl⟩ := List.head?_eq_some_iff.1 hn
      exact (h.1 huse hline).2 n rfl

namespace Batch

open Elements

/-! ### Separator lines -/

/-- The lexemes of a separator line are the word `GO` and a number. -/
theorem kind_of_separates {g : List Element} (h : Uncommented g) (hs : separates (lexemes g))
    {k : TokenKind} {c : Char} {tail : List Char} (hmem : .lexeme k c tail ∈ g) :
    k = .keyword .GO ∨ k = .number := by
  have hlexeme : c :: tail ∈ lexemes g := List.mem_filterMap.2 ⟨_, hmem, rfl⟩
  have hword := wordlike_of_separates hs (ne_nil_of_mem_lexemes g) _ hlexeme
  obtain ⟨front, back, rfl⟩ := List.append_of_mem hmem
  have hspelled : sameFolded (c :: tail) ['G', 'O'] ∨ (c :: tail).all Char.isDigit := by
    generalize lexemes (front ++ .lexeme k c tail :: back) = ws at hs hlexeme
    unfold separates at hs
    split at hs
    · rw [List.mem_singleton.1 hlexeme]
      exact .inl hs
    · rw [Bool.and_eq_true] at hs
      rcases List.mem_cons.1 hlexeme with heq | hlexeme
      · exact .inl (heq ▸ hs.1)
      · rw [List.mem_singleton.1 hlexeme]
        exact .inr hs.2
    · contradiction
  cases h.right.plain with
  | lexeme solid code lexes =>
      rw [Element.kind_of_wordlike lexes hword]
      rcases hspelled with hgo | hdigits
      · exact .inl (Lexer.wordKind_eq_keyword (k := .GO) hgo)
      · rw [List.all_cons, Bool.and_eq_true] at hdigits
        exact .inr (by rw [Lexer.wordKind, if_pos hdigits.1, if_pos hdigits.2])

theorem lexedFrom_ne_nil {g : List Element} (h : separates (lexemes g)) (line : Nat)
    (before : Option Char) : lexedFrom line before g ≠ [] := by
  have hne := lexemes_ne_nil_of_separates h
  clear h
  induction g generalizing line before with
  | nil => contradiction
  | cons e g ih =>
      cases e with
      | lexeme k c tail => exact List.cons_ne_nil _ _
      | blank c => exact ih _ _ hne
      | lineComment body => exact ih _ _ hne
      | blockComment body => exact ih _ _ hne

theorem of_mem_separator {g : List Element} (h : Uncommented g) (hs : separates (lexemes g))
    {line : Nat} {before : Option Char} {w : Lexed} (hw : w ∈ lexedFrom line before g) :
    Lexed.uses.isUse w = false ∧ Lexed.uses.name? w = none := by
  have hkind := kind_of_separates h hs (mem_of_mem_lexedFrom hw)
  rcases hkind with hkind | hkind
  · simp [Lexed.uses, Lexed.isUse, Lexed.IsPlainName, hkind]
  · simp [Lexed.uses, Lexed.isUse, Lexed.IsPlainName, hkind]

namespace Divided

variable {ws : List Lexed} {ss : List Section}

/-- The lexemes of separator lines select nothing. -/
theorem selections_eq (h : Divided ws ss) :
    Lexed.uses.selections ws = ss.flatMap fun s => Lexed.uses.selections s.lexed := by
  induction h with
  | last s => exact (List.flatMap_singleton ..).symm
  | @cons s line g ws ss code separating behind ih =>
      have hnone := fun w (hw : w ∈ lexedFrom line none g) => of_mem_separator code separating hw
      obtain ⟨w, rest, hg⟩ := List.exists_cons_of_ne_nil (lexedFrom_ne_nil separating line none)
      rw [UseReader.selections_append,
        UseReader.selections_append_of_not_isUse fun w hw => (hnone w hw).1, ih, List.flatMap_cons]
      rw [hg]
      rintro n ⟨⟩
      exact (hnone w (hg ▸ List.mem_cons_self)).2

theorem usesClear (h : Divided ws ss) {separators : List Nat} {last : Nat}
    (hclear : UsesClear separators last ws) : ∀ s ∈ ss, UsesClear separators last s.lexed := by
  induction h with
  | last s => exact List.forall_mem_singleton.2 hclear
  | @cons s line g ws ss code separating behind ih =>
      refine List.forall_mem_cons.2 ⟨hclear.left, ih ?_⟩
      rw [← List.append_assoc] at hclear
      exact hclear.of_suffix (List.suffix_append _ _)

end Divided

/-! ### Sections -/

/-- The databases that the directives of a text select, where its first character stands on the
given line. -/
def directiveSelections (line : Nat) (cs : List Char) : List Selection :=
  selectionsIn line none (marked cs)

theorem directiveSelections_nil (line : Nat) : directiveSelections line [] = [] :=
  selectionsIn_nil line none

theorem exists_trimEnd_append (cs : List Char) :
    ∃ trailing, cs = trimEnd cs ++ trailing ∧ ∀ d ∈ trailing, isBlank d := by
  refine ⟨(cs.reverse.takeWhile isBlank).reverse, ?_, fun d hd => ?_⟩
  · rw [trimEnd, ← List.reverse_append, List.takeWhile_append_dropWhile, List.reverse_reverse]
  · exact List.all_eq_true.1 List.all_takeWhile d (List.mem_reverse.1 hd)

/-- The directives of a section are its plain uses. -/
theorem upTo_section (s : Section) {separators : List Nat} {last : Nat}
    (hclear : UsesClear separators last s.lexed) (hoff : ∀ w ∈ s.lexed, w.line ∉ separators) :
    upTo last (ofTrimmed directiveSelections s.firstLine s.lines) =
      upTo last (Lexed.uses.selections s.lexed) := by
  obtain ⟨as, bs, helements, hblank, hlead, htrim⟩ := exists_trimStart s.code
  have hcode : Uncommented bs := (helements ▸ s.code).right
  have hlexed : s.lexed = lexedFrom (s.firstLine + (text as).count '\n') none bs := by
    rw [Section.lexed, helements, hblank.lexedFrom_append]
  obtain ⟨trailing, htrailing, hblanks⟩ := exists_trimEnd_append (trimStart (text s.elements))
  obtain ⟨ms, hms, hmsBlank⟩ :=
    exists_marked_append_blanks (trim (text s.elements)) hblanks
  rw [hlexed] at hclear hoff ⊢
  rw [ofTrimmed, directiveSelections, s.text_eq, ← selectionsIn_append_blanks hmsBlank, ← hms, trim,
    ← htrailing, ← htrim, hcode.marked_text, ← hlead]
  exact selectionsIn_marked hcode rfl hclear hoff

/-- Where it is clear what each `USE` selects, the directives of all sections are the plain uses of
the text. -/
theorem upTo_directiveSelections {es : List Element} (h : Uncommented es) {last : Nat}
    (hclear : UsesClear (separators (text es)) last (lexedFrom 1 none es)) :
    upTo last ((slices (text es)).flatMap fun s => directiveSelections s.startLine s.sql) =
      upTo last (Lexed.uses.selections (lexedFrom 1 none es)) := by
  obtain ⟨ss, hss⟩ := exists_sections h 1
  have hoff : ∀ s ∈ ss, ∀ w ∈ s.lexed, w.line ∉ separators (text es) := by
    intro s hs w hw
    have honLine := map_onLine_lexedFrom ⟨s.firstLine, 1⟩ none s.elements
    have hmem : w.onLine ∈ (tokensFrom ⟨s.firstLine, 1⟩ s.elements).map Token.onLine := by
      rw [← honLine]
      exact List.mem_map.2 ⟨w, hw, rfl⟩
    obtain ⟨t, ht, heq⟩ := List.mem_map.1 hmem
    have hline : t.start.line = w.line := congrArg (fun x => x.2.2) heq
    have hfilter : t ∈ ss.flatMap Section.tokens := List.mem_flatMap.2 ⟨s, hs, ht⟩
    rw [← hss.tokens] at hfilter
    rw [← hline]
    exact of_decide_eq_true (List.mem_filter.1 hfilter).2
  have hsections := hss.divided.usesClear hclear
  rw [flatMap_slices directiveSelections_nil, hss.numbered, List.flatMap_map,
    hss.divided.selections_eq, upTo, upTo, List.filter_flatMap, List.filter_flatMap]
  exact List.flatMap_congr fun s hs => upTo_section s (hsections s hs) (hoff s hs)

/-! ### Batches -/

/-- The database that is active behind selections. -/
def activeIn (database : Option String) (us : List Selection) : Option String :=
  (us.getLast?.map Selection.database).or database

theorem activeIn_append (database : Option String) (us vs : List Selection) :
    activeIn database (us ++ vs) = activeIn (activeIn database us) vs := by
  unfold activeIn
  rw [List.getLast?_append]
  cases vs.getLast? <;> rfl

/-- The line of the last character. -/
def lastLine (b : Batch) : Nat :=
  b.startLine + b.sql.toList.count '\n'

/-- The batches and the selections from line `low` to line `high`. -/
structure Threaded (low high : Nat) (database : Option String) (us : List Selection)
    (bs : List Batch) : Prop where
  lines : ∀ u ∈ us, low ≤ u.line ∧ u.line ≤ high
  batchLines : ∀ b ∈ bs, low ≤ b.startLine ∧ b.lastLine ≤ high
  active : ∀ b ∈ bs, ∃ front back, us = front ++ back ∧ b.database = activeIn database front ∧
    (∀ u ∈ front, u.line ≤ b.startLine) ∧ ∀ u ∈ back, b.lastLine ≤ u.line

namespace Threaded

variable {low middle high : Nat} {database : Option String} {us vs : List Selection}
  {bs cs : List Batch}

theorem nil : Threaded low high database [] [] :=
  ⟨List.forall_mem_nil _, List.forall_mem_nil _, List.forall_mem_nil _⟩

/-- Selections with no batch, or one batch, behind them. -/
theorem of_batch {b? : Option Batch} (hus : ∀ u ∈ us, low ≤ u.line ∧ u.line ≤ high)
    (hb : ∀ b ∈ b?, low ≤ b.startLine ∧ b.lastLine ≤ high ∧ b.database = activeIn database us ∧
      ∀ u ∈ us, u.line ≤ b.startLine) : Threaded low high database us b?.toList where
  lines := hus
  batchLines b h := by
    obtain ⟨hlow, hhigh, -⟩ := hb b (Option.mem_toList.1 h)
    exact ⟨hlow, hhigh⟩
  active b h := by
    obtain ⟨-, -, hdatabase, hlines⟩ := hb b (Option.mem_toList.1 h)
    exact ⟨us, [], (List.append_nil us).symm, hdatabase, hlines, List.forall_mem_nil _⟩

theorem mono (h : Threaded middle high database us bs) (hlow : low ≤ middle) :
    Threaded low high database us bs where
  lines u hu := ⟨Nat.le_trans hlow (h.lines u hu).1, (h.lines u hu).2⟩
  batchLines b hb := ⟨Nat.le_trans hlow (h.batchLines b hb).1, (h.batchLines b hb).2⟩
  active := h.active

theorem append (h : Threaded low middle database us bs)
    (h' : Threaded middle high (activeIn database us) vs cs) (hlow : low ≤ middle)
    (hhigh : middle ≤ high) : Threaded low high database (us ++ vs) (bs ++ cs) where
  lines u hu := by
    rcases List.mem_append.1 hu with hu | hu
    · exact ⟨(h.lines u hu).1, Nat.le_trans (h.lines u hu).2 hhigh⟩
    · exact ⟨Nat.le_trans hlow (h'.lines u hu).1, (h'.lines u hu).2⟩
  batchLines b hb := by
    rcases List.mem_append.1 hb with hb | hb
    · exact ⟨(h.batchLines b hb).1, Nat.le_trans (h.batchLines b hb).2 hhigh⟩
    · exact ⟨Nat.le_trans hlow (h'.batchLines b hb).1, (h'.batchLines b hb).2⟩
  active b hb := by
    rcases List.mem_append.1 hb with hb | hb
    · obtain ⟨front, back, rfl, hdatabase, hfront, hback⟩ := h.active b hb
      refine ⟨front, back ++ vs, List.append_assoc .., hdatabase, hfront, fun u hu => ?_⟩
      rcases List.mem_append.1 hu with hu | hu
      · exact hback u hu
      · exact Nat.le_trans (h.batchLines b hb).2 (h'.lines u hu).1
    · obtain ⟨front, back, rfl, hdatabase, hfront, hback⟩ := h'.active b hb
      refine ⟨us ++ front, back, (List.append_assoc ..).symm, ?_, fun u hu => ?_, hback⟩
      · rw [hdatabase, activeIn_append]
      · rcases List.mem_append.1 hu with hu | hu
        · exact Nat.le_trans (h.lines u hu).2 (h'.batchLines b hb).1
        · exact hfront u hu

end Threaded

/-- The batch of a segment; a blank one has none. -/
def ofSegment? (slice : Slice) (current : Option String) (s : Segment) : Option Batch :=
  if s.sql.isEmpty then none
  else some ⟨current, s.sql, s.hasUse, slice.number, slice.startLine + s.lineOffset⟩

theorem ofSegments_cons (slice : Slice) (database : Option String) (s : Segment)
    (ss : List Segment) :
    let current := if s.hasUse then s.database else database
    ofSegments slice database (s :: ss) =
      ((ofSegment? slice current s).toList ++ (ofSegments slice current ss).1,
        (ofSegments slice current ss).2) := by
  simp only [ofSegments, ofSegment?]
  split <;> rfl

theorem count_trim_le (cs : List Char) :
    (leadingBlanks cs).count '\n' + (trim cs).count '\n' ≤ cs.count '\n' := by
  obtain ⟨trailing, htrim⟩ := exists_trim cs
  have hcount := congrArg (List.count '\n') htrim
  rw [List.count_append, List.count_append] at hcount
  omega

/-- The batch of a segment stands in the lines of its text. -/
theorem lines_of_ofSegment? {slice : Slice} {current : Option String} {found : Option (List Char)}
    {before : Nat} {cs : List Char} {b : Batch}
    (h : b ∈ ofSegment? slice current (.ofText found before cs)) :
    slice.startLine + before ≤ b.startLine ∧
      b.lastLine ≤ slice.startLine + before + cs.count '\n' ∧ b.database = current := by
  unfold ofSegment? at h
  split at h
  · contradiction
  · obtain rfl := Option.some.inj h
    have hle := count_trim_le cs
    simp only [lastLine, Segment.ofText, String.toList_ofList]
    exact ⟨by omega, by omega, trivial⟩

theorem threaded_segmentsFrom (slice : Slice) (before : Nat) (database : Option String)
    (ds : List (Directive × List Char)) :
    let us := selectionsBehind (slice.startLine + before) ds
    Threaded (slice.startLine + before)
        (slice.startLine + before + (ds.flatMap fun d => d.1.text ++ d.2).count '\n') database us
        (ofSegments slice database (segmentsFrom before ds)).1 ∧
      (ofSegments slice database (segmentsFrom before ds)).2 = activeIn database us := by
  induction ds generalizing before database with
  | nil => exact ⟨.nil, rfl⟩
  | cons d ds ih =>
      obtain ⟨d, cs⟩ := d
      have hstart : slice.startLine + before + d.text.count '\n' + cs.count '\n' =
          slice.startLine + (before + d.text.count '\n' + cs.count '\n') := by omega
      have hhigh : slice.startLine + before +
          (((d, cs) :: ds).flatMap fun d => d.1.text ++ d.2).count '\n' =
            slice.startLine + (before + d.text.count '\n' + cs.count '\n') +
              (ds.flatMap fun d => d.1.text ++ d.2).count '\n' := by
        rw [List.flatMap_cons, List.count_append, List.count_append]
        simp only
        omega
      obtain ⟨hthreaded, hactive⟩ := ih (before + d.text.count '\n' + cs.count '\n')
        (some (String.ofList d.database))
      have hdirective : Threaded (slice.startLine + before)
          (slice.startLine + (before + d.text.count '\n' + cs.count '\n')) database
          [⟨slice.startLine + before, String.ofList d.database⟩]
          (ofSegment? slice (some (String.ofList d.database))
            (.ofText (some d.database) (before + d.text.count '\n') cs)).toList := by
        refine .of_batch (List.forall_mem_singleton.2 ⟨Nat.le_refl _, by simp only; omega⟩) ?_
        intro b hb
        obtain ⟨hlow, hlast, hdatabase⟩ := lines_of_ofSegment? hb
        refine ⟨by omega, by omega, hdatabase, List.forall_mem_singleton.2 ?_⟩
        simp only
        omega
      have hbehind := activeIn_append database
        [⟨slice.startLine + before, String.ofList d.database⟩] (selectionsBehind
          (slice.startLine + (before + d.text.count '\n' + cs.count '\n')) ds)
      rw [selectionsBehind, hstart, hhigh, segmentsFrom, ofSegments_cons]
      exact ⟨hdirective.append hthreaded (by omega) (by omega), hactive.trans hbehind.symm⟩

theorem ofSegments_opening (slice : Slice) (database : Option String) (cs : List Char)
    (ss : List Segment) :
    let opening := Segment.ofText none 0 cs
    ofSegments slice database ((if opening.sql.isEmpty then [] else [opening]) ++ ss) =
      ((ofSegment? slice database opening).toList ++ (ofSegments slice database ss).1,
        (ofSegments slice database ss).2) := by
  intro opening
  by_cases hempty : opening.sql.isEmpty
  · rw [if_pos hempty, ofSegment?, if_pos hempty]
    rfl
  · rw [if_neg hempty]
    exact ofSegments_cons slice database opening ss

/-- The batches of a slice have the databases of the directives in it. -/
theorem threaded_segments (slice : Slice) (database : Option String) :
    let us := directiveSelections slice.startLine slice.sql
    Threaded slice.startLine (slice.startLine + slice.sql.count '\n') database us
        (ofSegments slice database (segments slice.sql)).1 ∧
      (ofSegments slice database (segments slice.sql)).2 = activeIn database us := by
  have hflat := flatten_directives none (marked slice.sql)
  rw [map_fst_marked] at hflat
  have hcount := congrArg (List.count '\n') hflat
  rw [List.count_append] at hcount
  simp only [directiveSelections, selectionsIn, segments, ofSegments_opening]
  generalize directives none (marked slice.sql) = found at hcount
  obtain ⟨first, ds⟩ := found
  simp only at hcount
  obtain ⟨hthreaded, hactive⟩ := threaded_segmentsFrom slice (first.count '\n') database ds
  have hopening : Threaded slice.startLine (slice.startLine + first.count '\n') database []
      (ofSegment? slice database (.ofText none 0 first)).toList := by
    refine .of_batch (List.forall_mem_nil _) fun b hb => ?_
    obtain ⟨hlow, hlast, hdatabase⟩ := lines_of_ofSegment? hb
    exact ⟨hlow, hlast, hdatabase, List.forall_mem_nil _⟩
  rw [← hcount, ← Nat.add_assoc]
  exact ⟨hopening.append hthreaded (Nat.le_add_right _ _) (Nat.le_add_right _ _), hactive⟩

/-! ### Slices -/

theorem threaded_slices {ss : List Slice} {low high : Nat} (database : Option String)
    (hordered : ss.Pairwise fun a b => a.startLine + a.sql.count '\n' ≤ b.startLine)
    (hlow : ∀ s ∈ ss, low ≤ s.startLine) (hhigh : ∀ s ∈ ss, s.startLine + s.sql.count '\n' ≤ high) :
    Threaded low high database (ss.flatMap fun s => directiveSelections s.startLine s.sql)
      (ofSlices database ss) := by
  induction ss generalizing low database with
  | nil => exact .nil
  | cons s ss ih =>
      obtain ⟨hs, hss⟩ := List.pairwise_cons.1 hordered
      obtain ⟨hslow, -⟩ := List.forall_mem_cons.1 hlow
      obtain ⟨hshigh, hsshigh⟩ := List.forall_mem_cons.1 hhigh
      obtain ⟨hthreaded, hactive⟩ := threaded_segments s database
      have hbehind := ih (activeIn database (directiveSelections s.startLine s.sql)) hss hs hsshigh
      have hall := hthreaded.append hbehind (Nat.le_add_right _ _) hshigh
      have hslices : ofSlices database (s :: ss) = (ofSegments s database (segments s.sql)).1 ++
          ofSlices (ofSegments s database (segments s.sql)).2 ss := rfl
      rw [hslices, List.flatMap_cons, hactive]
      exact hall.mono hslow

theorem pairwise_slices {es : List Element} (h : Uncommented es) :
    (slices (text es)).Pairwise fun a b => a.startLine + a.sql.count '\n' ≤ b.startLine := by
  obtain ⟨ss, hss⟩ := exists_sections h 1
  have hordered : (numberedSections 1 (markedLines (text es))).Pairwise fun a b =>
      a.1 + (joinLines a.2).count '\n' ≤ b.1 := by
    rw [hss.numbered, List.pairwise_map]
    refine hss.ordered.imp fun {a b} hlt => ?_
    have htext := a.text_eq
    rw [Section.lastLine, ← htext] at hlt
    exact Nat.le_of_lt hlt
  unfold slices
  rw [numberedSections] at hordered
  split
  · exact List.pairwise_singleton _ _
  · next first others _ heq =>
    rw [heq] at hordered
    have hnumbered : (((1, first) :: others).zipIdx).Pairwise fun a b =>
        a.1.1 + (joinLines a.1.2).count '\n' ≤ b.1.1 := by
      rw [← List.zipIdx_map_fst 0 ((1, first) :: others), List.pairwise_map] at hordered
      exact hordered
    refine hnumbered.filterMap _ ?_
    rintro ⟨⟨n, ls⟩, i⟩ ⟨⟨m, ls'⟩, j⟩ hlines s hs s' hs'
    obtain ⟨hsql, -, -, hstart⟩ := ofLines?_eq_some hs
    obtain ⟨-, -, -, hstart'⟩ := ofLines?_eq_some hs'
    have hle := count_trim_le (joinLines ls)
    rw [hsql, hstart, hstart']
    simp only at hlines
    omega

/-- A batch has the database of the last directive in front of it. -/
theorem exists_active {es : List Element} (h : Uncommented es) {database : Option String} {b : Batch}
    (hb : b ∈ ofSlices database (slices (text es))) :
    ∃ front back, ((slices (text es)).flatMap fun s => directiveSelections s.startLine s.sql) =
        front ++ back ∧ b.database = activeIn database front ∧
      (∀ u ∈ front, u.line ≤ b.startLine) ∧ ∀ u ∈ back, b.lastLine ≤ u.line := by
  have hhigh : ∀ s ∈ slices (text es), s.startLine + s.sql.count '\n' ≤
      ((slices (text es)).map fun s => s.startLine + s.sql.count '\n').sum := fun s hs =>
    List.le_sum_of_mem (List.mem_map.2 ⟨s, hs, rfl⟩)
  have hall : Threaded 0 _ database _ (ofSlices database (slices (text es))) :=
    threaded_slices database (pairwise_slices h) (fun s _ => Nat.zero_le _) hhigh
  exact hall.active b hb

end Batch

end Tsql
