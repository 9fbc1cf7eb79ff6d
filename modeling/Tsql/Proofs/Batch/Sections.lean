import Tsql.Proofs.Batch.Numbering
import Tsql.Proofs.Batch.Segments
import Tsql.Proofs.Elements.Lexed

/-!
The tokens and the lexemes of the sections between separator lines.

A section is the text of some of the elements, and the sections together hold the tokens that are on
no separator line, all of them and in order (`exists_sections`). Their lexemes are those of the text,
with the ones of separator lines in between (`Divided`).
-/

namespace Tsql

open Text Scan

namespace Batch

open Elements
open Element (lineFeed)

/-- Every element moves on. -/
theorem eq_nil_of_advance {p : Position} {es : List Element} (h : p.advance (text es) = p) :
    es = [] := by
  cases es with
  | nil => rfl
  | cons e es =>
      have hlt : p < p.advance (text (e :: es)) :=
        Position.lt_of_lt_of_le (Position.lt_next p e.head) (Position.le_advance _ _)
      rw [h] at hlt
      exact absurd hlt (Position.lt_irrefl p)

/-- A section of a text with the elements that make it up. -/
structure Section where
  firstLine : Nat
  lines : List (List Char)
  elements : List Element
  code : Uncommented elements
  text_eq : joinLines lines = text elements

namespace Section

def numbered (s : Section) : Nat × List (List Char) :=
  (s.firstLine, s.lines)

def tokens (s : Section) : List Token :=
  tokensFrom ⟨s.firstLine, 1⟩ s.elements

def lexed (s : Section) : List Lexed :=
  lexedFrom s.firstLine none s.elements

/-- The number of the last line. -/
def lastLine (s : Section) : Nat :=
  s.firstLine + (text s.elements).count '\n'

/-- The section between two separators in a row. -/
def empty (firstLine : Nat) : Section :=
  ⟨firstLine, [], [], .nil, rfl⟩

theorem lexed_empty (firstLine : Nat) : (empty firstLine).lexed = [] := rfl

/-- A unit as a section of its own. -/
def ofUnit (firstLine : Nat) (g : List Element) (h : Uncommented g) : Section :=
  ⟨firstLine, Text.lines (text g), g, h, joinLines_lines _⟩

theorem joinLines_append (as : List (List Char)) {bs : List (List Char)} (ha : as ≠ [])
    (hb : bs ≠ []) : joinLines (as ++ bs) = joinLines as ++ '\n' :: joinLines bs := by
  induction as with
  | nil => contradiction
  | cons a as ih =>
      cases as with
      | nil =>
          cases bs with
          | nil => contradiction
          | cons b bs => simp [joinLines, joinWith]
      | cons a' as =>
          have ih := ih (List.cons_ne_nil a' as)
          simp only [joinLines, List.cons_append, joinWith] at ih ⊢
          rw [ih]
          simp

/-- No lines are no elements. -/
theorem elements_of_lines {s : Section} (h : s.lines = []) : s.elements = [] := by
  have htext := s.text_eq
  rw [h] at htext
  cases he : s.elements with
  | nil => rfl
  | cons e es => simp [he, Element.text, joinLines, joinWith] at htext

/-- The elements of the section stand between whole lines of a text whose first line has number `n`,
unless the section has no line. -/
def StandsIn (s : Section) (n : Nat) (es : List Element) : Prop :=
  s.lines = [] ∨ ∃ gs hs, es = gs ++ (s.elements ++ hs) ∧
    (Position.mk n 1).advance (text gs) = ⟨s.firstLine, 1⟩ ∧ (hs = [] ∨ hs.head? = some lineFeed)

theorem StandsIn.subset {s : Section} {n : Nat} {es : List Element} (h : s.StandsIn n es) :
    s.elements ⊆ es := by
  rcases h with hlines | ⟨gs, hs, rfl, -, -⟩
  · rw [elements_of_lines hlines]
    exact List.nil_subset es
  · exact fun e he => List.mem_append_right gs (List.mem_append_left hs he)

theorem StandsIn.append_lineFeed {s : Section} {n : Nat} {g es : List Element}
    (h : s.StandsIn (n + (text g).count '\n' + 1) es) : s.StandsIn n (g ++ lineFeed :: es) := by
  refine h.imp_right ?_
  rintro ⟨gs, hs, rfl, hstart, hend⟩
  refine ⟨g ++ lineFeed :: gs, hs, by simp, ?_, hend⟩
  rw [text_append, text_cons, Position.advance_append, Position.advance_append, advance_lineFeed,
    hstart]

/-- A section with a further unit in front of it. -/
theorem exists_cons {g es : List Element} (h : Uncommented (g ++ lineFeed :: es)) (n : Nat)
    (s : Section) (hs : s.firstLine = n + (text g).count '\n' + 1)
    (hstands : s.StandsIn (n + (text g).count '\n' + 1) es) :
    ∃ s' : Section, s'.numbered = (n, Text.lines (text g) ++ s.lines) ∧
      s'.tokens = tokensFrom ⟨n, 1⟩ g ++ s.tokens ∧ s'.lexed = lexedFrom n none g ++ s.lexed ∧
        s'.lastLine ≤ s.lastLine ∧ s'.StandsIn n (g ++ lineFeed :: es) := by
  by_cases hlines : s.lines = []
  · -- the unit alone is the new section
    have hnil := elements_of_lines hlines
    refine ⟨ofUnit n g h.left, ?_, ?_, ?_, ?_, .inr ⟨[], lineFeed :: es, rfl, rfl, .inr rfl⟩⟩
    · rw [hlines, List.append_nil]
      rfl
    · rw [tokens, tokens, hnil, tokensFrom, List.append_nil]
      rfl
    · rw [lexed, lexed, hnil, lexedFrom, List.append_nil]
      rfl
    · have hle : n + (text g).count '\n' ≤ s.firstLine := by omega
      exact Nat.le_trans hle (Nat.le_add_right _ _)
  · -- the line feed between the unit and the section is now inside the new section
    have hfront : Uncommented (g ++ lineFeed :: s.elements) := by
      have hblank : isBlank '\n' := by decide
      have hfeed : Uncommented (lineFeed :: s.elements) := .cons (.blank hblank) id s.code
      exact h.exchange hfeed (.inl rfl)
    have htext : joinLines (Text.lines (text g) ++ s.lines) =
        text (g ++ lineFeed :: s.elements) := by
      have hne : Text.lines (text g) ≠ [] := split_ne_nil _ _
      rw [joinLines_append _ hne hlines, joinLines_lines, s.text_eq, text_append]
      rfl
    -- nothing stands in front of the section, because it starts where the text does
    obtain ⟨gs, hs', rfl, hstart, hend⟩ := hstands.resolve_left hlines
    obtain rfl : gs = [] := eq_nil_of_advance (hstart.trans (by rw [hs]))
    refine ⟨⟨n, _, _, hfront, htext⟩, rfl, ?_, ?_, ?_, .inr ⟨[], hs', by simp, rfl, hend⟩⟩
    · rw [tokens, tokens, tokensFrom_append_lineFeed, hs]
    · rw [lexed, lexed, hs]
      exact lexedFrom_append_blank n none g '\n' s.elements
    · have hcount : (text (g ++ lineFeed :: s.elements)).count '\n' =
          (text g).count '\n' + ((text s.elements).count '\n' + 1) := by
        rw [text_append, List.count_append]
        simp [lineFeed, Element.text, Element.head, Element.tail]
      simp only [lastLine, hcount, hs]
      omega

end Section

theorem numberedSections_lines (n : Nat) (ls : List (List Char)) (ms : List (Bool × List Char)) :
    numberedSections n ((ls.map fun l => (false, l)) ++ ms) =
      (n, ls ++ (sections (n + ls.length) ms).1) :: (sections (n + ls.length) ms).2 := by
  induction ls generalizing n with
  | nil => rfl
  | cons l ls ih =>
      have ih := ih (n + 1)
      rw [numberedSections] at ih
      obtain ⟨hfirst, hothers⟩ := List.cons.inj ih
      have hlen : n + (l :: ls).length = n + 1 + ls.length := by
        rw [List.length_cons]
        omega
      rw [List.map_cons, List.cons_append, numberedSections_false, hothers, hlen,
        (Prod.mk.inj hfirst).2]
      rfl

/-- The tokens of a separator line are on that line. -/
theorem filter_of_separates {g : List Element} (h : Uncommented g) (hg : lineFeed ∉ g)
    (hs : separates (lexemes g)) {n : Nat} {ls : List Nat} (hl : n ∈ ls) :
    (tokensFrom ⟨n, 1⟩ g).filter (fun t => t.start.line ∉ ls) = [] := by
  have hcount := List.count_eq_zero.2 (notMem_text_of_separates h hg hs)
  rw [List.filter_eq_nil_iff]
  intro t ht
  have hlines := line_of_mem_tokensFrom ht
  have hline : t.start.line = n := by
    simp only at hlines
    omega
  simpa [hline] using hl

/-- The lines of a unit are in front of those of the next one. -/
theorem filter_of_later {g : List Element} {n : Nat} {ls : List Nat}
    (hl : ∀ l ∈ ls, n + (text g).count '\n' < l) :
    (tokensFrom ⟨n, 1⟩ g).filter (fun t => t.start.line ∉ ls) = tokensFrom ⟨n, 1⟩ g := by
  rw [List.filter_eq_self]
  intro t ht
  have hlines := line_of_mem_tokensFrom ht
  simp only [decide_eq_true_eq]
  intro hmem
  have hlt := hl _ hmem
  simp only at hlines
  omega

/-- The lexemes are those of the sections with those of separator lines in between. -/
inductive Divided : List Lexed → List Section → Prop
  | last (s : Section) : Divided s.lexed [s]
  | cons (s : Section) (line : Nat) {g : List Element} {ws : List Lexed} {ss : List Section}
      (code : Uncommented g) (separating : separates (lexemes g)) (behind : Divided ws ss) :
      Divided (s.lexed ++ (lexedFrom line none g ++ ws)) (s :: ss)

/-- Lexemes in front of the first section may be counted to it. -/
theorem Divided.prepend {us ws : List Lexed} {s s' : Section} {ss : List Section}
    (h : Divided ws (s :: ss)) (hs : s'.lexed = us ++ s.lexed) :
    Divided (us ++ ws) (s' :: ss) := by
  cases h with
  | last s => exact hs ▸ .last s'
  | cons s line code separating behind =>
      rw [← List.append_assoc, ← hs]
      exact .cons s' line code separating behind

/-- What holds of the sections of a text whose first line has number `n`. -/
structure SectionsOf (n : Nat) (es : List Element) (ss : List Section) : Prop where
  numbered : numberedSections n (markedLines (text es)) = ss.map Section.numbered
  tokens : (tokensFrom ⟨n, 1⟩ es).filter (fun t =>
    t.start.line ∉ separatorsFrom n (markedLines (text es))) = ss.flatMap Section.tokens
  ordered : ss.Pairwise fun a b => a.lastLine < b.firstLine
  divided : Divided (lexedFrom n none es) ss
  stands : ∀ s ∈ ss, s.StandsIn n es

namespace SectionsOf

theorem le_firstLine {n : Nat} {es : List Element} {ss : List Section} (h : SectionsOf n es ss)
    {s : Section} (hs : s ∈ ss) : n ≤ s.firstLine := by
  have hmem : s.numbered ∈ numberedSections n (markedLines (text es)) := by
    rw [h.numbered]
    exact List.mem_map.2 ⟨s, hs, rfl⟩
  exact (mem_of_mem_numberedSections hmem).1

theorem exists_unit {g : List Element} (h : Uncommented g) (hg : lineFeed ∉ g) (n : Nat) :
    ∃ ss, SectionsOf n g ss := by
  have hmarked : markedLines (text g) = unitLines (text g) := markedLines_unit h hg
  have hseparators := separatorsFrom_unit h hg n
  rw [← hmarked] at hseparators
  by_cases hs : separates (lexemes g)
  · have hlines := unitLines_eq h hg
    rw [if_pos hs, ← hmarked] at hlines
    rw [if_pos hs] at hseparators
    refine ⟨[.empty n, .empty (n + 1)], ?_, ?_, ?_, ?_, ?_⟩
    · rw [hlines]
      rfl
    · rw [hseparators, filter_of_separates h hg hs List.mem_cons_self]
      rfl
    · simp [Section.lastLine, Section.empty]
    · have hdivided := Divided.cons (.empty n) n h hs (.last (.empty (n + 1)))
      rwa [Section.lexed_empty, Section.lexed_empty, List.nil_append, List.append_nil] at hdivided
    · simp [Section.StandsIn, Section.empty]
  · have hlines := unitLines_eq h hg
    rw [if_neg hs, ← hmarked] at hlines
    rw [if_neg hs] at hseparators
    refine ⟨[.ofUnit n g h], ?_, ?_, List.pairwise_singleton _ _, .last (.ofUnit n g h), ?_⟩
    · have hsections := numberedSections_lines n (lines (text g)) []
      rw [List.append_nil] at hsections
      rw [hlines, hsections]
      simp [sections, Section.numbered, Section.ofUnit]
    · rw [hseparators, filter_of_later (by simp)]
      simp [Section.tokens, Section.ofUnit]
    · exact List.forall_mem_singleton.2 (.inr ⟨[], [], by simp [Section.ofUnit], rfl, .inl rfl⟩)

/-- A separator in front of sections leaves an empty section in front of it. -/
theorem exists_append_separator {g es : List Element} (h : Uncommented (g ++ lineFeed :: es))
    (hg : lineFeed ∉ g) (hs : separates (lexemes g)) {n : Nat} {ss : List Section}
    (hss : SectionsOf (n + (text g).count '\n' + 1) es ss) :
    ∃ ss', SectionsOf n (g ++ lineFeed :: es) ss' := by
  have hlines := unitLines_eq h.left hg
  have hmarked := markedLines_append h hg
  have hseparators := separatorsFrom_markedLines_append h hg n
  have hcount := List.count_eq_zero.2 (notMem_text_of_separates h.left hg hs)
  rw [if_pos hs] at hlines hseparators
  rw [← count_text h.left hg, ← Nat.add_assoc, hcount, Nat.add_zero] at hseparators
  have hstands : ∀ s ∈ ss, s.StandsIn n (g ++ lineFeed :: es) := fun s hs =>
    (hss.stands s hs).append_lineFeed
  rw [hcount, Nat.add_zero] at hss
  refine ⟨.empty n :: ss, ?_, ?_, ?_, ?_, ?_⟩
  · rw [hmarked, hlines, List.singleton_append, numberedSections_true, hss.numbered]
    rfl
  · have hrest : (tokensFrom ⟨n + 1, 1⟩ es).filter (fun t =>
        t.start.line ∉ n :: separatorsFrom (n + 1) (markedLines (text es))) =
          ss.flatMap Section.tokens := by
      rw [← hss.tokens]
      refine List.filter_congr fun t ht => ?_
      have hle := (line_of_mem_tokensFrom ht).1
      -- the separator on line `n` takes no token from the later lines
      have hne : t.start.line ≠ n := Nat.ne_of_gt hle
      simp [hne]
    rw [hseparators, tokensFrom_append_lineFeed, List.filter_append, hcount, List.singleton_append,
      filter_of_separates h.left hg hs List.mem_cons_self]
    exact hrest
  · exact List.pairwise_cons.2 ⟨fun s hs => hss.le_firstLine hs, hss.ordered⟩
  · have hdivided := Divided.cons (.empty n) n h.left hs hss.divided
    rw [lineFeed, lexedFrom_append_blank, hcount]
    exact hdivided
  · exact List.forall_mem_cons.2 ⟨.inl rfl, hstands⟩

/-- Other lines in front of sections belong to the first of them. -/
theorem exists_append_lines {g es : List Element} (h : Uncommented (g ++ lineFeed :: es))
    (hg : lineFeed ∉ g) (hs : ¬ separates (lexemes g)) {n : Nat} {ss : List Section}
    (hss : SectionsOf (n + (text g).count '\n' + 1) es ss) :
    ∃ ss', SectionsOf n (g ++ lineFeed :: es) ss' := by
  have hlines := unitLines_eq h.left hg
  have hmarked := markedLines_append h hg
  have hseparators := separatorsFrom_markedLines_append h hg n
  rw [if_neg hs] at hlines hseparators
  rw [← count_text h.left hg, ← Nat.add_assoc] at hseparators
  have hlater : ∀ l ∈ separatorsFrom (n + (text g).count '\n' + 1) (markedLines (text es)),
      n + (text g).count '\n' < l := fun l hl => (le_of_mem_separatorsFrom hl).1
  have hnumbered := hss.numbered
  rw [numberedSections] at hnumbered
  cases ss with
  | nil => contradiction
  | cons s ss =>
      obtain ⟨hs, hss'⟩ := List.cons.inj hnumbered
      obtain ⟨hfirst, hsLines⟩ := Prod.mk.inj hs
      obtain ⟨hstands, hlaterStands⟩ := List.forall_mem_cons.1 hss.stands
      obtain ⟨s', hs', htokens, hlexed, hlast, hstands'⟩ :=
        Section.exists_cons h n s hfirst.symm hstands
      have hlen : n + (lines (text g)).length = n + (text g).count '\n' + 1 := by
        rw [length_lines, Nat.add_assoc]
      refine ⟨s' :: ss, ?_, ?_, ?_, ?_, ?_⟩
      · rw [hmarked, hlines, numberedSections_lines, hlen, List.map_cons, hs', hsLines, hss']
      · rw [hseparators, List.nil_append, tokensFrom_append_lineFeed, List.filter_append,
          filter_of_later hlater, hss.tokens, List.flatMap_cons, List.flatMap_cons, htokens,
          List.append_assoc]
      · obtain ⟨hlt, hordered⟩ := List.pairwise_cons.1 hss.ordered
        exact List.pairwise_cons.2 ⟨fun t ht => Nat.lt_of_le_of_lt hlast (hlt t ht), hordered⟩
      · rw [lineFeed, lexedFrom_append_blank]
        exact hss.divided.prepend hlexed
      · exact List.forall_mem_cons.2 ⟨hstands', fun t ht => (hlaterStands t ht).append_lineFeed⟩

end SectionsOf

/-- Every text without comments is cut into sections with its tokens. -/
theorem exists_sections {es : List Element} (h : Uncommented es) (n : Nat) :
    ∃ ss, SectionsOf n es ss := by
  induction es using induction_lineFeed generalizing n with
  | last g hg => exact SectionsOf.exists_unit h hg n
  | line g es hg ih =>
      obtain ⟨ss, hss⟩ := ih h.right.tail (n + (text g).count '\n' + 1)
      by_cases hs : separates (lexemes g)
      · exact SectionsOf.exists_append_separator h hg hs hss
      · exact SectionsOf.exists_append_lines h hg hs hss

end Batch

end Tsql
