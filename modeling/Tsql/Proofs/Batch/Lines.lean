import Tsql.Proofs.Batch.Separator

/-!
The numbers of the separator lines, unit by unit, and why they are the same in the text without
comments and in the text with masked comments.

There is a token on each of these lines (`exists_token_of_separator`), and none of the tokens there
is a name in brackets or a dot (`notMem_separators_of_isInner`).
-/

namespace Tsql

/-! ### Numbers of lines -/

section

open Text Scan

/-- Whether the element is a lexeme or a line feed outside literals. -/
def Element.isSolid : Element → Bool
  | lexeme _ _ _ => true
  | blank c => c = '\n'
  | _ => false

namespace Elements

open Element (lineFeed)

/-- The line feeds in a unit are those of its lexemes. -/
theorem count_text {g : List Element} (h : Uncommented g) (hg : lineFeed ∉ g) :
    (text g).count '\n' = (lexemes g).flatten.count '\n' := by
  induction g with
  | nil => rfl
  | cons e g ih =>
      obtain ⟨he, hg⟩ := not_or.1 fun h' => hg (List.mem_cons.2 h')
      have ih := ih h.tail hg
      cases h.plain with
      | @blank c _ solid =>
          have hc : c ≠ '\n' := fun heq => he (by rw [heq]; rfl)
          have htext : text (.blank c :: g) = c :: text g := rfl
          have hlex : lexemes (.blank c :: g) = lexemes g := rfl
          rw [htext, hlex, List.count_cons_of_ne hc, ih]
      | @lexeme k c tail =>
          rw [text_cons, lexemes_lexeme, List.count_append, List.flatten_cons, List.count_append,
            ih]
          rfl

/-! ### Elements that are not mere blanks -/

/-- The elements without the blanks that are no line feeds. -/
def skeleton (es : List Element) : List Element :=
  es.filter Element.isSolid

theorem lexemes_skeleton (es : List Element) : lexemes (skeleton es) = lexemes es := by
  rw [lexemes, skeleton, List.filterMap_filter, lexemes]
  congr 1
  funext e
  cases e <;> simp [Element.isSolid, Element.lexeme?]

theorem skeleton_append (es fs : List Element) : skeleton (es ++ fs) = skeleton es ++ skeleton fs :=
  List.filter_append es fs

theorem lineFeed_mem_skeleton {es : List Element} : lineFeed ∈ skeleton es ↔ lineFeed ∈ es := by
  rw [skeleton, List.mem_filter]
  exact and_iff_left rfl

/-- The parts in front of and behind the first line feed. -/
theorem append_lineFeed_inj {as as' bs bs' : List Element} (ha : lineFeed ∉ as)
    (ha' : lineFeed ∉ as') (h : as ++ lineFeed :: bs = as' ++ lineFeed :: bs') :
    as = as' ∧ bs = bs' := by
  induction as generalizing as' with
  | nil =>
      cases as' with
      | nil => exact ⟨rfl, (List.cons.inj h).2⟩
      | cons a' as' => exact absurd ((List.cons.inj h).1 ▸ List.mem_cons_self) ha'
  | cons a as ih =>
      cases as' with
      | nil => exact absurd ((List.cons.inj h).1 ▸ List.mem_cons_self) ha
      | cons a' as' =>
          obtain ⟨rfl, htail⟩ := List.cons.inj h
          obtain ⟨rfl, rfl⟩ := ih (fun hmem => ha (List.mem_cons_of_mem a hmem))
            (fun hmem => ha' (List.mem_cons_of_mem a hmem)) htail
          exact ⟨rfl, rfl⟩

theorem skeleton_masked_eq_cleaned (es : List Element) :
    skeleton (es.flatMap Element.masked) = skeleton (es.flatMap Element.cleaned) := by
  rw [skeleton, skeleton, List.filter_flatMap, List.filter_flatMap]
  congr 1
  funext e
  -- of a comment both leave its line feeds, and beside them only blanks
  have hblanks : ∀ cs : List Char, (cs.map Element.blank).filter Element.isSolid =
      (cs.filter (· = '\n')).map Element.blank := fun cs => List.filter_map
  have hhidden : ∀ cs : List Char, (cs.map Element.hidden).filter (· = '\n') =
      cs.filter (· = '\n') := by
    intro cs
    induction cs with
    | nil => rfl
    | cons c cs ih =>
        by_cases hc : c = '\n'
        · simp [Element.hidden, hc, ih]
        · simp [Element.hidden, hc, ih]
  cases e with
  | blank c => rfl
  | lexeme k c tail => rfl
  | lineComment body =>
      rw [Element.masked, Element.cleaned, hblanks, hblanks, hhidden, List.filter_filter]
      simp
  | blockComment body =>
      rw [Element.masked, Element.cleaned, hblanks, hblanks, hhidden, List.filter_cons,
        List.filter_filter]
      simp

end Elements

namespace Batch

open Elements
open Element (lineFeed)

/-! ### Numbers of separator lines -/

theorem separatorsFrom_append (n : Nat) (ms ns : List (Bool × List Char)) :
    separatorsFrom n (ms ++ ns) = separatorsFrom n ms ++ separatorsFrom (n + ms.length) ns := by
  induction ms generalizing n with
  | nil => rfl
  | cons m ms ih =>
      obtain ⟨separating, l⟩ := m
      have hlen : n + ((separating, l) :: ms).length = n + 1 + ms.length := by
        rw [List.length_cons]
        omega
      rw [hlen]
      cases separating with
      | true => exact congrArg (n :: ·) (ih (n + 1))
      | false => exact ih (n + 1)

theorem separatorsFrom_false (n : Nat) (ls : List (List Char)) :
    separatorsFrom n (ls.map fun l => (false, l)) = [] := by
  induction ls generalizing n with
  | nil => rfl
  | cons l ls ih => exact ih (n + 1)

theorem le_of_mem_separatorsFrom {n k : Nat} {ms : List (Bool × List Char)}
    (h : k ∈ separatorsFrom n ms) : n ≤ k ∧ k < n + ms.length := by
  induction ms generalizing n with
  | nil => exact absurd h List.not_mem_nil
  | cons m ms ih =>
      obtain ⟨separating, l⟩ := m
      rw [List.length_cons]
      cases separating with
      | true =>
          rcases List.mem_cons.1 h with rfl | h
          · omega
          · have := ih h
            omega
      | false =>
          have := ih (n := n + 1) h
          omega

theorem pairwise_separatorsFrom (n : Nat) (ms : List (Bool × List Char)) :
    (separatorsFrom n ms).Pairwise (· < ·) := by
  induction ms generalizing n with
  | nil => exact .nil
  | cons m ms ih =>
      obtain ⟨separating, l⟩ := m
      cases separating with
      | true =>
          refine List.pairwise_cons.2 ⟨fun k hk => ?_, ih (n + 1)⟩
          exact Nat.lt_of_succ_le (le_of_mem_separatorsFrom hk).1
      | false => exact ih (n + 1)

/-- The number of the separator line, where the unit is one. -/
theorem separatorsFrom_unit {g : List Element} (h : Uncommented g) (hg : lineFeed ∉ g) (n : Nat) :
    separatorsFrom n (unitLines (text g)) = if separates (lexemes g) then [n] else [] := by
  rw [unitLines_eq h hg]
  split
  · rfl
  · exact separatorsFrom_false n _

theorem length_unitLines (cs : List Char) : (unitLines cs).length = cs.count '\n' + 1 := by
  rw [← length_lines, unitLines]
  cases lines cs with
  | nil => rfl
  | cons l ls => rw [List.length_cons, List.length_map, List.length_cons]

theorem separatorsFrom_markedLines_append {g es : List Element}
    (h : Uncommented (g ++ lineFeed :: es)) (hg : lineFeed ∉ g) (n : Nat) :
    separatorsFrom n (markedLines (text (g ++ lineFeed :: es))) =
      (if separates (lexemes g) then [n] else []) ++
        separatorsFrom (n + ((lexemes g).flatten.count '\n' + 1)) (markedLines (text es)) := by
  rw [markedLines_append h hg, separatorsFrom_append, separatorsFrom_unit h.left hg,
    length_unitLines, count_text h.left hg]

/-- The separator lines depend on the lexemes and the line feeds only. -/
theorem separatorsFrom_congr {es fs : List Element} (he : Uncommented es) (hf : Uncommented fs)
    (h : skeleton es = skeleton fs) (n : Nat) :
    separatorsFrom n (markedLines (text es)) = separatorsFrom n (markedLines (text fs)) := by
  induction es using induction_lineFeed generalizing fs n with
  | last g hg =>
      have hg' : lineFeed ∉ fs := by rwa [← lineFeed_mem_skeleton, ← h, lineFeed_mem_skeleton]
      rw [markedLines_unit he hg, markedLines_unit hf hg', separatorsFrom_unit he hg,
        separatorsFrom_unit hf hg', ← lexemes_skeleton, h, lexemes_skeleton]
  | line g es hg ih =>
      -- the other text has a first line feed too, and so a first unit with the same lexemes
      have hmem : lineFeed ∈ fs := by
        rw [← lineFeed_mem_skeleton, ← h, lineFeed_mem_skeleton]
        exact List.mem_append_right g List.mem_cons_self
      obtain ⟨g', fs, rfl, hg'⟩ := List.eq_append_cons_of_mem hmem
      rw [skeleton_append, skeleton_append] at h
      obtain ⟨hunit, hrest⟩ := append_lineFeed_inj (mt lineFeed_mem_skeleton.1 hg)
        (mt lineFeed_mem_skeleton.1 hg') h
      have hlex : lexemes g = lexemes g' := by
        rw [← lexemes_skeleton, hunit, lexemes_skeleton]
      rw [separatorsFrom_markedLines_append he hg, separatorsFrom_markedLines_append hf hg', hlex,
        ih he.right.tail hf.right.tail hrest]

theorem separators_clean_eq_mask (cs : List Char) :
    separators (clean cs) = separators (mask cs) := by
  obtain ⟨es, rfl, hplaced⟩ := exists_placed cs
  rw [separators, separators, clean_text hplaced, mask_text hplaced]
  exact separatorsFrom_congr (.of_blanks Element.blanks_cleaned hplaced)
    (.of_blanks Element.blanks_masked hplaced) (skeleton_masked_eq_cleaned es).symm 1

end Batch

/-! ### Tokens and separator lines -/

namespace Elements

open Element (lineFeed)

/-- The lines of a token are lines of the text that it stands in. -/
theorem line_of_mem_tokensFrom {p : Position} {es : List Element} {t : Token}
    (h : t ∈ tokensFrom p es) :
    p.line ≤ t.start.line ∧ t.start.line ≤ t.stop.line ∧
      t.stop.line ≤ p.line + (text es).count '\n' := by
  induction es generalizing p with
  | nil => exact absurd h List.not_mem_nil
  | cons e es ih =>
      rw [text_cons, List.count_append]
      rcases List.mem_append.1 h with h | h
      · cases e with
        | lexeme k c tail =>
            obtain rfl := List.mem_singleton.1 h
            simp only [Position.line_advance]
            have htext : (Element.lexeme k c tail).text = c :: tail := rfl
            rw [htext]
            omega
        | blank c => exact absurd h List.not_mem_nil
        | lineComment body => exact absurd h List.not_mem_nil
        | blockComment body => exact absurd h List.not_mem_nil
      · have := ih h
        rw [Position.line_advance] at this
        omega

/-- Tokens stand in the order of their lines. -/
theorem pairwise_line_tokensFrom (p : Position) (es : List Element) :
    (tokensFrom p es).Pairwise fun s t => s.start.line ≤ t.start.line := by
  induction es generalizing p with
  | nil => exact .nil
  | cons e es ih =>
      refine List.pairwise_append.2 ⟨?_, ih _, fun s hs t ht => ?_⟩
      · cases e with
        | lexeme k c tail => exact List.pairwise_singleton _ _
        | blank c => exact .nil
        | lineComment body => exact .nil
        | blockComment body => exact .nil
      · cases e with
        | lexeme k c tail =>
            obtain rfl := List.mem_singleton.1 hs
            have hle := (line_of_mem_tokensFrom ht).1
            rw [Position.line_advance] at hle
            show p.line ≤ t.start.line
            omega
        | blank c => exact absurd hs List.not_mem_nil
        | lineComment body => exact absurd hs List.not_mem_nil
        | blockComment body => exact absurd hs List.not_mem_nil

/-- A line feed moves on to the start of the next line. -/
theorem advance_lineFeed (p : Position) (g : List Element) :
    (p.advance (text g)).advance lineFeed.text = ⟨p.line + (text g).count '\n' + 1, 1⟩ := by
  rw [← Position.line_advance]
  rfl

theorem tokensFrom_append_lineFeed (p : Position) (g es : List Element) :
    tokensFrom p (g ++ lineFeed :: es) =
      tokensFrom p g ++ tokensFrom ⟨p.line + (text g).count '\n' + 1, 1⟩ es := by
  rw [tokensFrom_append, tokensFrom, advance_lineFeed]
  rfl

end Elements

namespace Batch

open Elements
open Element (lineFeed)

/-- A token that starts on no separator line has none among its lines. -/
theorem notMem_separatorsFrom {es : List Element} (h : Uncommented es) {p : Position} {t : Token}
    (ht : t ∈ tokensFrom p es)
    (hstart : t.start.line ∉ separatorsFrom p.line (markedLines (text es))) :
    ∀ l ∈ separatorsFrom p.line (markedLines (text es)),
      ¬ (t.start.line ≤ l ∧ l ≤ t.stop.line) := by
  induction es using induction_lineFeed generalizing p with
  | last g hg =>
      rw [markedLines_unit h hg, separatorsFrom_unit h hg] at hstart ⊢
      have hlines := line_of_mem_tokensFrom ht
      by_cases hs : separates (lexemes g)
      · have hcount := List.count_eq_zero.2 (notMem_text_of_separates h hg hs)
        rw [if_pos hs, List.mem_singleton] at hstart
        omega
      · rw [if_neg hs]
        simp
  | line g es hg ih =>
      rw [separatorsFrom_markedLines_append h hg, ← count_text h.left hg] at hstart ⊢
      rw [tokensFrom_append_lineFeed] at ht
      rw [List.mem_append, not_or] at hstart
      -- the token and the separator may each be in the first unit or behind it
      intro l hl
      rcases List.mem_append.1 ht with ht | ht
      · have hlines := line_of_mem_tokensFrom ht
        rcases List.mem_append.1 hl with hl | hl
        · by_cases hs : separates (lexemes g)
          · have hcount := List.count_eq_zero.2 (notMem_text_of_separates h.left hg hs)
            rw [if_pos hs, List.mem_singleton] at hstart
            omega
          · rw [if_neg hs] at hl
            exact absurd hl List.not_mem_nil
        · have hlow := (le_of_mem_separatorsFrom hl).1
          omega
      · rcases List.mem_append.1 hl with hl | hl
        · have hlow := (line_of_mem_tokensFrom ht).1
          have hl : l = p.line := by
            split at hl
            · exact List.mem_singleton.1 hl
            · exact absurd hl List.not_mem_nil
          simp only at hlow
          omega
        · have hnext : p.line + ((text g).count '\n' + 1) = p.line + (text g).count '\n' + 1 :=
            (Nat.add_assoc _ _ _).symm
          rw [hnext] at hl hstart
          exact ih h.right.tail ht hstart.2 l hl

end Batch

end

/-! ### Tokens on separator lines -/

section

open Text Scan

namespace Element

/-- A lexeme that looks like a word is a number, a name or a keyword. -/
theorem kind_of_wordlike {k : TokenKind} {c : Char} {tail rest : List Char}
    (h : Lexer.Lexes k c tail rest) (hw : Wordlike (c :: tail)) : k = Lexer.wordKind c tail := by
  have hall := wordlike_head hw
  obtain ⟨c', tail', heq, hstart, -⟩ := hw
  obtain ⟨rfl, rfl⟩ := List.cons.inj heq
  cases h with
  | word start word stop plain => rfl
  | national start whole => exact absurd (hall '\'' (by simp)) (by decide)
  | quoted whole => exact absurd (hall '\'' List.mem_cons_self) (by decide)
  | bracketed start whole =>
      have hopen := hall c List.mem_cons_self
      rcases start with rfl | rfl <;> exact absurd hopen (by decide)
  | symbol start single => simp_all [Lexer.isSymbol]
  | pair pair =>
      have hsymbol := (Lexer.operatorPairs_spec pair).1
      simp_all [Lexer.isSymbol]

end Element

/-- A token that is nothing but a name in brackets or a dot. -/
def Token.IsInner (t : Token) : Prop :=
  t.kind = .bracketed ∨ t.kind = .dot

namespace Elements

theorem exists_token_of_lexemes {es : List Element} (h : lexemes es ≠ []) (p : Position) :
    ∃ t, t ∈ tokensFrom p es := by
  induction es generalizing p with
  | nil => contradiction
  | cons e es ih =>
      cases e with
      | lexeme k c tail => exact ⟨_, List.mem_cons_self⟩
      | blank c => exact ih h _
      | lineComment body => exact ih h _
      | blockComment body => exact ih h _

/-- Where all lexemes are words, no token is a name in brackets or a dot. -/
theorem not_isInner_of_wordlike {g : List Element} (h : Uncommented g)
    (hw : ∀ w ∈ lexemes g, Wordlike w) {p : Position} {t : Token} (ht : t ∈ tokensFrom p g) :
    ¬ t.IsInner := by
  obtain ⟨front, k, c, tail, back, rfl, rfl⟩ := exists_of_mem_tokensFrom ht
  cases h.right.plain with
  | lexeme solid code lexes =>
      have hword := hw (c :: tail) (List.mem_filterMap.2 ⟨.lexeme k c tail, by simp, rfl⟩)
      rw [Token.IsInner, Element.kind_of_wordlike lexes hword]
      unfold Lexer.wordKind
      split
      · split <;> simp
      · cases Keyword.ofWord? (c :: tail) <;> simp

end Elements

namespace Batch

open Elements
open Element (lineFeed)

theorem lexemes_ne_nil_of_separates {g : List Element} (h : separates (lexemes g)) :
    lexemes g ≠ [] := by
  intro hnil
  rw [hnil] at h
  contradiction

theorem exists_token_of_unit {g : List Element} (h : Uncommented g) (hg : lineFeed ∉ g)
    {p : Position} {l : Nat} (hl : l ∈ if separates (lexemes g) then [p.line] else []) :
    ∃ t ∈ tokensFrom p g, t.start.line = l ∧ t.stop.line = l := by
  split at hl
  · next hs =>
    obtain rfl := List.mem_singleton.1 hl
    obtain ⟨t, ht⟩ := exists_token_of_lexemes (lexemes_ne_nil_of_separates hs) p
    have hcount := List.count_eq_zero.2 (notMem_text_of_separates h hg hs)
    have hlines := line_of_mem_tokensFrom ht
    exact ⟨t, ht, by omega, by omega⟩
  · exact absurd hl List.not_mem_nil

/-- There is a token on each separator line. -/
theorem exists_token_of_separator {es : List Element} (h : Uncommented es) {p : Position} {l : Nat}
    (hl : l ∈ separatorsFrom p.line (markedLines (text es))) :
    ∃ t ∈ tokensFrom p es, t.start.line = l ∧ t.stop.line = l := by
  induction es using induction_lineFeed generalizing p with
  | last g hg =>
      rw [markedLines_unit h hg, separatorsFrom_unit h hg] at hl
      exact exists_token_of_unit h hg hl
  | line g es hg ih =>
      rw [separatorsFrom_markedLines_append h hg, ← count_text h.left hg] at hl
      rw [tokensFrom_append_lineFeed]
      rcases List.mem_append.1 hl with hl | hl
      · obtain ⟨t, ht, hlines⟩ := exists_token_of_unit h.left hg hl
        exact ⟨t, List.mem_append_left _ ht, hlines⟩
      · obtain ⟨t, ht, hlines⟩ := ih h.right.tail (p := ⟨p.line + (text g).count '\n' + 1, 1⟩) hl
        exact ⟨t, List.mem_append_right _ ht, hlines⟩

theorem not_separates_of_isInner {g : List Element} (h : Uncommented g) {p : Position} {t : Token}
    (ht : t ∈ tokensFrom p g) (hinner : t.IsInner) : separates (lexemes g) = false := by
  cases hs : separates (lexemes g) with
  | false => rfl
  | true =>
      have hword := wordlike_of_separates hs (ne_nil_of_mem_lexemes g)
      exact absurd hinner (not_isInner_of_wordlike h hword ht)

/-- A token that stands in no unit that separates is on no separator line. -/
theorem notMem_separators {t : Token} (hnot : ∀ {g : List Element} {p : Position},
      Uncommented g → t ∈ tokensFrom p g → separates (lexemes g) = false)
    {es : List Element} (h : Uncommented es) {p : Position} (ht : t ∈ tokensFrom p es) :
    t.start.line ∉ separatorsFrom p.line (markedLines (text es)) := by
  induction es using induction_lineFeed generalizing p with
  | last g hg =>
      rw [markedLines_unit h hg, separatorsFrom_unit h hg, hnot h ht]
      exact List.not_mem_nil
  | line g es hg ih =>
      rw [separatorsFrom_markedLines_append h hg, ← count_text h.left hg]
      rw [tokensFrom_append_lineFeed] at ht
      intro hl
      rcases List.mem_append.1 ht with ht | ht
      · have hlines := line_of_mem_tokensFrom ht
        rw [hnot h.left ht] at hl
        rcases List.mem_append.1 hl with hl | hl
        · exact absurd hl List.not_mem_nil
        · have hlow := (le_of_mem_separatorsFrom hl).1
          omega
      · have hlow := (line_of_mem_tokensFrom ht).1
        rcases List.mem_append.1 hl with hl | hl
        · have hl : t.start.line = p.line := by
            split at hl
            · exact List.mem_singleton.1 hl
            · exact absurd hl List.not_mem_nil
          simp only at hlow
          omega
        · exact ih h.right.tail ht hl

/-- A name in brackets and a dot are on no separator line. -/
theorem notMem_separators_of_isInner {es : List Element} (h : Uncommented es) {p : Position}
    {t : Token} (ht : t ∈ tokensFrom p es) (hinner : t.IsInner) :
    t.start.line ∉ separatorsFrom p.line (markedLines (text es)) :=
  notMem_separators (fun hg htg => not_separates_of_isInner hg htg hinner) h ht

end Batch

end

end Tsql
