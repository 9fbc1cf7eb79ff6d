import Tsql.Proofs.Elements.Lines

/-!
Texts without comments in which every literal has its end.

Blanks behind the last lexeme of such a text are no part of it, so trimming takes away blank
elements only (`Closed.exists_trim`). A text is like that, once its comments are removed, if the
pass over it does not end inside a literal.
-/

namespace Tsql

open Text Scan

namespace Delimited

theorem Literal.getLast? {close : Char} {lit rest : List Char} (h : Literal close lit rest)
    (hclosed : Delimited.isClosed close lit) : lit.getLast? = some close := by
  induction h with
  | endless => contradiction
  | closing stop => rfl
  | @escape lit rest whole ih =>
      have hlast := ih (by simpa [Delimited.isClosed] using hclosed)
      rw [List.getLast?_cons, List.getLast?_cons, hlast]
      rfl
  | @char c lit rest inside whole ih =>
      have hlast := ih (by rwa [isClosed_cons inside] at hclosed)
      rw [List.getLast?_cons, hlast]
      rfl

end Delimited

namespace Element

/-- A lexeme that does not end in a blank. -/
def EndsSolid : Element → Prop
  | lexeme _ c tail => ∀ d ∈ (c :: tail).getLast?, isBlank d = false
  | _ => True

theorem getLast?_append_of_some {as bs : List Char} {d : Char} (h : bs.getLast? = some d) :
    (as ++ bs).getLast? = some d := by
  rw [List.getLast?_append, h, Option.some_or]

/-- A lexeme ends in a blank only if it is a literal without an end. -/
theorem endsSolid_of_lexes {k : TokenKind} {c : Char} {tail rest : List Char}
    (h : Lexer.Lexes k c tail rest) (solid : isBlank c = false)
    (hclosed : ∀ o lit, Lexer.literalPart? k c tail = some (o, lit) →
      Delimited.isClosed (Lexer.closing o) lit) : (lexeme k c tail).EndsSolid := by
  intro d hd
  cases hl : Lexer.literalPart? k c tail with
  | none =>
      have hplain := Lexer.isBlank_of_mem_plainPart h solid
      rw [Lexer.plainPart_of_none hl] at hplain
      exact hplain d (List.mem_of_getLast? hd)
  | some l =>
      obtain ⟨o, lit⟩ := l
      obtain ⟨ho, whole, htext⟩ := Lexer.literalPart?_of_lexes h hl
      have hlast : (o :: lit).getLast? = some (Lexer.closing o) :=
        @getLast?_append_of_some [o] _ _ (whole.getLast? (hclosed o lit hl))
      rw [htext, getLast?_append_of_some hlast] at hd
      obtain rfl := Option.some.inj hd
      simp only [opensLiteral, Bool.or_eq_true, decide_eq_true_eq] at ho
      rcases ho with (rfl | rfl) | rfl <;> decide

end Element

/-! ### The state at the end -/

namespace Scan

theorem lastState_append (s : State) (ps qs : List Piece) :
    lastState s (ps ++ qs) = lastState (lastState s ps) qs := by
  induction ps generalizing s with
  | nil => rfl
  | cons p ps ih => rw [List.cons_append, lastState_cons, ih, lastState_cons]

theorem lastState_literal (o : Char) {lit rest : List Char}
    (h : Delimited.Literal (Lexer.closing o) lit rest) :
    lastState (.inside o) (pieces (.inside o) lit) =
      if Delimited.isClosed (Lexer.closing o) lit then .normal else .inside o := by
  induction h with
  | endless => simp [pieces, Delimited.isClosed]
  | closing stop =>
      rw [pieces_inside_closing o (by simp)]
      simp [pieces, Delimited.isClosed]
  | escape whole ih =>
      rw [pieces_inside_escape, lastState_cons, ih]
      simp [Delimited.isClosed]
  | char inside whole ih =>
      rw [pieces_inside_char inside, lastState_cons, ih, Delimited.isClosed_cons inside]

theorem lastState_lineComment {rest : List Char} (stop : ∀ d ∈ rest.head?, d = '\n') :
    (lastState .lineComment (pieces .lineComment rest)).isLiteral =
      (lastState .normal (pieces .normal rest)).isLiteral := by
  cases rest with
  | nil => rfl
  | cons d rest =>
      obtain rfl : d = '\n' := stop d rfl
      rw [pieces_lineFeed, pieces_lineComment_lineFeed, lastState_cons, lastState_cons]
      rfl

theorem isLiteral_inside (o : Char) : (State.inside o).isLiteral := by
  unfold State.inside
  split <;> rfl

end Scan

namespace Element

/-- In front of a further text, or of an end outside literals, no literal is without its end. -/
theorem endsSolid_of_fits {e : Element} {rest : List Char} (h : e.Fits rest)
    (hlast : (lastState .normal (e.pieces ++ Scan.pieces e.after rest)).isLiteral = false) :
    e.EndsSolid := by
  cases h with
  | blank => trivial
  | lineComment => trivial
  | blockComment => trivial
  | @lexeme k c tail _ solid code lexes =>
      refine endsSolid_of_lexes lexes solid fun o lit hl => ?_
      obtain ⟨-, whole, -⟩ := Lexer.literalPart?_of_lexes lexes hl
      -- only the end of the text can leave a literal without its delimiter
      cases rest with
      | cons d rest => exact whole.isClosed (List.cons_ne_nil d rest)
      | nil =>
          rw [Scan.pieces, List.append_nil, pieces, hl, Option.elim_some, lastState_append,
            Lexer.literalPieces, lastState_cons, lastState_literal o whole] at hlast
          split at hlast
          · next hclosed => exact hclosed
          · rw [isLiteral_inside] at hlast
            contradiction

theorem lastState_after {e : Element} {rest : List Char} (h : e.Fits rest) :
    (lastState .normal (e.pieces ++ Scan.pieces e.after rest)).isLiteral = false →
      (lastState .normal (Scan.pieces .normal rest)).isLiteral = false := by
  intro hlast
  rw [lastState_append] at hlast
  -- in front of a further piece the last state does not depend on where the pass starts
  have hnext : ∀ s, rest ≠ [] → ∀ t, lastState s (Scan.pieces e.after rest) =
      lastState t (Scan.pieces e.after rest) := by
    intro s hne t
    cases hp : Scan.pieces e.after rest with
    | cons p ps => rw [lastState_cons, lastState_cons]
    | nil =>
        have hflat := flatten_pieces e.after rest
        rw [hp] at hflat
        exact absurd hflat.symm hne
  by_cases hne : rest = []
  · rw [hne]
    rfl
  · cases h with
    | lineComment inside stop =>
        rw [← lastState_lineComment stop]
        exact (congrArg State.isLiteral (hnext _ hne _)).trans hlast
    | blank => exact (congrArg State.isLiteral (hnext _ hne _)).trans hlast
    | blockComment => exact (congrArg State.isLiteral (hnext _ hne _)).trans hlast
    | lexeme => exact (congrArg State.isLiteral (hnext _ hne _)).trans hlast

end Element

namespace Elements

theorem endsSolid_of_lastState {es : List Element} (h : Placed es)
    (hlast : (lastState .normal (pieces .normal (text es))).isLiteral = false) :
    ∀ e ∈ es, e.EndsSolid := by
  induction es with
  | nil => simp
  | cons e es ih =>
      rw [text_cons, Element.pieces_of_fits h.1] at hlast
      exact List.forall_mem_cons.2
        ⟨Element.endsSolid_of_fits h.1 hlast, ih h.2 (Element.lastState_after h.1 hlast)⟩

/-- A text without comments in which every literal has its end. -/
structure Closed (es : List Element) : Prop extends Uncommented es where
  ends : ∀ e ∈ es, e.EndsSolid

namespace Closed

theorem left {es fs : List Element} (h : Closed (es ++ fs)) : Closed es :=
  ⟨h.toUncommented.left, fun e he => h.ends e (List.mem_append_left fs he)⟩

theorem right {es fs : List Element} (h : Closed (es ++ fs)) : Closed fs :=
  ⟨h.toUncommented.right, fun e he => h.ends e (List.mem_append_right es he)⟩

theorem of_blanks {g : Element → List Element} (hg : Element.Blanks g) {es : List Element}
    (h : Placed es) (hends : ∀ e ∈ es, e.EndsSolid) : Closed (es.flatMap g) where
  toUncommented := .of_blanks hg h
  ends f hf := by
    obtain ⟨e, he, hfe⟩ := List.mem_flatMap.1 hf
    by_cases hc : e.IsComment
    · obtain ⟨c, rfl, -⟩ := hg.blank e hc f hfe
      trivial
    · rw [hg.keeps e hc] at hfe
      obtain rfl := List.mem_singleton.1 hfe
      exact hends f he

end Closed

/-! ### Trimming -/

/-- The elements are blanks. -/
def AllBlank (es : List Element) : Prop :=
  ∀ e ∈ es, ∃ c, e = .blank c ∧ isBlank c

theorem AllBlank.tokensFrom {es : List Element} (h : AllBlank es) (p : Position) :
    tokensFrom p es = [] := by
  induction es generalizing p with
  | nil => rfl
  | cons e es ih =>
      obtain ⟨⟨c, rfl, -⟩, hes⟩ := List.forall_mem_cons.1 h
      exact ih hes _

theorem exists_trimStart {es : List Element} (h : Uncommented es) :
    ∃ as bs, es = as ++ bs ∧ AllBlank as ∧ text as = leadingBlanks (text es) ∧
      text bs = trimStart (text es) := by
  induction es with
  | nil => exact ⟨[], [], rfl, by simp [AllBlank], rfl, rfl⟩
  | cons e es ih =>
      cases h.plain with
      | @blank c _ solid =>
          obtain ⟨as, bs, rfl, hblank, hlead, htrim⟩ := ih h.tail
          have htext : text (.blank c :: (as ++ bs)) = c :: text (as ++ bs) := rfl
          refine ⟨.blank c :: as, bs, rfl, List.forall_mem_cons.2 ⟨⟨c, rfl, solid⟩, hblank⟩, ?_, ?_⟩
          · rw [htext, leadingBlanks, List.takeWhile_cons_of_pos solid, text_cons, hlead]
            rfl
          · rw [htext, trimStart, List.dropWhile_cons_of_pos solid, htrim, trimStart]
      | @lexeme k c tail _ solid code lexes =>
          have hnot : ¬ isBlank c = true := by simp [solid]
          have htext : text (.lexeme k c tail :: es) = c :: (tail ++ text es) := rfl
          refine ⟨[], _, rfl, by simp [AllBlank], ?_, ?_⟩
          · rw [htext, leadingBlanks, List.takeWhile_cons_of_neg hnot]
            rfl
          · rw [htext, trimStart, List.dropWhile_cons_of_neg hnot]

theorem exists_trimEnd {es : List Element} (h : Closed es) :
    ∃ as bs, es = as ++ bs ∧ AllBlank bs ∧ text as = trimEnd (text es) := by
  -- recursion from the end: blanks go one by one, up to a lexeme
  rcases List.eq_nil_or_concat es with rfl | ⟨front, e, heq⟩
  · exact ⟨[], [], rfl, by simp [AllBlank], rfl⟩
  · rw [List.concat_eq_append] at heq
    subst heq
    have htext : text (front ++ [e]) = text front ++ e.text := by rw [text_append]; simp
    cases h.right.plain with
    | @blank c _ solid =>
        obtain ⟨as, bs, rfl, hblank, htrim⟩ := exists_trimEnd h.left
        refine ⟨as, bs ++ [.blank c], List.append_assoc _ _ _, ?_, ?_⟩
        · intro f hf
          rcases List.mem_append.1 hf with hf | hf
          · exact hblank f hf
          · exact ⟨c, List.mem_singleton.1 hf, solid⟩
        · rw [htrim, htext]
          simp [trimEnd, Element.text, Element.head, Element.tail, solid]
    | @lexeme k c tail _ solid code lexes =>
        refine ⟨_, [], (List.append_nil _).symm, by simp [AllBlank], ?_⟩
        have hlast := h.ends (.lexeme k c tail) (by simp)
        have hd := (List.dropLast_concat_getLast (List.cons_ne_nil c tail)).symm
        have hsolid := hlast _ (List.getLast?_eq_some_getLast (List.cons_ne_nil c tail))
        have hback : text (front ++ [.lexeme k c tail]) =
            (text front ++ (c :: tail).dropLast) ++
              [(c :: tail).getLast (List.cons_ne_nil c tail)] := by
          rw [htext, List.append_assoc, ← hd]
          rfl
        rw [hback]
        simp [trimEnd, hsolid]
termination_by es.length
decreasing_by
  rw [heq, List.length_concat]
  exact Nat.lt_succ_self _

/-- Trimming a closed text takes blank elements from its ends. -/
theorem Closed.exists_trim {es : List Element} (h : Closed es) :
    ∃ as bs cs, es = as ++ (bs ++ cs) ∧ AllBlank as ∧ AllBlank cs ∧
      text as = leadingBlanks (text es) ∧ text bs = trim (text es) := by
  obtain ⟨as, ds, rfl, hlead, htextLead, hrest⟩ := exists_trimStart h.toUncommented
  obtain ⟨bs, cs, rfl, hend, htextEnd⟩ := exists_trimEnd h.right
  exact ⟨as, bs, cs, rfl, hlead, hend, htextLead, by rw [htextEnd, hrest, trim]⟩

end Elements

end Tsql
