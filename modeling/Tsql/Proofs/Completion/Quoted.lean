import Mathlib.Data.List.TakeWhile
import Tsql.Proofs.Completion.Cursor
import Tsql.Proofs.Elements.Interior

/-!
The word in front of a cursor behind or inside a quoted name.

The word is read backwards, and a quoted name begins at the last delimiter of its kind. So of a name
that holds the opening delimiter itself only what stands behind the last one is read
(`Text.behindLast`), both as the qualifier of a word behind a dot (`CursorWord.qualifiedBy_enclose`)
and as the word in an open bracket (`CursorWord.inBracket_atEnd`); of any other name all is read.
-/

namespace Tsql

open Text Scan

namespace Text

/-- The text behind the last `c`, all of it if there is none. -/
def behindLast (c : Char) (cs : List Char) : List Char :=
  (cs.reverse.takeWhile (· ≠ c)).reverse

variable {c : Char} {cs : List Char}

theorem notMem_behindLast (c : Char) (cs : List Char) : c ∉ behindLast c cs := by
  intro h
  have hne := List.mem_takeWhile_imp (p := (· ≠ c)) (List.mem_reverse.1 h)
  simp at hne

theorem behindLast_of_notMem (h : c ∉ cs) : behindLast c cs = cs := by
  rw [behindLast, List.takeWhile_eq_self_iff.2, List.reverse_reverse]
  intro d hd
  exact decide_eq_true fun heq => h (heq ▸ List.mem_reverse.1 hd)

theorem behindLast_eq_self_iff : behindLast c cs = cs ↔ c ∉ cs :=
  ⟨fun h => h ▸ notMem_behindLast c cs, behindLast_of_notMem⟩

theorem takeWhile_append_cons (c : Char) (as bs : List Char) :
    (as ++ c :: bs).takeWhile (· ≠ c) = as.takeWhile (· ≠ c) := by
  induction as with
  | nil => simp
  | cons a as ih => simp only [List.cons_append, List.takeWhile_cons, ih]

theorem behindLast_append_cons (c : Char) (front back : List Char) :
    behindLast c (front ++ c :: back) = behindLast c back := by
  rw [behindLast, List.reverse_append, List.reverse_cons, List.append_assoc, List.singleton_append,
    takeWhile_append_cons]
  rfl

theorem exists_eq_append_behindLast (h : c ∈ cs) :
    ∃ front, cs = front ++ c :: behindLast c cs := by
  obtain ⟨back, front, hsplit, hback⟩ := List.eq_append_cons_of_mem (List.mem_reverse.2 h)
  have hcs : cs = front.reverse ++ c :: back.reverse := by
    rw [← List.reverse_reverse cs, hsplit]
    simp
  refine ⟨front.reverse, ?_⟩
  rw [hcs, behindLast_append_cons, behindLast_of_notMem fun hmem => hback (List.mem_reverse.1 hmem)]

theorem splitAtLast?_of_notMem (h : c ∉ cs) (front : List Char) :
    splitAtLast? c (front ++ c :: cs) = some (front, cs) := by
  have hall : ∀ d ∈ cs.reverse, decide (d ≠ c) = true := fun d hd =>
    decide_eq_true fun heq => h (heq ▸ List.mem_reverse.1 hd)
  have hreverse : (front ++ c :: cs).reverse = cs.reverse ++ c :: front.reverse := by simp
  have hdrop : (cs.reverse ++ c :: front.reverse).dropWhile (· ≠ c) = c :: front.reverse := by
    rw [List.dropWhile_append_of_pos hall, List.dropWhile_cons_of_neg (by simp)]
  rw [splitAtLast?, hreverse, hdrop, takeWhile_append_cons, List.takeWhile_eq_self_iff.2 hall]
  simp

/-- A text with a `c` is split at the last one. -/
theorem exists_splitAtLast?_append (c : Char) (front back : List Char) :
    ∃ before, splitAtLast? c (front ++ c :: back) = some (before, behindLast c back) ∧
      before ++ c :: behindLast c back = front ++ c :: back := by
  by_cases h : c ∈ back
  · obtain ⟨inner, hinner⟩ := exists_eq_append_behindLast h
    have hall : front ++ c :: back = (front ++ c :: inner) ++ c :: behindLast c back := by
      rw [List.append_assoc, List.cons_append, ← hinner]
    refine ⟨front ++ c :: inner, ?_, hall.symm⟩
    rw [hall, splitAtLast?_of_notMem (notMem_behindLast c back)]
  · rw [behindLast_of_notMem h]
    exact ⟨front, splitAtLast?_of_notMem h front, rfl⟩

end Text

/-! ### Doubled delimiters -/

namespace Delimited

variable {close c : Char} {cs : List Char}

theorem doubled_append (close : Char) (as bs : List Char) :
    doubled close (as ++ bs) = doubled close as ++ doubled close bs := by
  induction as with
  | nil => rfl
  | cons a as ih =>
      rw [List.cons_append, doubled, doubled, ih]
      split <;> rfl

/-- A character other than the delimiter is kept. -/
theorem mem_undoubled (hc : c ≠ close) : c ∈ undoubled close cs ↔ c ∈ cs := by
  fun_induction undoubled close cs with
  | case1 => exact Iff.rfl
  | case2 d => exact Iff.rfl
  | case3 d e rest hpair ih =>
      obtain ⟨rfl, rfl⟩ := hpair
      simp [ih, hc]
  | case4 d e rest hpair ih => rw [List.mem_cons, List.mem_cons, ih]

/-- What is written behind the last opening delimiter is written for what stands there. -/
theorem behindLast_doubled (o close : Char) (cs : List Char) :
    behindLast o (doubled close cs) = doubled close (behindLast o cs) := by
  by_cases h : o ∈ cs
  · obtain ⟨front, hcs⟩ := exists_eq_append_behindLast h
    have hlast : o ∉ doubled close (behindLast o cs) := fun hmem =>
      notMem_behindLast o cs (mem_doubled.1 hmem)
    have hdoubled : ∃ before,
        doubled close cs = before ++ o :: doubled close (behindLast o cs) := by
      rw [congrArg (doubled close) hcs, doubled_append, doubled]
      split
      · next ho => exact ⟨doubled close front ++ [close], by simp [ho]⟩
      · exact ⟨doubled close front, rfl⟩
    obtain ⟨before, hbefore⟩ := hdoubled
    rw [hbefore, behindLast_append_cons, behindLast_of_notMem hlast]
  · rw [behindLast_of_notMem h, behindLast_of_notMem fun hmem => h (mem_doubled.1 hmem)]

end Delimited

/-! ### Behind a quoted name -/

namespace Qualifier

theorem exists_quoted?_append (o close : Char) (head name : List Char) :
    ∃ before,
      quoted? o close (head ++ o :: Delimited.doubled close name) =
        some ⟨String.ofList (behindLast o name), true, before⟩ ∧
      before ++ o :: Delimited.doubled close (behindLast o name) =
        head ++ o :: Delimited.doubled close name := by
  obtain ⟨before, hsplit, hall⟩ :=
    exists_splitAtLast?_append o head (Delimited.doubled close name)
  rw [Delimited.behindLast_doubled] at hsplit hall
  refine ⟨before, ?_, hall⟩
  rw [quoted?, hsplit, Option.map_some]
  dsimp only
  rw [Delimited.undoubled_doubled]

/-- Of a quoted name in front of a dot the part behind its last opening delimiter is read. -/
theorem exists_beforeDot?_enclose {o : Char} (ho : o = '[' ∨ o = '"') (head name : List Char) :
    ∃ before,
      beforeDot? (head ++ Delimited.enclose o (Lexer.closing o) name ++ ['.']) =
        some ⟨String.ofList (behindLast o name), true, before⟩ ∧
      before ++ Delimited.enclose o (Lexer.closing o) (behindLast o name) =
        head ++ Delimited.enclose o (Lexer.closing o) name := by
  obtain ⟨before, hquoted, hall⟩ := exists_quoted?_append o (Lexer.closing o) head name
  refine ⟨before, ?_, ?_⟩
  · have hconcat : head ++ Delimited.enclose o (Lexer.closing o) name =
        (head ++ o :: Delimited.doubled (Lexer.closing o) name) ++ [Lexer.closing o] := by
      simp [Delimited.enclose]
    rw [beforeDot?, List.getLast?_concat, if_pos rfl, List.dropLast_concat, hconcat, atEnd?,
      List.getLast?_concat, List.dropLast_concat]
    rcases ho with rfl | rfl
    · exact (if_pos rfl).trans hquoted
    · exact (if_neg (by decide)).trans ((if_pos rfl).trans hquoted)
  · rw [Delimited.enclose, Delimited.enclose, ← List.cons_append, ← List.cons_append,
      ← List.append_assoc, hall, List.append_assoc]

end Qualifier

namespace CursorWord

/-- What is read behind the text `head`, a name in the quotes that `o` opens, a dot and `text`. -/
structure QualifiedBy (w : CursorWord) (o : Char) (head name text : List Char) : Prop where
  typed : w.typed = String.ofList text
  trigger : w.trigger = some '.'
  isBracketed : w.isBracketed
  qualifier : w.qualifier = some (String.ofList (behindLast o name))
  start : w.start + size (Delimited.enclose o (Lexer.closing o) (behindLast o name)) =
    size (head ++ Delimited.enclose o (Lexer.closing o) name)
  whole : w.qualifier = some (String.ofList name) ∧ w.start = size head ↔ o ∉ name

theorem qualifiedBy_enclose {o : Char} (ho : o = '[' ∨ o = '"') (head name : List Char)
    {text : List Char} (htext : ∀ c ∈ text, isWordChar c) :
    (atEnd (head ++ Delimited.enclose o (Lexer.closing o) name ++ '.' :: text) false).QualifiedBy
      o head name text := by
  let quoted := Delimited.enclose o (Lexer.closing o)
  obtain ⟨before, hqualifier, hbefore⟩ := Qualifier.exists_beforeDot?_enclose ho head name
  have hstop : ∀ d ∈ (head ++ quoted name ++ ['.']).getLast?, isWordChar d = false := by
    intro d hd
    rw [List.getLast?_concat] at hd
    obtain rfl := Option.some.inj hd
    decide
  have hbracket : ']' ∉ text := fun hmem => absurd (htext _ hmem) (by decide)
  have hword : atEnd (head ++ quoted name ++ '.' :: text) false =
      ⟨String.ofList text, some '.', some (String.ofList (behindLast o name)), true,
        size before⟩ := by
    have hhead : head ++ quoted name ++ '.' :: text = head ++ quoted name ++ ['.'] ++ text := by
      simp
    rw [atEnd, if_neg Bool.false_ne_true, hhead]
    dsimp only
    rw [beforeWord_append htext hstop, lastWord_append htext hstop, List.getLast?_concat, behind,
      hqualifier, Delimited.undoubled_of_notMem hbracket]
    rfl
  have hstart : size before + size (quoted (behindLast o name)) = size (head ++ quoted name) := by
    rw [← size_append, hbefore]
  rw [hword]
  refine ⟨rfl, rfl, rfl, rfl, hstart, ?_⟩
  constructor
  · rintro ⟨hname, -⟩
    exact behindLast_eq_self_iff.1 (String.ofList_inj.1 (Option.some.inj hname))
  · intro hnot
    rw [behindLast_of_notMem hnot, size_append] at hstart
    exact ⟨by rw [behindLast_of_notMem hnot], Nat.add_right_cancel hstart⟩

end CursorWord

/-! ### Inside an open bracket -/

namespace Elements

/-- A bracket span begins with its bracket. -/
theorem exists_bracket_of_mem_spans {es : List Element} (h : Placed es) {offset : Nat} {s : Span}
    (hs : s ∈ spans offset es) (hkind : s.kind = .bracket) :
    ∃ head rest, text es = head ++ '[' :: rest ∧ s.start = offset + size head := by
  induction es generalizing offset with
  | nil => cases hs
  | cons e es ih =>
      rcases List.mem_append.1 hs with hs | hs
      · have hspan := Option.mem_toList.1 hs
        cases h.1 with
        | blank => cases hspan
        | lineComment =>
            obtain rfl := Option.some.inj hspan
            cases hkind
        | blockComment =>
            obtain rfl := Option.some.inj hspan
            cases hkind
        | @lexeme k c tail _ solid code lexes =>
            obtain ⟨⟨o, lit⟩, hl, rfl⟩ := Option.map_eq_some_iff.1 hspan
            obtain ⟨-, -, hplain⟩ := Lexer.literalPart?_of_lexes lexes hl
            have ho : o = '[' := by
              by_contra hne
              simp [SpanKind.ofOpening, hne] at hkind
            refine ⟨Lexer.plainPart k c tail, lit ++ text es, ?_, rfl⟩
            rw [text_cons, ← ho, ← List.cons_append, ← List.append_assoc, ← hplain]
            rfl
      · obtain ⟨head, rest, htext, hstart⟩ := ih h.2 hs
        refine ⟨e.text ++ head, rest, ?_, ?_⟩
        · rw [text_cons, htext, List.append_assoc]
        · rw [hstart, size_append, Nat.add_assoc]

end Elements

namespace Scan

/-- A cursor that is inside a bracket by the state is behind the bracket of a span that holds it. -/
theorem exists_open_bracket {before behind : List Char}
    (hstate : stateAt (before ++ behind) (size before) = .bracket) :
    ∃ s ∈ spans (before ++ behind), s.kind = .bracket ∧ s.holdsCursor (size before) ∧
      ∃ head typed, before = head ++ '[' :: typed ∧ s.start = size head := by
  have hle : size before ≤ size (before ++ behind) := by simp
  obtain ⟨holder, hfilter, hspan⟩ := exists_holder_spans hle
  rw [hstate] at hspan
  obtain ⟨s, rfl, hkindAt⟩ := Option.bind_eq_some_iff.1 hspan.symm
  have hmem : s ∈ (spans (before ++ behind)).filter (·.holdsCursor (size before)) := by
    simp [hfilter]
  obtain ⟨hs, hholds⟩ := List.mem_filter.1 hmem
  have hkind : s.kind = .bracket := by
    rw [Span.kindAt?] at hkindAt
    split at hkindAt
    · exact Option.some.inj hkindAt
    · cases hkindAt
  obtain ⟨es, htext, hplaced⟩ := Elements.exists_placed (before ++ behind)
  obtain ⟨head, rest, hhead, hstart⟩ : ∃ head rest, before ++ behind = head ++ '[' :: rest ∧
      s.start = size head := by
    rw [← htext] at hs ⊢
    rw [spans, Elements.spans_text hplaced] at hs
    simpa using Elements.exists_bracket_of_mem_spans hplaced hs hkind
  refine ⟨s, hs, hkind, hholds, ?_⟩
  -- the bracket stands before the cursor
  have hlt := Span.start_lt_of_holdsCursor hholds
  rcases List.append_eq_append_iff.1 hhead with ⟨inner, rfl, -⟩ | ⟨inner, rfl, hinner⟩
  · rw [hstart, size_append] at hlt
    omega
  · cases inner with
    | nil =>
        rw [hstart, List.append_nil] at hlt
        omega
    | cons c typed =>
        obtain ⟨rfl, -⟩ := List.cons.inj hinner
        exact ⟨head, typed, rfl, hstart⟩

end Scan

namespace CursorWord

/-- What is read behind an open bracket and `text`. -/
structure InBracket (w : CursorWord) (text : List Char) : Prop where
  trigger : w.trigger = some '['
  isBracketed : w.isBracketed
  typed : w.typed = String.ofList (Delimited.undoubled ']' (behindLast '[' text))
  whole : w.typed = String.ofList (Delimited.undoubled ']' text) ↔ '[' ∉ text

theorem inBracket_atEnd (head text : List Char) :
    (atEnd (head ++ '[' :: text) true).InBracket text := by
  obtain ⟨before, hsplit, -⟩ := exists_splitAtLast?_append '[' head text
  have hword : atEnd (head ++ '[' :: text) true =
      behind before (behindLast '[' text) (some '[') true := by
    rw [atEnd, if_pos rfl, hsplit]
  rw [hword]
  refine ⟨rfl, by simp [behind], rfl, ?_⟩
  constructor
  · intro heq hmem
    have hlists := String.ofList_inj.1 heq
    have hread : '[' ∈ Delimited.undoubled ']' (behindLast '[' text) := by
      rw [hlists]
      exact (Delimited.mem_undoubled (by decide)).2 hmem
    exact notMem_behindLast '[' text ((Delimited.mem_undoubled (by decide)).1 hread)
  · intro hnot
    rw [behindLast_of_notMem hnot]
    rfl

/-- Behind a quoted name and a dot the word has the part of the name behind its last opening
delimiter as qualifier; inside an open bracket the word is the text behind the last opening bracket,
doubled closing ones made single. Both begin at the name just if the name holds no opening
delimiter. -/
theorem atEnd_quoted (o : Char) (head name text before behind : List Char) :
    (o = '[' ∨ o = '"' → (∀ c ∈ text, isWordChar c) →
      (atEnd (head ++ Delimited.enclose o (Lexer.closing o) name ++ '.' :: text) false).QualifiedBy
        o head name text) ∧
    (stateAt (before ++ behind) (size before) = .bracket →
      ∃ s ∈ spans (before ++ behind), s.kind = .bracket ∧ s.holdsCursor (size before) ∧
        ∃ front typed, before = front ++ '[' :: typed ∧ s.start = size front ∧
          (atEnd before true).InBracket typed) := by
  constructor
  · intro ho htext
    exact qualifiedBy_enclose ho head name htext
  · intro hstate
    obtain ⟨s, hs, hkind, hholds, front, typed, rfl, hstart⟩ := exists_open_bracket hstate
    exact ⟨s, hs, hkind, hholds, front, typed, rfl, hstart, inBracket_atEnd front typed⟩

/-- The name holds a closing bracket, and the open one a blank. -/
theorem atEnd_quoted_lines :
    (atEnd "WHERE [Order]]Lines].Qu".toList false).qualifier = some "Order]Lines" ∧
      (atEnd "WHERE [Order]]Lines].Qu".toList false).start = 6 ∧
      ∃ front typed, "SELECT o.[Order ".toList = front ++ '[' :: typed ∧
        (atEnd "SELECT o.[Order ".toList true).typed =
          String.ofList (Delimited.undoubled ']' (behindLast '[' typed)) := by
  have htext : "Qu".toList.all isWordChar := by decide
  have hstate : stateAt ("SELECT o.[Order ".toList ++ []) (size "SELECT o.[Order ".toList) =
      .bracket := by decide +kernel
  obtain ⟨hname, hopen⟩ := atEnd_quoted '[' "WHERE ".toList "Order]Lines".toList "Qu".toList
    "SELECT o.[Order ".toList []
  have hread := (hname (.inl rfl) (List.all_eq_true.1 htext)).whole.2 (by decide)
  obtain ⟨-, -, -, -, front, typed, hbefore, -, hbracket⟩ := hopen hstate
  exact ⟨hread.1, hread.2, front, typed, hbefore, hbracket.typed⟩

/-- The name holds an opening bracket. -/
theorem atEnd_opening_in_name :
    stateAt "SELECT ".toList 7 = .normal ∧
      "SELECT [a[b].".toList =
        "SELECT ".toList ++ Delimited.enclose '[' ']' "a[b".toList ++ ['.'] ∧
      (atEnd "SELECT [a[b].".toList false).qualifier = some "b" ∧
      (atEnd "SELECT [a[b].".toList false).start = 9 ∧
      stateAt "SELECT [a[b".toList 11 = .bracket ∧
      (atEnd "SELECT [a[b".toList true).typed = "b" := by
  decide +kernel

end CursorWord

end Tsql
