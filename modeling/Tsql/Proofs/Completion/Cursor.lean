import Tsql.Completion.Detect
import Tsql.Proofs.Batch.Lines
import Tsql.Proofs.Cursor.Offset
import Tsql.Proofs.Elements.States

/-!
Where the word in front of a cursor starts.

A word and a name before a dot hold no line feed unless they are quoted, so the word starts on the
line of the cursor or there are brackets or a dot on that line. The cursor is then behind the start
of a token that reaches its line (`exists_token`).

At the end of a text the word is the characters of a name that the text ends with
(`lastWord_append`). Behind a name and a dot it has that name as its qualifier, and it starts where
the name does (`atEnd_qualified`).
-/

namespace Tsql

section

open Text Scan

namespace Text

theorem isWordChar_of_mem_lastWord {cs : List Char} {c : Char} (h : c ∈ lastWord cs) :
    isWordChar c :=
  List.all_eq_true.1 List.all_takeWhile c (List.mem_reverse.1 h)

theorem exists_splitAtLast? {c : Char} {cs before behind : List Char}
    (h : splitAtLast? c cs = some (before, behind)) : ∃ rest, before ++ rest = cs := by
  unfold splitAtLast? at h
  split at h
  · contradiction
  · next d front hdrop =>
    obtain ⟨rfl, -⟩ := Prod.mk.inj (Option.some.inj h)
    refine ⟨d :: (cs.reverse.takeWhile (· ≠ c)).reverse, ?_⟩
    have hall := List.takeWhile_append_dropWhile (p := (· ≠ c)) (l := cs.reverse)
    rw [hdrop] at hall
    rw [List.append_cons, ← List.reverse_cons, ← List.reverse_append, hall, List.reverse_reverse]

end Text

namespace Cursor

/-- A cursor stands between two characters. -/
theorem exists_offsetAt (cs : List Char) (p : Position) :
    ∃ before behind, cs = before ++ behind ∧ offsetAt cs p = size before := by
  induction cs generalizing p with
  | nil => exact ⟨[], [], rfl, by simp [offsetAt]⟩
  | cons c cs ih =>
      obtain ⟨line, col⟩ := p
      rw [offsetAt]
      split
      · split
        · exact ⟨[], c :: cs, rfl, rfl⟩
        · obtain ⟨before, behind, rfl, hsize⟩ := ih ⟨1, col - 1⟩
          exact ⟨c :: before, behind, rfl, by rw [hsize, size_cons]⟩
      · obtain ⟨before, behind, rfl, hsize⟩ := ih ⟨if c = '\n' then line - 1 else line, col⟩
        exact ⟨c :: before, behind, rfl, by rw [hsize, size_cons]⟩

end Cursor

namespace Qualifier

theorem exists_atEnd? {cs : List Char} {q : Qualifier} (h : atEnd? cs = some q) :
    ∃ rest, q.before ++ rest = cs := by
  have hquoted : ∀ opening close, quoted? opening close cs.dropLast = some q →
      ∃ rest, q.before ++ rest = cs := by
    intro opening close h
    obtain ⟨⟨before, inner⟩, hsplit, rfl⟩ := Option.map_eq_some_iff.1 h
    obtain ⟨rest, hrest⟩ := exists_splitAtLast? hsplit
    obtain ⟨last, hlast⟩ := List.dropLast_prefix cs
    exact ⟨rest ++ last, by rw [← List.append_assoc, hrest, hlast]⟩
  unfold atEnd? at h
  split at h
  · exact hquoted _ _ h
  split at h
  · exact hquoted _ _ h
  split at h
  · contradiction
  · split at h
    · contradiction
    · obtain rfl := Option.some.inj h
      exact ⟨lastWord cs, beforeWord_append_lastWord cs⟩

end Qualifier

namespace CursorWord

/-- The word starts with text of one line, unless there is a dot in front of it. -/
theorem exists_start (cs : List Char) :
    ∃ front typed, cs = front ++ typed ∧ (atEnd cs false).start = size front ∧
      ('\n' ∈ typed → ∃ head word, cs = head ++ '.' :: word ∧ ∀ c ∈ word, isWordChar c) := by
  have hcs := beforeWord_append_lastWord cs
  show ∃ front typed, _ ∧ (behind (beforeWord cs) (lastWord cs) _ false).start = _ ∧ _
  rw [behind]
  cases hq : Qualifier.beforeDot? (beforeWord cs) with
  | none =>
      refine ⟨beforeWord cs, lastWord cs, hcs.symm, rfl, fun hfeed => ?_⟩
      exact absurd (isWordChar_of_mem_lastWord hfeed) (by decide)
  | some q =>
      unfold Qualifier.beforeDot? at hq
      split at hq
      · next hdot =>
        obtain ⟨rest, hrest⟩ := Qualifier.exists_atEnd? hq
        obtain ⟨head, hhead⟩ := List.getLast?_eq_some_iff.1 hdot
        rw [hhead, List.dropLast_concat] at hrest
        refine ⟨q.before, rest ++ '.' :: lastWord cs, ?_, rfl, fun _ => ?_⟩
        · rw [← List.append_assoc, hrest, List.append_cons, ← hhead, hcs]
        · refine ⟨head, lastWord cs, ?_, fun c hc => isWordChar_of_mem_lastWord hc⟩
          rw [List.append_cons, ← hhead, hcs]
      · contradiction

end CursorWord

/-! ### The tokens around a cursor -/

theorem Buffer.maskedTokens_eq {source : String} {es : List Element} (h : Elements.Placed es)
    (htext : Elements.text es = source.toList) :
    maskedTokens .origin source = Elements.tokensFrom .origin es := by
  have hmask := h.flatMap Element.blanks_masked
  rw [maskedTokens, tokenizeFrom, String.toList_ofList, ← htext, Elements.mask_text h,
    Elements.tokens_text hmask, Elements.tokensFrom_masked]

namespace CursorSite

theorem before_ofCursor (source : String) (p : Position) :
    (ofCursor source.toList p).before =
      (Buffer.maskedTokens .origin source).filter fun t =>
        t.stop ≤ Cursor.positionAt source.toList (ofCursor source.toList p).word.start := rfl

/-- What the site takes from the text around the cursor. -/
theorem ofCursor_of_offset {before behind : List Char} {p : Position}
    (h : Cursor.offsetAt (before ++ behind) p = size before) :
    (ofCursor (before ++ behind) p).position = Position.origin.advance before ∧
      (ofCursor (before ++ behind) p).state = stateAt (before ++ behind) (size before) ∧
      (ofCursor (before ++ behind) p).word =
        .atEnd before (stateAt (before ++ behind) (size before) = .bracket) := by
  rw [ofCursor]
  simp only [h, Cursor.positionAt_size, takeSize_size_append, and_self]

/-- Behind code, a word that starts on an earlier line than that of the cursor has a dot in it, which
stands right in front of the name at the cursor. -/
theorem exists_token_of_normal {es : List Element} {before behind : List Char}
    (hplaced : Elements.Placed es) (htext : Elements.text es = before ++ behind)
    (hnormal : stateAt (before ++ behind) (size before) = .normal) :
    (Cursor.positionAt (before ++ behind) (CursorWord.atEnd before false).start).line =
        (Position.origin.advance before).line ∨
      ∃ t ∈ Elements.tokensFrom .origin es, t.IsInner ∧ t.start < Position.origin.advance before ∧
        (Position.origin.advance before).line ≤ t.stop.line := by
  obtain ⟨front, typed, rfl, hsize, hdot⟩ := CursorWord.exists_start before
  by_cases hfeed : '\n' ∈ typed
  · right
    obtain ⟨head, word, heq, hchars⟩ := hdot hfeed
    rw [← htext, heq] at hnormal
    rw [heq, List.append_assoc, List.cons_append] at htext
    rw [heq]
    obtain ⟨t, ht, hkind, hstart, hstop⟩ := Elements.exists_dot hplaced htext hchars hnormal
    refine ⟨t, ht, .inr hkind, ?_, ?_⟩
    · rw [hstart, Position.advance_append]
      exact Position.lt_of_lt_of_le (Position.lt_next _ '.') (Position.le_advance _ word)
    · have hline : '\n' ∉ word := fun hmem => absurd (hchars _ hmem) (by decide)
      rw [hstop, List.append_cons, Position.advance_append _ _ word,
        Position.line_advance_of_notMem _ hline]
  · left
    rw [hsize, List.append_assoc, Cursor.positionAt_size, Position.advance_append,
      Position.line_advance_of_notMem _ hfeed]

/-- Where code can be typed, the word in front of the cursor starts on the line of the cursor or a
token in front of the cursor reaches that line. -/
theorem exists_token {source : String} {p : Position}
    (h : (ofCursor source.toList p).isInert = false) :
    (Cursor.positionAt source.toList (ofCursor source.toList p).word.start).line =
        (ofCursor source.toList p).position.line ∨
      ∃ t ∈ Buffer.maskedTokens .origin source, t.IsInner ∧
        t.start < (ofCursor source.toList p).position ∧
          (ofCursor source.toList p).position.line ≤ t.stop.line := by
  obtain ⟨es, htext, hplaced⟩ := Elements.exists_placed source.toList
  obtain ⟨before, behind, hsource, hoffset⟩ := Cursor.exists_offsetAt source.toList p
  rw [Buffer.maskedTokens_eq hplaced htext]
  rw [hsource] at h htext hoffset ⊢
  obtain ⟨hposition, hstate, hword⟩ := ofCursor_of_offset hoffset
  rw [isInert, hstate] at h
  rw [hposition, hword]
  by_cases hbracket : stateAt (before ++ behind) (size before) = .bracket
  · right
    rw [← htext] at hbracket
    obtain ⟨t, ht, hkind, hstart, hstop⟩ := Elements.exists_bracketed hplaced htext hbracket
    refine ⟨t, ht, .inl hkind, hstart, ?_⟩
    rw [Position.le_def] at hstop
    omega
  · rw [decide_eq_false hbracket]
    exact exists_token_of_normal hplaced htext (by simpa [hbracket] using h)

end CursorSite

end

/-! ### The word at the end of a text -/

section

open Text Scan

namespace Text

section

variable {front word : List Char}

theorem dropWhile_reverse_append (hword : ∀ c ∈ word, isWordChar c)
    (hstop : ∀ c ∈ front.getLast?, isWordChar c = false) :
    (front ++ word).reverse.dropWhile isWordChar = front.reverse := by
  rw [List.reverse_append, List.dropWhile_append_of_pos fun c hc => hword c (List.mem_reverse.1 hc)]
  rcases List.eq_nil_or_concat front with rfl | ⟨front', c, rfl⟩
  · rfl
  · rw [List.concat_eq_append, List.reverse_append]
    refine List.dropWhile_cons_of_neg ?_
    rw [hstop c (by simp)]
    exact Bool.false_ne_true

theorem beforeWord_append (hword : ∀ c ∈ word, isWordChar c)
    (hstop : ∀ c ∈ front.getLast?, isWordChar c = false) : beforeWord (front ++ word) = front := by
  rw [beforeWord, dropWhile_reverse_append hword hstop, List.reverse_reverse]

/-- The characters of a name behind a text that ends in none are its last word. -/
theorem lastWord_append (hword : ∀ c ∈ word, isWordChar c)
    (hstop : ∀ c ∈ front.getLast?, isWordChar c = false) : lastWord (front ++ word) = word := by
  have hall := beforeWord_append_lastWord (front ++ word)
  rw [beforeWord_append hword hstop] at hall
  exact List.append_cancel_left hall

end

end Text

theorem Delimited.undoubled_of_notMem {close : Char} {cs : List Char} (h : close ∉ cs) :
    undoubled close cs = cs := by
  fun_induction undoubled close cs with
  | case1 => rfl
  | case2 c => rfl
  | case3 c d rest hpair ih => exact absurd hpair.1.symm (List.ne_of_not_mem_cons h)
  | case4 c d rest hpair ih => rw [ih (List.not_mem_of_not_mem_cons h)]

namespace CursorWord

/-- A word behind a name and a dot. -/
theorem atEnd_qualified {front typed : List Char} {c : Char} {name : List Char}
    (hfront : ∀ d ∈ front.getLast?, isWordChar d = false) (hc : startsWord c)
    (hname : ∀ d ∈ name, isWordChar d) (htyped : ∀ d ∈ typed, isWordChar d) :
    atEnd (front ++ (c :: name) ++ '.' :: typed) false =
      { typed := String.ofList typed
        trigger := some '.'
        qualifier := some (String.ofList (c :: name))
        isBracketed := false
        start := size front } := by
  have hnames : ∀ d ∈ c :: name, isWordChar d :=
    List.forall_mem_cons.2 ⟨isWordChar_of_startsWord hc, hname⟩
  have hhead : front ++ (c :: name) ++ '.' :: typed = front ++ (c :: name) ++ ['.'] ++ typed := by
    simp
  have hstop : ∀ d ∈ (front ++ (c :: name) ++ ['.']).getLast?, isWordChar d = false := by
    intro d hd
    rw [List.getLast?_concat] at hd
    obtain rfl := Option.some.inj hd
    decide
  -- the name is a word of its own, not a number and not in quotes
  have hqualifier : Qualifier.beforeDot? (front ++ (c :: name) ++ ['.']) =
      some ⟨String.ofList (c :: name), false, front⟩ := by
    have hlast : ∀ d, isWordChar d = false → (front ++ c :: name).getLast? ≠ some d := by
      intro d hd hlast
      rw [List.getLast?_append_of_ne_nil _ (List.cons_ne_nil c name)] at hlast
      rw [hnames d (List.mem_of_getLast? hlast)] at hd
      contradiction
    rw [Qualifier.beforeDot?, List.getLast?_concat, if_pos rfl, List.dropLast_concat,
      Qualifier.atEnd?, if_neg (hlast ']' (by decide)), if_neg (hlast '"' (by decide)),
      lastWord_append hnames hfront, beforeWord_append hnames hfront]
    exact if_neg (by simp [isDigit_eq_false_of_startsWord hc])
  have hbracket : ']' ∉ typed := fun hmem => absurd (htyped _ hmem) (by decide)
  rw [atEnd, if_neg Bool.false_ne_true, hhead]
  dsimp only
  rw [beforeWord_append htyped hstop, lastWord_append htyped hstop, List.getLast?_concat, behind,
    hqualifier, Delimited.undoubled_of_notMem hbracket]
  rfl

end CursorWord

namespace CursorSite

/-- The cursor at the end of a text. -/
theorem ofCursor_advance (cs : List Char) :
    (ofCursor cs (Position.origin.advance cs)).position = Position.origin.advance cs ∧
      (ofCursor cs (Position.origin.advance cs)).state = stateAt cs (size cs) ∧
      (ofCursor cs (Position.origin.advance cs)).word =
        .atEnd cs (stateAt cs (size cs) = .bracket) := by
  have hoffset : Cursor.offsetAt cs (Position.origin.advance cs) = size cs := by
    simpa using Cursor.offsetAt_advance cs []
  have hsite := @ofCursor_of_offset cs [] (.advance .origin cs) (by rw [List.append_nil, hoffset])
  rwa [List.append_nil] at hsite

end CursorSite

end

end Tsql
