import Tsql.Token.Lexer

/-!
The lexemes of a text as a relation.

`Lexes kind c tail rest` says that `c :: tail` is a lexeme of the given kind where the text `rest`
stands behind it. The lexer computes exactly this relation, and a lexeme depends on what follows
only through the next character, so the text behind it may be exchanged as long as no character
can prolong it.
-/

namespace Tsql

namespace Delimited

/-- `lit` is a whole literal behind its opening delimiter, in front of the text `rest`. -/
inductive Literal (close : Char) : List Char → List Char → Prop
  | endless : Literal close [] []
  | closing {rest : List Char} (stop : rest.head? ≠ some close) : Literal close [close] rest
  | escape {lit rest : List Char} (whole : Literal close lit rest) :
      Literal close (close :: close :: lit) rest
  | char {c : Char} {lit rest : List Char} (inside : c ≠ close) (whole : Literal close lit rest) :
      Literal close (c :: lit) rest

theorem body_of_literal {close : Char} {lit rest : List Char} (h : Literal close lit rest) :
    body close (lit ++ rest) = lit := by
  induction h with
  | endless => rfl
  | @closing rest stop =>
      cases rest with
      | nil => rfl
      | cons d rest =>
          have hd : d ≠ close := by simpa using stop
          simp [body, hd]
  | escape whole ih => simp [body, ih]
  | @char c lit rest inside whole ih =>
      rw [List.cons_append]
      cases hcs : lit ++ rest with
      | nil =>
          obtain ⟨rfl, rfl⟩ := List.append_eq_nil_iff.1 hcs
          rfl
      | cons d t =>
          rw [body, if_neg inside, ← hcs, ih]

theorem exists_literal (close : Char) (cs : List Char) :
    ∃ lit rest, cs = lit ++ rest ∧ Literal close lit rest := by
  -- the last two cases are a delimiter that is not doubled and a character inside
  fun_induction body close cs with
  | case1 => exact ⟨[], [], rfl, .endless⟩
  | case2 c =>
      by_cases hc : c = close
      · subst hc
        exact ⟨[c], [], rfl, .closing (by simp)⟩
      · exact ⟨[c], [], rfl, .char hc .endless⟩
  | case3 t ih =>
      obtain ⟨lit, rest, rfl, whole⟩ := ih
      exact ⟨_, rest, rfl, .escape whole⟩
  | case4 d t hd => exact ⟨[close], d :: t, rfl, .closing (by simpa using hd)⟩
  | case5 c d t hc ih =>
      obtain ⟨lit, rest, heq, whole⟩ := ih
      exact ⟨c :: lit, rest, by rw [heq, List.cons_append], .char hc whole⟩

theorem mem_doubled {close c : Char} {cs : List Char} : c ∈ doubled close cs ↔ c ∈ cs := by
  induction cs with
  | nil => exact Iff.rfl
  | cons d cs ih =>
      rw [doubled]
      split
      · next hd => simp [ih, hd]
      · simp [ih]

theorem doubled_of_notMem {close : Char} {cs : List Char} (h : close ∉ cs) :
    doubled close cs = cs := by
  induction cs with
  | nil => rfl
  | cons c cs ih =>
      rw [List.mem_cons, not_or] at h
      rw [doubled, if_neg (Ne.symm h.1), ih h.2]

/-- What is written for some characters is a whole literal. -/
theorem literal_doubled {close : Char} {rest : List Char} (h : rest.head? ≠ some close)
    (cs : List Char) : Literal close (doubled close cs ++ [close]) rest := by
  induction cs with
  | nil => exact .closing h
  | cons c cs ih =>
      rw [doubled]
      split
      · exact .escape ih
      · next hc => exact .char hc ih

/-- What is written for some characters is closed. -/
theorem isClosed_doubled (close : Char) (cs : List Char) :
    isClosed close (doubled close cs ++ [close]) := by
  induction cs with
  | nil => simp [doubled, isClosed]
  | cons c cs ih =>
      rw [doubled]
      split
      · simpa [isClosed] using ih
      · next hc =>
        rw [List.cons_append, isClosed_cons hc]
        exact ih

/-- In front of a further text the literal is closed. -/
theorem Literal.isClosed {close : Char} {lit rest : List Char} (h : Literal close lit rest)
    (hr : rest ≠ []) : isClosed close lit := by
  induction h with
  | endless => contradiction
  | closing stop => simp [Delimited.isClosed]
  | escape whole ih => simpa [Delimited.isClosed] using ih hr
  | @char c lit rest inside whole ih =>
      cases lit with
      | nil => simpa [Delimited.isClosed] using ih hr
      | cons d t => simpa [Delimited.isClosed, inside] using ih hr

/-- A closed literal may stand in front of any text that does not start with its delimiter. -/
theorem Literal.of_head {close : Char} {lit rest rest' : List Char} (h : Literal close lit rest)
    (hr : rest ≠ []) (hd : rest'.head? ≠ some close) : Literal close lit rest' := by
  induction h with
  | endless => contradiction
  | closing stop => exact .closing hd
  | escape whole ih => exact .escape (ih hr)
  | char inside whole ih => exact .char inside (ih hr)

theorem Literal.head_ne {close : Char} {lit rest : List Char} (h : Literal close lit rest) :
    rest.head? ≠ some close := by
  induction h with
  | endless => simp
  | closing stop => exact stop
  | escape whole ih => exact ih
  | char inside whole ih => exact ih

end Delimited

/-- `rest'` may stand in place of `rest` behind a lexeme: it starts with the same character, or,
where there was text, with a blank or not at all. -/
def Follows (rest rest' : List Char) : Prop :=
  rest'.head? = rest.head? ∨ rest ≠ [] ∧ ∀ d ∈ rest'.head?, Text.isBlank d

namespace Lexer

open Text

def wordKind (c : Char) (tail : List Char) : TokenKind :=
  if c.isDigit then if tail.all Char.isDigit then .number else .identifier
  else (Keyword.ofWord? (c :: tail)).elim .identifier .keyword

def symbolKind (c : Char) : TokenKind :=
  if c = '.' then .dot
  else if c = ',' then .comma
  else if c = '(' then .parenOpen
  else if c = ')' then .parenClose
  else if c = ';' then .semicolon
  else .operator

/-- Whether `c` starts neither a word nor a literal. -/
def isSymbol (c : Char) : Bool :=
  !(c.isDigit || startsWord c || c = '\'' || c = '[' || c = '"')

/-- The next argument but one is the text of the lexeme behind its first character, the last one
the text behind the lexeme. -/
inductive Lexes : TokenKind → Char → List Char → List Char → Prop
  | word {c : Char} {tail rest : List Char}
      (start : c.isDigit ∨ startsWord c) (word : ∀ d ∈ tail, isWordChar d)
      (stop : ∀ d ∈ rest.head?, isWordChar d = false)
      (plain : (c = 'N' ∨ c = 'n') → (tail ++ rest).head? ≠ some '\'') :
      Lexes (wordKind c tail) c tail rest
  | national {c : Char} {lit rest : List Char} (start : c = 'N' ∨ c = 'n')
      (whole : Delimited.Literal '\'' lit rest) : Lexes .quoted c ('\'' :: lit) rest
  | quoted {lit rest : List Char} (whole : Delimited.Literal '\'' lit rest) :
      Lexes .quoted '\'' lit rest
  | bracketed {c : Char} {lit rest : List Char} (start : c = '[' ∨ c = '"')
      (whole : Delimited.Literal (closing c) lit rest) : Lexes .bracketed c lit rest
  | symbol {c : Char} {rest : List Char} (start : isSymbol c)
      (single : ∀ d ∈ rest.head?, [c, d] ∉ operatorPairs) : Lexes (symbolKind c) c [] rest
  | pair {c d : Char} {rest : List Char} (pair : [c, d] ∈ operatorPairs) :
      Lexes .operator c [d] rest

/-! ### Classes of characters -/

theorem isWordChar_of_start {c : Char} (h : c.isDigit ∨ startsWord c) : isWordChar c :=
  h.elim isWordChar_of_isDigit isWordChar_of_startsWord

theorem ne_of_isWordChar {c d : Char} (hc : isWordChar c) (hd : isWordChar d = false) : c ≠ d := by
  rintro rfl
  rw [hc] at hd
  contradiction

/-- Operators of two characters start with a symbol and end in neither a word nor a blank. -/
theorem operatorPairs_spec {c d : Char} (h : [c, d] ∈ operatorPairs) :
    isSymbol c ∧ symbolKind c = .operator ∧ isBlank d = false ∧
      d ∉ ['-', '/', '*', '\'', '"', '['] := by
  have hall : ∀ p ∈ operatorPairs, isSymbol (p.headD ' ') ∧ symbolKind (p.headD ' ') = .operator ∧
      isBlank (p.getLastD ' ') = false ∧ p.getLastD ' ' ∉ ['-', '/', '*', '\'', '"', '['] := by
    decide
  simpa only [List.headD_cons, List.getLastD_cons, List.getLastD_nil] using hall _ h

theorem operatorPairs_notWord {c d : Char} (h : [c, d] ∈ operatorPairs) :
    isWordChar c = false ∧ startsWord d = false := by
  have hall : ∀ p ∈ operatorPairs,
      isWordChar (p.headD ' ') = false ∧ startsWord (p.getLastD ' ') = false := by
    decide
  simpa only [List.headD_cons, List.getLastD_cons, List.getLastD_nil] using hall _ h

/-! ### The lexer computes the relation -/

theorem takeWhile_append_of_stop {p : Char → Bool} {tail rest : List Char}
    (word : ∀ d ∈ tail, p d) (stop : ∀ d ∈ rest.head?, p d = false) :
    (tail ++ rest).takeWhile p = tail := by
  rw [List.takeWhile_append_of_pos word]
  cases rest with
  | nil => simp
  | cons d rest => simp [stop d rfl]

theorem lexeme_symbol {c : Char} (h : isSymbol c) (rest : List Char) :
    lexeme c rest =
      match rest with
      | d :: _ => if [c, d] ∈ operatorPairs then (.operator, [d]) else (symbolKind c, [])
      | [] => (symbolKind c, []) := by
  have hpair : ∀ d, [c, d] ∈ operatorPairs → symbolKind c = .operator :=
    fun d hd => (operatorPairs_spec hd).2.1
  simp only [isSymbol, Bool.not_eq_true', Bool.or_eq_false_iff, decide_eq_false_iff_not] at h
  obtain ⟨⟨⟨⟨hd, hs⟩, hq⟩, hb⟩, hi⟩ := h
  have hn : c ≠ 'N' ∧ c ≠ 'n' := by
    refine ⟨?_, ?_⟩ <;> rintro rfl <;> revert hs <;> decide
  cases rest with
  | nil =>
      simp only [lexeme, symbolKind, hd, hs, hq, hb, hi, hn]
      grind
  | cons d rest =>
      simp only [lexeme, symbolKind, hd, hs, hq, hb, hi, hn] at hpair ⊢
      grind

theorem lexeme_word {c : Char} {rest : List Char} (start : c.isDigit ∨ startsWord c)
    (plain : (c = 'N' ∨ c = 'n') → rest.head? ≠ some '\'') :
    lexeme c rest =
      (wordKind c (rest.takeWhile isWordChar), rest.takeWhile isWordChar) := by
  have hq : c ≠ '\'' ∧ c ≠ '[' ∧ c ≠ '"' := by
    refine ⟨?_, ?_, ?_⟩ <;> exact ne_of_isWordChar (isWordChar_of_start start) (by decide)
  have hn : ¬ ((c = 'N' ∨ c = 'n') ∧ rest.head? = some '\'') := fun h => plain h.1 h.2
  by_cases hd : c.isDigit
  · simp only [lexeme, hd, if_true, wordKind]
    split <;> rfl
  · have hs : startsWord c := by simpa [hd] using start
    simp only [lexeme, hd, hs, hq, hn, wordKind]
    cases Keyword.ofWord? (c :: rest.takeWhile isWordChar) <;> rfl

theorem lexeme_of_lexes {k : TokenKind} {c : Char} {tail rest : List Char}
    (h : Lexes k c tail rest) : lexeme c (tail ++ rest) = (k, tail) := by
  cases h with
  | word start word stop plain =>
      rw [lexeme_word start plain, takeWhile_append_of_stop word stop]
  | @national _ lit _ start whole =>
      have hd : c.isDigit = false := by rcases start with rfl | rfl <;> rfl
      have hlit := Delimited.body_of_literal whole
      simp [lexeme, hd, start, hlit]
  | quoted whole =>
      have hlit := Delimited.body_of_literal whole
      simp [lexeme, hlit]
  | bracketed start whole =>
      have hd : c.isDigit = false := by rcases start with rfl | rfl <;> rfl
      have hn : c ≠ 'N' ∧ c ≠ 'n' ∧ c ≠ '\'' := by rcases start with rfl | rfl <;> decide
      have hlit := Delimited.body_of_literal whole
      simp [lexeme, hd, hn, start, hlit]
  | symbol start single =>
      rw [lexeme_symbol start]
      cases rest with
      | nil => rfl
      | cons d rest => simp [single d rfl]
  | pair pair =>
      rw [lexeme_symbol (operatorPairs_spec pair).1]
      simp [pair]

theorem exists_run (p : Char → Bool) (cs : List Char) :
    ∃ run rest, cs = run ++ rest ∧ (∀ d ∈ run, p d) ∧ ∀ d ∈ rest.head?, p d = false := by
  refine ⟨cs.takeWhile p, cs.dropWhile p, List.takeWhile_append_dropWhile.symm, ?_, ?_⟩
  · intro d hd
    exact List.all_eq_true.1 List.all_takeWhile d hd
  · intro d hd
    have := List.head?_dropWhile_not p cs
    rw [Option.mem_def.1 hd] at this
    simpa using this

/-- Every text has a first lexeme. -/
theorem exists_lexes (c : Char) (rest : List Char) :
    ∃ k tail rest', rest = tail ++ rest' ∧ Lexes k c tail rest' := by
  by_cases hn : (c = 'N' ∨ c = 'n') ∧ rest.head? = some '\''
  · obtain ⟨start, hhead⟩ := hn
    obtain ⟨t, rfl⟩ := List.head?_eq_some_iff.1 hhead
    obtain ⟨lit, rest', rfl, whole⟩ := Delimited.exists_literal '\'' t
    exact ⟨_, '\'' :: lit, rest', rfl, .national start whole⟩
  by_cases hw : c.isDigit ∨ startsWord c
  · obtain ⟨run, rest', rfl, hrun, hstop⟩ := exists_run isWordChar rest
    exact ⟨_, run, rest', rfl, .word hw hrun hstop fun h h' => hn ⟨h, h'⟩⟩
  by_cases hq : c = '\''
  · obtain ⟨lit, rest', rfl, whole⟩ := Delimited.exists_literal '\'' rest
    subst hq
    exact ⟨_, lit, rest', rfl, .quoted whole⟩
  by_cases hb : c = '[' ∨ c = '"'
  · obtain ⟨lit, rest', rfl, whole⟩ := Delimited.exists_literal (closing c) rest
    exact ⟨_, lit, rest', rfl, .bracketed hb whole⟩
  have hs : isSymbol c := by simp_all [isSymbol]
  cases rest with
  | nil => exact ⟨_, [], [], rfl, .symbol hs (by simp)⟩
  | cons d t =>
      by_cases hp : [c, d] ∈ operatorPairs
      · exact ⟨_, [d], t, rfl, .pair hp⟩
      · exact ⟨_, [], d :: t, rfl, .symbol hs (by simpa using hp)⟩

/-! ### Exchanging what follows -/

/-- A property of the next character that blanks have carries over. -/
theorem head_of_follows {p : Char → Prop} {rest rest' : List Char} (hf : Follows rest rest')
    (hp : ∀ d ∈ rest.head?, p d) (hblank : ∀ d, isBlank d → p d) : ∀ d ∈ rest'.head?, p d := by
  intro d hd
  rcases hf with heq | ⟨-, hb⟩
  · exact hp d (heq ▸ hd)
  · exact hblank d (hb d hd)

theorem literal_of_follows {close : Char} {lit rest rest' : List Char}
    (h : Delimited.Literal close lit rest) (hf : Follows rest rest')
    (hclose : isBlank close = false) : Delimited.Literal close lit rest' := by
  -- a literal without an end reaches to the end of the text, and so it does in the new one
  by_cases hr : rest = []
  · subst hr
    have hnil : rest' = [] := by simpa [Follows] using hf
    rwa [hnil]
  · refine h.of_head hr fun hd => ?_
    refine head_of_follows (p := (· ≠ close)) hf ?_ ?_ close hd rfl
    · rintro d hd' rfl
      exact h.head_ne hd'
    · rintro d hd' rfl
      simp [hd'] at hclose

/-- A lexeme is the same in front of a text that cannot prolong it. -/
theorem Lexes.of_follows {k : TokenKind} {c : Char} {tail rest rest' : List Char}
    (h : Lexes k c tail rest) (hf : Follows rest rest') : Lexes k c tail rest' := by
  cases h with
  | word start word stop plain =>
      have hquote : (c = 'N' ∨ c = 'n') → (tail ++ rest').head? ≠ some '\'' := by
        intro hn
        cases tail with
        | cons d tail => simpa using plain hn
        | nil =>
            intro hd
            refine head_of_follows (p := (· ≠ '\'')) hf ?_ ?_ '\'' hd rfl
            · rintro d hd' rfl
              exact plain hn hd'
            · rintro d hd' rfl
              revert hd'
              decide
      exact .word start word
        (head_of_follows hf stop fun d hd => isWordChar_of_isBlank hd) hquote
  | national start whole => exact .national start (literal_of_follows whole hf (by decide))
  | quoted whole => exact .quoted (literal_of_follows whole hf (by decide))
  | bracketed start whole =>
      refine .bracketed start (literal_of_follows whole hf ?_)
      rcases start with rfl | rfl <;> decide
  | symbol start single =>
      refine .symbol start (head_of_follows hf single fun d hd hp => ?_)
      rw [(operatorPairs_spec hp).2.2.1] at hd
      contradiction
  | pair pair => exact .pair pair

end Lexer

end Tsql
