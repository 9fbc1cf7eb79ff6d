import Tsql.Proofs.Buffer.Order
import Tsql.Proofs.Elements.States

/-!
Words that stand in code, the last of them still being typed.

The characters of a name do not always make one word: those that begin neither a word nor a number
are tokens of their own (`typed`). So what has been typed of a name is read as plain tokens, with a
keyword behind them just if the rest of it spells one (`tokensFrom_typed`).
-/

namespace Tsql

open Text Scan

namespace Text

/-- Whether a word or a number begins with the character. -/
def startsLexeme (c : Char) : Bool :=
  c.isDigit || startsWord c

end Text

/-- The reserved word that is read at the end of some characters of a name. -/
def typedKeyword? (cs : List Char) : Option Keyword :=
  Keyword.ofWord? (cs.dropWhile fun c => !startsLexeme c)

/-- A token that neither is a keyword nor opens, closes or ends anything. -/
def Token.IsPlain (t : Token) : Prop :=
  t.kind = .number ∨ t.kind = .identifier ∨ t.kind = .operator ∨ t.kind = .dot

namespace Keyword

theorem ofWord?_nil : ofWord? [] = none := by
  decide

/-- No keyword begins with a digit. -/
theorem ofWord?_of_isDigit {c : Char} (h : c.isDigit) (tail : List Char) :
    ofWord? (c :: tail) = none := by
  have hall : ∀ k : Keyword, k.letters.head?.all fun d => !d.isDigit := by
    intro k
    cases k <;> rfl
  rw [ofWord?, List.find?_eq_none]
  intro k _ heq
  have hletters : k.letters = (c :: tail).map Char.toUpper := by simpa using heq
  have hhead := hall k
  rw [hletters, List.map_cons, toUpper_of_isDigit h] at hhead
  simp [h] at hhead

theorem wordlike_letters (k : Keyword) : Wordlike k.letters := by
  have hall : ∀ k ∈ Keyword.all, k.letters ≠ [] ∧ k.letters.all startsWord := by decide +kernel
  obtain ⟨hne, hletters⟩ := hall k k.mem_all
  obtain ⟨c, tail, heq⟩ := List.exists_cons_of_ne_nil hne
  rw [heq, List.all_cons, Bool.and_eq_true, List.all_eq_true] at hletters
  exact ⟨c, tail, heq, .inr hletters.1, fun d hd => Lexer.isWordChar_of_start (.inr (hletters.2 d hd))⟩

end Keyword

namespace Lexer

/-- A word is a keyword just if it spells one. -/
theorem wordKind_cases (c : Char) (tail : List Char) :
    (∃ k, Keyword.ofWord? (c :: tail) = some k ∧ wordKind c tail = .keyword k) ∨
      Keyword.ofWord? (c :: tail) = none ∧
        (wordKind c tail = .number ∨ wordKind c tail = .identifier) := by
  unfold wordKind
  split
  · next hdigit =>
    refine .inr ⟨Keyword.ofWord?_of_isDigit hdigit tail, ?_⟩
    split
    · exact .inl rfl
    · exact .inr rfl
  · cases hk : Keyword.ofWord? (c :: tail) with
    | none => exact .inr ⟨rfl, .inr rfl⟩
    | some k => exact .inl ⟨k, rfl, rfl⟩

theorem wordKind_of_ofWord? {c : Char} {tail : List Char} {k : Keyword}
    (h : Keyword.ofWord? (c :: tail) = some k) : wordKind c tail = .keyword k := by
  rcases wordKind_cases c tail with ⟨k', hk', hkind⟩ | ⟨hnone, -⟩
  · obtain rfl := Option.some.inj (h.symm.trans hk')
    exact hkind
  · rw [h] at hnone
    contradiction

/-- A name between delimiters has the characters that it is written for. -/
theorem tokenText_enclosed (o : Char) (name : List Char) :
    tokenText .bracketed o (Delimited.doubled (closing o) name ++ [closing o]) = name := by
  rw [tokenText, if_pos rfl]
  exact Delimited.content_doubled_append (closing o) name [] (by simp)

theorem wordKind_of_isReserved {c : Char} {tail : List Char} (hc : startsWord c)
    (h : Keyword.ofWord? (c :: tail) = none) : wordKind c tail = .identifier := by
  rw [wordKind, isDigit_eq_false_of_startsWord hc, h]
  rfl

end Lexer

/-- The word is an unquoted name. -/
def IsIdentifier (name : String) : Prop :=
  ∃ c tail, name.toList = c :: tail ∧ startsWord c ∧ (∀ d ∈ tail, isWordChar d) ∧
    isReserved name = false

namespace Element

/-- The element of a word or number. -/
def word (c : Char) (tail : List Char) : Element :=
  .lexeme (Lexer.wordKind c tail) c tail

/-- The element of a character that is a token of its own. -/
def symbol (c : Char) : Element :=
  .lexeme (Lexer.symbolKind c) c []

theorem text_blank (c : Char) : (blank c).text = [c] := rfl

theorem text_word (c : Char) (tail : List Char) : (word c tail).text = c :: tail := rfl

theorem text_symbol (c : Char) : (symbol c).text = [c] := rfl

/-- The element of a name between delimiters. -/
def enclosed (o : Char) (name : List Char) : Element :=
  .lexeme .bracketed o (Delimited.doubled (Lexer.closing o) name ++ [Lexer.closing o])

theorem text_enclosed (o : Char) (name : List Char) :
    (enclosed o name).text = Delimited.enclose o (Lexer.closing o) name := rfl

theorem fits_enclosed {o : Char} (ho : o = '[' ∨ o = '"') (name : List Char) {rest : List Char}
    (h : rest.head? ≠ some (Lexer.closing o)) : (enclosed o name).Fits rest := by
  refine .lexeme ?_ (Lexer.not_opensComment ?_ _) (.bracketed ho (Delimited.literal_doubled h name))
  · rcases ho with rfl | rfl <;> decide
  · rcases ho with rfl | rfl <;> decide

theorem fits_symbol {c : Char} {rest : List Char} (hc : Lexer.isSymbol c)
    (solid : isBlank c = false) (code : c ≠ '-' ∧ c ≠ '/')
    (single : ∀ d ∈ rest.head?, [c, d] ∉ Lexer.operatorPairs) : (symbol c).Fits rest :=
  .lexeme solid (Lexer.not_opensComment code rest) (.symbol hc single)

theorem fits_dot (rest : List Char) : (symbol '.').Fits rest := by
  refine fits_symbol (by decide) (by decide) (by decide) fun d _ hpair => ?_
  exact absurd (Lexer.operatorPairs_spec hpair).2.1 (by decide)

/-- A character of a name that begins no word is a symbol. -/
theorem isSymbol_of_isWordChar {c : Char} (h : isWordChar c) (hstart : startsLexeme c = false) :
    Lexer.isSymbol c ∧ Lexer.symbolKind c = .operator := by
  have hne : ∀ d, isWordChar d = false → c ≠ d := fun d hd => Lexer.ne_of_isWordChar h hd
  rw [startsLexeme] at hstart
  constructor
  · simp [Lexer.isSymbol, hstart, hne '\'' (by decide), hne '[' (by decide), hne '"' (by decide)]
  · simp [Lexer.symbolKind, hne '.' (by decide), hne ',' (by decide), hne '(' (by decide),
      hne ')' (by decide), hne ';' (by decide)]

theorem fits_symbol_of_isWordChar {c : Char} (h : isWordChar c)
    (hstart : startsLexeme c = false) (rest : List Char) : (symbol c).Fits rest := by
  have hne : ∀ d, isWordChar d = false → c ≠ d := fun d hd => Lexer.ne_of_isWordChar h hd
  refine fits_symbol (isSymbol_of_isWordChar h hstart).1 (isBlank_of_isWordChar h)
    ⟨hne '-' (by decide), hne '/' (by decide)⟩ fun d _ hpair => ?_
  rw [(Lexer.operatorPairs_notWord hpair).1] at h
  exact absurd h Bool.false_ne_true

/-! ### Elements that hold no literal -/

/-- All of the element is code, and it does not end a line. -/
inductive IsCode : Element → Prop
  | blank {c : Char} (h : c ≠ '\n') : IsCode (blank c)
  | lexeme {k : TokenKind} {c : Char} {tail : List Char}
      (h : Lexer.literalPart? k c tail = none) : IsCode (lexeme k c tail)

namespace IsCode

theorem word (c : Char) (tail : List Char) : (word c tail).IsCode :=
  .lexeme (Lexer.wordKind_plain c tail).2

theorem symbol (c : Char) : (symbol c).IsCode :=
  .lexeme (Lexer.symbolKind_plain c []).2

variable {e : Element}

theorem normal_of_mem_states (h : e.IsCode) : ∀ x ∈ e.states, x.2 = .normal := by
  intro x hx
  obtain ⟨p, hp, -, hafter⟩ := exists_piece_of_mem_states hx
  cases h with
  | blank h =>
      obtain rfl := List.mem_singleton.1 hp
      exact hafter.symm
  | lexeme h =>
      rw [pieces, h, Option.elim_none, List.append_nil] at hp
      obtain ⟨d, -, rfl⟩ := List.mem_map.1 hp
      exact hafter.symm

theorem not_isComment (h : e.IsCode) : ¬ e.IsComment := by
  cases h <;> exact id

theorem ne_lineFeed (h : e.IsCode) : e ≠ lineFeed := by
  cases h with
  | blank h => exact fun heq => h (Element.blank.inj heq)
  | lexeme h => exact Element.noConfusion

end IsCode

end Element

namespace Elements

open Element (word symbol)

theorem uncommented_of_isCode {es : List Element} (h : Placed es) (hcode : ∀ e ∈ es, e.IsCode) :
    Uncommented es :=
  ⟨h, fun e he => (hcode e he).not_isComment⟩

/-- A cursor at the end of a text without literals and comments is in code. -/
theorem stateAt_of_isCode {es : List Element} (h : Placed es) (hcode : ∀ e ∈ es, e.IsCode) :
    stateAt (text es) (size (text es)) = .normal := by
  have hstates := charStates_text h
  have hmap := map_fst_charStates (text es)
  rw [hstates] at hmap
  by_cases hnil : es.flatMap Element.states = []
  · rw [hnil, List.map_nil] at hmap
    rw [← hmap]
    exact stateAfter_of_le (Nat.le_refl 0) _ _
  · rw [← List.append_nil (es.flatMap Element.states)] at hstates
    have hlast := stateAt_of_charStates _ [] hstates hnil
    rw [hmap] at hlast
    rw [hlast]
    obtain ⟨e, he, hmem⟩ := List.mem_flatMap.1 (List.getLast_mem hnil)
    exact (hcode e he).normal_of_mem_states _ hmem

theorem stop_le_advance {p : Position} {es : List Element} :
    ∀ t ∈ tokensFrom p es, t.stop ≤ p.advance (text es) := by
  induction es generalizing p with
  | nil => exact List.forall_mem_nil _
  | cons e es ih =>
      intro t ht
      rw [text_cons, Position.advance_append]
      rcases List.mem_append.1 ht with ht | ht
      · cases e with
        | lexeme k c tail =>
            obtain rfl := List.mem_singleton.1 ht
            exact Position.le_advance _ (text es)
        | blank c => exact absurd ht List.not_mem_nil
        | lineComment body => exact absurd ht List.not_mem_nil
        | blockComment body => exact absurd ht List.not_mem_nil
      · exact ih t ht

/-- The tokens that end before a place between two elements are those of the elements before it. -/
theorem filter_tokensFrom (p : Position) (front back : List Element) :
    (tokensFrom p (front ++ back)).filter (fun t => t.stop ≤ p.advance (text front)) =
      tokensFrom p front := by
  have hback : ∀ t ∈ tokensFrom (p.advance (text front)) back,
      ¬ t.stop ≤ p.advance (text front) := by
    intro t ht hle
    obtain ⟨hstart, hlt⟩ := start_lt_stop ht
    exact Position.lt_irrefl _ (Position.lt_of_lt_of_le hlt (Position.le_trans hle hstart))
  rw [tokensFrom_append, List.filter_append, List.filter_eq_self.2, List.filter_eq_nil_iff.2,
    List.append_nil]
  · simpa using hback
  · intro t ht
    exact decide_eq_true (stop_le_advance t ht)

/-! ### Characters of a name -/

/-- The elements of some characters of a name. -/
def typed : List Char → List Element
  | [] => []
  | c :: cs => if startsLexeme c then [word c cs] else symbol c :: typed cs

@[simp] theorem text_typed (cs : List Char) : text (typed cs) = cs := by
  induction cs with
  | nil => rfl
  | cons c cs ih =>
      rw [typed]
      split
      · rw [text_cons, Element.text_word, text_nil, List.append_nil]
      · rw [text_cons, Element.text_symbol, ih, List.singleton_append]

theorem placed_typed {cs : List Char} (h : ∀ c ∈ cs, isWordChar c) : Placed (typed cs) := by
  induction cs with
  | nil => trivial
  | cons c cs ih =>
      obtain ⟨hc, hcs⟩ := List.forall_mem_cons.1 h
      rw [typed]
      split
      · next hstart =>
        have hword : Wordlike (c :: cs) :=
          ⟨c, cs, rfl, by simpa [startsLexeme] using hstart, hcs⟩
        exact ⟨Element.fits_of_wordlike hword (by simp), trivial⟩
      · next hstart =>
        exact ⟨Element.fits_symbol_of_isWordChar hc (by simpa using hstart) _, ih hcs⟩

theorem isCode_of_mem_typed {cs : List Char} : ∀ e ∈ typed cs, e.IsCode := by
  induction cs with
  | nil => exact List.forall_mem_nil _
  | cons c cs ih =>
      rw [typed]
      split
      · exact List.forall_mem_cons.2 ⟨.word c cs, List.forall_mem_nil _⟩
      · exact List.forall_mem_cons.2 ⟨.symbol c, ih⟩

/-- What has been typed of a name is plain tokens, and a keyword behind them if the end of it spells
one. -/
theorem tokensFrom_typed (p : Position) {cs : List Char} (h : ∀ c ∈ cs, isWordChar c) :
    (typedKeyword? cs = none ∧ ∀ t ∈ tokensFrom p (typed cs), t.IsPlain) ∨
      ∃ k ts t, typedKeyword? cs = some k ∧ tokensFrom p (typed cs) = ts ++ [t] ∧
        (∀ u ∈ ts, u.IsPlain) ∧ t.kind = .keyword k := by
  induction cs generalizing p with
  | nil => exact .inl ⟨Keyword.ofWord?_nil, List.forall_mem_nil _⟩
  | cons c cs ih =>
      obtain ⟨hc, hcs⟩ := List.forall_mem_cons.1 h
      rw [typed, typedKeyword?]
      split
      · next hstart =>
        rw [List.dropWhile_cons_of_neg (by simp [hstart])]
        rcases Lexer.wordKind_cases c cs with ⟨k, hk, hkind⟩ | ⟨hnone, hkind⟩
        · exact .inr ⟨k, [], _, hk, rfl, List.forall_mem_nil _, hkind⟩
        · refine .inl ⟨hnone, List.forall_mem_cons.2 ⟨?_, List.forall_mem_nil _⟩⟩
          exact hkind.imp_right .inl
      · next hstart =>
        have hstart : startsLexeme c = false := by simpa using hstart
        have hplain : Token.IsPlain
            ⟨Lexer.symbolKind c, String.ofList (Lexer.tokenText (Lexer.symbolKind c) c []), p,
              p.advance [c]⟩ :=
          .inr (.inr (.inl (Element.isSymbol_of_isWordChar hc hstart).2))
        rw [List.dropWhile_cons_of_pos (by simp [hstart])]
        rcases ih (p.advance [c]) hcs with ⟨hnone, hall⟩ | ⟨k, ts, t, hsome, hts, hall, hkind⟩
        · exact .inl ⟨hnone, List.forall_mem_cons.2 ⟨hplain, hall⟩⟩
        · exact .inr ⟨k, _ :: ts, t, hsome, congrArg _ hts, List.forall_mem_cons.2 ⟨hplain, hall⟩,
            hkind⟩

end Elements

end Tsql
