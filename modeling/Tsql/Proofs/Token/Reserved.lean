import Mathlib
import Tsql.Proofs.Elements.Typed

/-!
A token of a text that spells a reserved word is read as that word
(`isKeyword_of_isWord_tokenize`).
-/

namespace Tsql

open Text

/-- Letter case does not matter to reserved words. -/
theorem Keyword.ofWord?_congr {w v : List Char} (h : sameFolded w v) : ofWord? w = ofWord? v := by
  have hlower : w.map Char.toLower = v.map Char.toLower := by simpa [sameFolded] using h
  have hupper := congrArg (List.map Char.toUpper) hlower
  simp only [List.map_map, Function.comp_def, Char.toUpper_toLower_eq_toUpper] at hupper
  rw [ofWord?, ofWord?, hupper]

theorem Lexer.Lexes.isKeyword_of_isWord {k : TokenKind} {c : Char} {tail rest : List Char}
    (h : Lexes k c tail rest) {t : Token} (hkind : t.kind = k)
    (htext : t.text.toList = tokenText k c tail) {word : Keyword} (hword : t.isWord word.text) :
    t.isKeyword word := by
  obtain ⟨hclass, hsame⟩ := Bool.and_eq_true_iff.1 hword
  rw [hkind] at hclass
  cases h with
  | word start _ _ _ =>
      have hspelled : tokenText (wordKind c tail) c tail = c :: tail := by
        rcases wordKind_cases c tail with ⟨k, -, hk⟩ | ⟨-, hk | hk⟩ <;> rw [hk] <;> rfl
      have hof : Keyword.ofWord? (c :: tail) = some word := by
        rw [← hspelled, ← htext, Keyword.ofWord?_congr hsame]
        exact (congrArg _ String.toList_ofList).trans (Keyword.ofWord?_letters word)
      rcases wordKind_cases c tail with ⟨k, hk, heq⟩ | ⟨hnone, -⟩
      · rw [Token.isKeyword, hkind, heq, ← Option.some.inj (hk.symm.trans hof)]
        exact decide_eq_true rfl
      · rw [hnone] at hof
        contradiction
  | symbol start single =>
      unfold symbolKind at hclass
      split_ifs at hclass
  | national | quoted | bracketed | pair => contradiction

theorem Elements.isKeyword_of_isWord {es : List Element} (h : Placed es) {p : Position} {t : Token}
    (ht : t ∈ tokensFrom p es) {word : Keyword} (hword : t.isWord word.text) :
    t.isKeyword word := by
  induction es generalizing p with
  | nil => exact absurd ht List.not_mem_nil
  | cons e es ih =>
      rcases List.mem_append.1 ht with ht | ht
      · cases h.1 with
        | lexeme solid code lexes =>
            obtain rfl := List.mem_singleton.1 ht
            exact lexes.isKeyword_of_isWord rfl String.toList_ofList hword
        | blank | lineComment | blockComment => exact absurd ht List.not_mem_nil
      · exact ih h.2 ht

theorem isKeyword_of_isWord_tokenize {source : String} {t : Token} (ht : t ∈ tokenize source)
    {word : Keyword} (hword : t.isWord word.text) : t.isKeyword word := by
  obtain ⟨es, htext, hplaced⟩ := Elements.exists_placed source.toList
  rw [tokenize, tokenizeFrom, ← htext, Elements.tokens_text hplaced] at ht
  exact Elements.isKeyword_of_isWord hplaced ht hword

end Tsql
