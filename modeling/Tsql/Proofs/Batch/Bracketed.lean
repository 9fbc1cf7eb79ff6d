import Tsql.Proofs.Batch.DatabaseName
import Tsql.Proofs.Cursor.Offset
import Tsql.Proofs.Elements.Spans
import Tsql.Proofs.Elements.Typed

/-!
Names in brackets, and what reads them.

A name is written in brackets with each closing bracket doubled. Whatever characters it has, the
text is one element (`Element.enclosed`): one token, one span, and behind a `USE` the name of a
database (`Batch.databaseName?_enclose`). So all of them find the same name and the same end of it
(`readers_of_bracketed_name`).
-/

namespace Tsql

open Text Scan

/-! ### One element -/

namespace Element

theorem tokensAt_enclosed (o : Char) (name : List Char) (p : Position) :
    (enclosed o name).tokensAt p =
      [⟨.bracketed, String.ofList name, p,
        p.advance (Delimited.enclose o (Lexer.closing o) name)⟩] := by
  rw [enclosed, tokensAt, Lexer.tokenText_enclosed]
  rfl

/-- The span of a name between delimiters is all of its text. -/
theorem span?_enclosed (o : Char) (name : List Char) (offset : Nat) :
    (enclosed o name).span? offset =
      some ⟨.ofOpening o, offset,
        offset + size (Delimited.enclose o (Lexer.closing o) name), true⟩ := by
  rw [enclosed, span?_lexeme, literalSpan?, Lexer.literalPart?, Option.map_some]
  dsimp only
  rw [Delimited.isClosed_doubled]
  rfl

end Element

namespace Batch

/-! ### Behind a `USE` -/

/-- Behind blanks a name in brackets is read with what goes with it. -/
theorem databaseName?_enclose {name blanks rest : List Char} (hne : name ≠ [])
    (hblanks : ∀ d ∈ blanks, isBlank d) (hrest : ∀ d ∈ rest.head?, isBlank d ∨ d = ';') :
    ∃ taken kept, rest = taken ++ kept ∧ BehindName taken kept ∧
      databaseName? (blanks ++ Delimited.enclose '[' ']' name ++ rest) =
        some (name, size (blanks ++ Delimited.enclose '[' ']' name ++ taken)) := by
  obtain ⟨taken, htaken⟩ := exists_behindName? hrest
  obtain ⟨-, kept, rfl, hbehind⟩ := behindName?_eq_some_iff.1 htaken
  exact ⟨taken, kept, rfl, hbehind, databaseName?_eq_some_iff.2 ⟨blanks, _, taken, kept,
    List.append_assoc .., ⟨hblanks, .bracketed name, hne, hrest, hbehind⟩, rfl⟩⟩

end Batch

/-! ### All readers -/

/-- A name in brackets is one token, which has the name as its text and is displayed as it was
written, and one span. As the name of a database it is read with all that is written for it, the
blanks in front of it and, behind it, at most a `;` with the spaces and tabs in front of that; the
number that is read with it is the size of these texts in bytes. -/
theorem readers_of_bracketed_name (name : String) :
    let written := Delimited.enclose '[' ']' name.toList
    let token : Token := ⟨.bracketed, name, .origin, Cursor.positionAt written (size written)⟩
    tokenize (String.ofList written) = [token] ∧
      Scan.spans written = [⟨.bracket, 0, size written, true⟩] ∧
      token.display = String.ofList written ∧
      ∀ blanks rest : List Char, name ≠ "" → (∀ d ∈ blanks, isBlank d) →
        (∀ d ∈ rest.head?, isBlank d ∨ d = ';') →
        ∃ taken kept, rest = taken ++ kept ∧ Batch.BehindName taken kept ∧
          Batch.databaseName? (blanks ++ written ++ rest) =
            some (name.toList, size (blanks ++ written ++ taken)) := by
  intro written token
  have hplaced : Elements.Placed [.enclosed '[' name.toList] :=
    ⟨Element.fits_enclosed (.inl rfl) name.toList (by simp), trivial⟩
  have htext : Elements.text [.enclosed '[' name.toList] = written := by
    rw [Elements.text_cons, Element.text_enclosed, Elements.text_nil, List.append_nil]
    rfl
  have hstop : Cursor.positionAt written (size written) = Position.origin.advance written := by
    simpa using Cursor.positionAt_size written []
  refine ⟨?_, ?_, rfl, fun blanks rest hne hblanks hrest => ?_⟩
  · rw [tokenize, tokenizeFrom, String.toList_ofList, ← htext, Elements.tokens_text hplaced,
      Elements.tokensFrom, Element.tokensAt_enclosed, String.ofList_toList]
    simp only [token, hstop]
    rfl
  · rw [Scan.spans, ← htext, Elements.spans_text hplaced, Elements.spans,
      Element.span?_enclosed, htext, Nat.zero_add]
    rfl
  · exact Batch.databaseName?_enclose (by simpa using hne) hblanks hrest

/-- The name holds a closing bracket and ends in another one, and its second letter takes two bytes.
In front of the space, the tab and the `;` that are taken stand ten characters of eleven bytes. -/
theorem readers_of_bracketed_name_escaped :
    (tokenize "[a]]é]]]" = [⟨.bracketed, "a]é]", ⟨1, 1⟩, ⟨1, 9⟩⟩] ∧
      Scan.spans "[a]]é]]]".toList = [⟨.bracket, 0, 9, true⟩]) ∧
      "a]é]" ≠ "" ∧ (∀ d ∈ " \n".toList, isBlank d) ∧
      (∀ d ∈ " \t; GO".toList.head?, isBlank d ∨ d = ';') ∧
      (∃ taken kept, " \t; GO".toList = taken ++ kept ∧ Batch.BehindName taken kept ∧
        Batch.databaseName? " \n[a]]é]]] \t; GO".toList =
          some ("a]é]".toList, size (" \n[a]]é]]]".toList ++ taken))) ∧
      Batch.databaseName? " \n[a]]é]]] \t; GO".toList = some ("a]é]".toList, 14) := by
  have hne : "a]é]" ≠ "" := by decide
  have hall : " \n".toList.all isBlank := by decide
  have hblanks : ∀ d ∈ " \n".toList, isBlank d := List.all_eq_true.1 hall
  have hrest : ∀ d ∈ " \t; GO".toList.head?, isBlank d ∨ d = ';' := by
    rintro d ⟨⟩
    exact .inl (by decide)
  have hread : Batch.databaseName? " \n[a]]é]]] \t; GO".toList = some ("a]é]".toList, 14) := by
    decide +kernel
  obtain ⟨htokens, hspans, -, hname⟩ := readers_of_bracketed_name "a]é]"
  exact ⟨⟨htokens, hspans⟩, hne, hblanks, hrest, hname _ _ hne hblanks hrest, hread⟩

end Tsql
