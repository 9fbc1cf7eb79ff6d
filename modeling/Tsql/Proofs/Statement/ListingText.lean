import Tsql.Proofs.Statement.Joined
import Tsql.Proofs.Statement.SimpleSelect

/-!
The texts of a query with a list of tables and of a query of names only.

A text is read from its front: each lemma on `Spells` puts one token in front of a text that is
known to spell some tokens. So a list spells the tokens that `TableListing.spelled` says, and a query
finds the items of its list that its clauses leave to it (`Statement.tables_parse_listing`).

With every name in brackets the text of a query of names only spells the tokens that
`SimpleSelect.spelled` says, whatever characters the names have (`SimpleSelect.spells_text`). So all
names are read back from the text (`SimpleSelect.isReadAs_parse`).
-/

namespace Tsql

/-! ### Lists of tables -/

section

open Text

/-- The tokens of the text are those, wherever it stands. -/
def Spells (cs : List Char) (ls : List (TokenKind × String)) : Prop :=
  ∀ p, (Lexer.tokens p cs).map Token.spelled = ls

/-- The text goes on with nothing that could be part of the word or name in front of it. -/
def EndsWord (cs : List Char) : Prop :=
  ∀ d ∈ cs.head?, isWordChar d = false ∧ d ∉ ['\'', '"', ']']

namespace EndsWord

variable {cs : List Char}

theorem of_isBlank {c : Char} (h : isBlank c) (cs : List Char) : EndsWord (c :: cs) := by
  intro d hd
  obtain rfl := Option.some.inj hd
  have hall : ['\'', '"', ']'].all fun d => isBlank d = false := by decide
  refine ⟨isWordChar_of_isBlank h, fun hmem => ?_⟩
  exact Bool.false_ne_true ((of_decide_eq_true (List.all_eq_true.1 hall c hmem)).symm.trans h)

theorem nil : EndsWord [] :=
  fun _ hd => by contradiction

theorem blank (cs : List Char) : EndsWord (' ' :: cs) :=
  of_isBlank (by decide) cs

theorem dot (cs : List Char) : EndsWord ('.' :: cs) := by
  intro d hd
  obtain rfl := Option.some.inj hd
  decide

theorem stop (h : EndsWord cs) : ∀ d ∈ cs.head?, isWordChar d = false ∧ d ≠ '\'' := by
  intro d hd
  obtain ⟨hword, hmem⟩ := h d hd
  exact ⟨hword, fun heq => hmem (heq ▸ List.mem_cons_self)⟩

theorem head?_ne_closing (h : EndsWord cs) {opening : Char}
    (ho : opening = '[' ∨ opening = '"') : cs.head? ≠ some (Lexer.closing opening) := by
  intro hd
  obtain ⟨-, hmem⟩ := h _ hd
  rcases ho with rfl | rfl <;> exact absurd hmem (by decide)

end EndsWord

/-- The text goes on with a blank, a comma or a dot, or not at all. -/
def IsBoundary (cs : List Char) : Prop :=
  ∀ d ∈ cs.head?, d = ' ' ∨ d = ',' ∨ d = '.'

namespace IsBoundary

variable {cs : List Char}

theorem nil : IsBoundary [] :=
  fun _ hd => by contradiction

theorem blank (cs : List Char) : IsBoundary (' ' :: cs) := by
  simp [IsBoundary]

theorem endsWord (h : IsBoundary cs) : EndsWord cs := by
  intro d hd
  rcases h d hd with rfl | rfl | rfl <;> decide

theorem single (h : IsBoundary cs) (c : Char) : ∀ d ∈ cs.head?, [c, d] ∉ Lexer.operatorPairs := by
  intro d hd hpair
  have hlast : ∀ pair ∈ Lexer.operatorPairs, pair.getLastD ' ' ∉ [' ', ',', '.'] := by
    decide
  exact hlast _ hpair (by simpa using h d hd)

theorem link (l : TableLink) (cs : List Char) : IsBoundary (l.text.toList ++ cs) := by
  cases l <;> simp [IsBoundary, TableLink.text, TableLink.separatorText]

end IsBoundary

namespace Spells

theorem nil : Spells [] [] := by
  intro p
  simp [Lexer.tokens_eq]

variable {cs : List Char} {ls : List (TokenKind × String)} (h : Spells cs ls)

include h

theorem blank : Spells (' ' :: cs) ls := by
  intro p
  have hfits : (Element.blank ' ').Fits cs := .blank (by decide)
  exact (congrArg (List.map Token.spelled) (Element.tokens_of_fits hfits p)).trans (h _)

theorem lexeme {k : TokenKind} {c : Char} {tail : List Char}
    (hfits : (Element.lexeme k c tail).Fits cs) :
    Spells (c :: tail ++ cs) ((k, String.ofList (Lexer.tokenText k c tail)) :: ls) := by
  intro p
  refine (congrArg (List.map Token.spelled) (Element.tokens_of_fits hfits p)).trans ?_
  rw [List.map_append, h]
  rfl

theorem dot : Spells ('.' :: cs) ((.dot, ".") :: ls) :=
  h.lexeme (Element.fits_dot cs)

theorem symbol {c : Char} (hc : c ∈ [',', '(', ')', '*', '=']) (hcs : IsBoundary cs) :
    Spells (c :: cs) ((Lexer.symbolKind c, String.ofList [c]) :: ls) := by
  have hall : [',', '(', ')', '*', '='].all fun c =>
      Lexer.isSymbol c ∧ isBlank c = false ∧ (c ≠ '-' ∧ c ≠ '/') ∧
        Lexer.symbolKind c ≠ .bracketed := by
    decide
  obtain ⟨hsymbol, hsolid, hcode, hkind⟩ := of_decide_eq_true (List.all_eq_true.1 hall c hc)
  have hspells := h.lexeme (Element.fits_symbol hsymbol hsolid hcode (hcs.single c))
  rwa [Lexer.tokenText, if_neg hkind] at hspells

theorem comma : Spells (", ".toList ++ cs) ((.comma, ",") :: ls) :=
  h.blank.symbol (c := ',') (by decide) (.blank _)

theorem keyword (k : Keyword) (hcs : EndsWord cs) :
    Spells (k.letters ++ cs) (k.spelled :: ls) := by
  obtain ⟨c, tail, heq, hstart, htail⟩ := k.wordlike_letters
  have hword : Keyword.ofWord? (c :: tail) = some k := heq ▸ Keyword.ofWord?_letters k
  have hfits := Element.fits_of_wordlike ⟨c, tail, rfl, hstart, htail⟩ hcs.stop
  have hspells := h.lexeme hfits
  rw [Lexer.wordKind_of_ofWord? hword, ← heq] at hspells
  have htext : String.ofList (Lexer.tokenText (.keyword k) c tail) = k.text := by
    rw [Keyword.text, heq]
    rfl
  rwa [htext] at hspells

theorem name (n : WrittenName) (hcs : EndsWord cs) :
    Spells (n.text.toList ++ cs) (n.spelled :: ls) := by
  cases n with
  | bare name hname =>
      obtain ⟨c, tail, heq, hstart, htail, hreserved⟩ := hname
      have hnone : Keyword.ofWord? (c :: tail) = none := by
        simpa [isReserved, heq] using hreserved
      have hfits := Element.fits_of_wordlike ⟨c, tail, rfl, .inr hstart, htail⟩ hcs.stop
      have hspells := h.lexeme hfits
      rw [Lexer.wordKind_of_isReserved hstart hnone, ← heq] at hspells
      have htext : String.ofList (Lexer.tokenText .identifier c tail) = name := by
        rw [← String.ofList_toList (s := name), heq]
        rfl
      rwa [htext] at hspells
  | delimited opening hopening name =>
      have hrest := hcs.head?_ne_closing hopening
      have hspells := h.lexeme (Element.fits_enclosed hopening name.toList hrest)
      rw [Lexer.tokenText_enclosed, String.ofList_toList] at hspells
      simpa [WrittenName.text, WrittenName.spelled, Delimited.enclose] using hspells

theorem item (i : TableItem) (hcs : IsBoundary cs) :
    Spells (i.text.toList ++ cs) (i.spelled ++ ls) := by
  obtain ⟨table, label⟩ := i
  cases label with
  | none => simpa [TableItem.text, TableItem.spelled] using h.name table hcs.endsWord
  | some a =>
      have hlabel := (h.name a hcs.endsWord).blank.keyword .AS (.blank _)
      have hitem := hlabel.blank.name table (.blank _)
      simpa [TableItem.text, TableItem.spelled, Keyword.letters] using hitem

theorem qualified (n : QualifiedName) (hcs : IsBoundary cs) :
    Spells (n.text.toList ++ cs) (n.spelled ++ ls) := by
  have hname := (h.name n.column hcs.endsWord).dot.name n.qualifier (.dot _)
  simpa [QualifiedName.text, QualifiedName.spelled] using hname

theorem condition (c : JoinCondition) (hcs : IsBoundary cs) :
    Spells (c.text.toList ++ cs) (c.spelled ++ ls) := by
  have hequals := (h.qualified c.right hcs).blank.symbol (c := '=') (by decide) (.blank _)
  have hleft := hequals.blank.qualified c.left (.blank _)
  simpa [JoinCondition.text, JoinCondition.spelled, Lexer.symbolKind] using hleft

theorem separator (l : TableLink) : Spells (l.separatorText.toList ++ cs) (l.separator ++ ls) := by
  have hjoin := (h.blank.keyword .JOIN (.blank _)).blank
  cases l with
  | comma i => exact h.comma
  | join i c =>
      show Spells (" JOIN ".toList ++ cs) (Keyword.JOIN.spelled :: ls)
      simpa [Keyword.letters] using hjoin
  | leftJoin i c =>
      show Spells (" LEFT JOIN ".toList ++ cs) (Keyword.LEFT.spelled :: Keyword.JOIN.spelled :: ls)
      simpa [Keyword.letters] using (hjoin.keyword .LEFT (.blank _)).blank
  | crossJoin i =>
      show Spells (" CROSS JOIN ".toList ++ cs) (Keyword.CROSS.spelled :: Keyword.JOIN.spelled :: ls)
      simpa [Keyword.letters] using (hjoin.keyword .CROSS (.blank _)).blank

theorem link (l : TableLink) (hcs : IsBoundary cs) :
    Spells (l.text.toList ++ cs) (l.spelled ++ ls) := by
  cases hcondition : l.condition? with
  | none =>
      have hlink := (h.item l.item hcs).separator l
      simpa [TableLink.text, TableLink.spelled, hcondition] using hlink
  | some c =>
      have hon := ((h.condition c hcs).blank.keyword .ON (.blank _)).blank
      have hlink := (hon.item l.item (.blank _)).separator l
      simpa [TableLink.text, TableLink.spelled, hcondition, Keyword.letters] using hlink

/-- Texts in a row, none of which goes on with the word in front of it. -/
theorem join {α : Type} {text : α → String} {spelled : α → List (TokenKind × String)}
    (hboundary : ∀ a cs, IsBoundary ((text a).toList ++ cs))
    (hspells : ∀ a {cs ls}, Spells cs ls → IsBoundary cs →
      Spells ((text a).toList ++ cs) (spelled a ++ ls))
    (hcs : IsBoundary cs) (as : List α) :
    IsBoundary ((String.join (as.map text)).toList ++ cs) ∧
      Spells ((String.join (as.map text)).toList ++ cs) (as.flatMap spelled ++ ls) := by
  simp only [String.toList_join, List.flatMap_map]
  induction as with
  | nil => exact ⟨hcs, h⟩
  | cons a as ih =>
      obtain ⟨hnext, htext⟩ := ih
      rw [List.flatMap_cons, List.flatMap_cons, List.append_assoc, List.append_assoc]
      exact ⟨hboundary a _, hspells a htext hnext⟩

theorem listing (l : TableListing) (hcs : IsBoundary cs) :
    Spells (l.text.toList ++ cs) (l.spelled ++ ls) := by
  obtain ⟨hboundary, hlinks⟩ := h.join IsBoundary.link (fun l _ _ h => h.link l) hcs l.links
  have hfirst := hlinks.item l.first hboundary
  simpa [TableListing.text, TableListing.spelled] using hfirst

theorem selectFrom : Spells ("SELECT * FROM ".toList ++ cs) (Statement.selectFrom ++ ls) := by
  have hfrom := (h.blank.keyword .FROM (.blank _)).blank
  have hselect := (hfrom.symbol (c := '*') (by decide) (.blank _)).blank.keyword .SELECT (.blank _)
  simpa [Statement.selectFrom, Keyword.letters, Lexer.symbolKind] using hselect

end Spells

/-! ### Queries -/

namespace Statement

/-- In parentheses all items of a list are found. At the top level all are found just if no comma
stands behind an open join condition, and if one does, what is found is the rest. -/
theorem tables_parse_listing (l : TableListing) :
    (parse (tokenize ("SELECT * FROM ( " ++ l.text ++ " )"))).tables.map TableRef.unplaced =
        l.items.map TableItem.ref ∧
      (parse (tokenize ("SELECT * FROM " ++ l.text))).tables.map TableRef.unplaced =
        l.found.map TableItem.ref ∧
      (l.found = l.items ↔ ∀ front item behind, l.links = front ++ .comma item :: behind →
        TableLink.openBehind false front = false) := by
  refine ⟨?_, ?_, ?_⟩
  · have hclose := (Spells.nil.symbol (c := ')') (by decide) .nil).blank
    have hopen := (hclose.listing l (.blank _)).blank.symbol (c := '(') (by decide) (.blank _)
    refine tables_listing_group (o := (.parenOpen, "(")) (c := (.parenClose, ")")) rfl rfl ?_
    simpa [tokenize, tokenizeFrom, Lexer.symbolKind] using hopen.selectFrom .origin
  · have htext := (Spells.nil.listing l .nil).selectFrom
    refine tables_listing ?_
    simpa [tokenize, tokenizeFrom] using htext .origin
  · rw [TableListing.found, TableListing.items, List.cons.injEq, TableLink.found_eq_map_item_iff]
    exact and_iff_right rfl

/-- The comma of this list stands behind the condition of a join, so `c` is not found. -/
theorem exists_listing_not_found :
    ∃ l : TableListing, l.text = "a JOIN b ON x.y = z.w, c" ∧
      (l.items.map fun i => i.table.name) = ["a", "b", "c"] ∧
        (parse (tokenize ("SELECT * FROM " ++ l.text))).tables.map TableRef.name = ["a", "b"] ∧
          (parse (tokenize ("SELECT * FROM ( " ++ l.text ++ " )"))).tables.map TableRef.name =
            ["a", "b", "c"] := by
  have hname : ['a', 'b', 'c', 'x', 'y', 'z', 'w'].all fun c =>
      startsWord c && !isReserved (String.ofList [c]) := by
    decide +kernel
  let named (c : Char) (hc : c ∈ ['a', 'b', 'c', 'x', 'y', 'z', 'w']) : WrittenName :=
    have hc := Bool.and_eq_true_iff.1 (List.all_eq_true.1 hname c hc)
    .bare (String.ofList [c]) ⟨c, [], String.toList_ofList, hc.1, List.forall_mem_nil _,
      by simpa using hc.2⟩
  let condition : JoinCondition :=
    ⟨⟨named 'x' (by decide), named 'y' (by decide)⟩, ⟨named 'z' (by decide), named 'w' (by decide)⟩⟩
  have htext : TableListing.text ⟨⟨named 'a' (by decide), none⟩,
      [.join ⟨named 'b' (by decide), none⟩ condition, .comma ⟨named 'c' (by decide), none⟩]⟩ =
        "a JOIN b ON x.y = z.w, c" := rfl
  refine ⟨_, htext, rfl, ?_, ?_⟩ <;> rw [htext] <;> decide +kernel

end Statement

end

/-! ### Queries of names only -/

namespace TableSeparator

theorem isBoundary (s : TableSeparator) (cs : List Char) : IsBoundary (s.text.toList ++ cs) := by
  cases s <;> simp [IsBoundary, text]

end TableSeparator

namespace Spells

variable {cs : List Char} {ls : List (TokenKind × String)} (h : Spells cs ls)

include h

theorem dotted (i : DottedItem) (hcs : IsBoundary cs) :
    Spells (i.text.toList ++ cs) (i.spelled ++ ls) := by
  obtain ⟨outer, last⟩ := i
  induction outer with
  | nil => simpa [DottedItem.text, DottedItem.spelled, DottedItem.dotted] using h.item last hcs
  | cons n outer ih =>
      have hname := ih.dot.name n (.dot _)
      simpa [DottedItem.text, DottedItem.spelled, DottedItem.dotted] using hname

theorem tableSeparator (s : TableSeparator) : Spells (s.text.toList ++ cs) (s.spelled ++ ls) := by
  cases s with
  | comma => exact h.comma
  | crossJoin =>
      have hcross := ((h.blank.keyword .JOIN (.blank _)).blank.keyword .CROSS (.blank _)).blank
      simpa [TableSeparator.text, TableSeparator.spelled, Keyword.letters] using hcross

theorem items (i : SelectItem) (is : List SelectItem) (hcs : IsBoundary cs) :
    Spells ((i.listText is).toList ++ cs) (i.listSpelled is ++ ls) := by
  have hcomma : ∀ (j : SelectItem) (cs : List Char),
      IsBoundary ((", " ++ j.written.text).toList ++ cs) := by
    simp [IsBoundary]
  have hitem : ∀ (j : SelectItem) {cs : List Char} {ls : List (TokenKind × String)}, Spells cs ls →
      IsBoundary cs → Spells ((", " ++ j.written.text).toList ++ cs)
        ((.comma, ",") :: j.written.spelled ++ ls) := by
    intro j cs ls h hcs
    rw [String.toList_append, List.append_assoc, List.cons_append]
    exact (h.dotted j.written hcs).comma
  obtain ⟨hboundary, his⟩ := h.join hcomma hitem hcs is
  have hitems := his.dotted i.written hboundary
  simpa [SelectItem.listText, SelectItem.listSpelled] using hitems

theorem tables (t : ListedTable) (ts : List (TableSeparator × ListedTable)) (hcs : IsBoundary cs) :
    Spells ((t.listText ts).toList ++ cs) (t.listSpelled ts ++ ls) := by
  have hseparator : ∀ (u : TableSeparator × ListedTable) (cs : List Char),
      IsBoundary ((u.1.text ++ u.2.written.text).toList ++ cs) := by
    intro u cs
    rw [String.toList_append, List.append_assoc]
    exact u.1.isBoundary _
  have htable : ∀ (u : TableSeparator × ListedTable) {cs : List Char}
      {ls : List (TokenKind × String)}, Spells cs ls → IsBoundary cs →
      Spells ((u.1.text ++ u.2.written.text).toList ++ cs)
        (u.1.spelled ++ u.2.written.spelled ++ ls) := by
    intro u cs ls h hcs
    rw [String.toList_append, List.append_assoc, List.append_assoc]
    exact (h.dotted u.2.written hcs).tableSeparator u.1
  obtain ⟨hboundary, hts⟩ := h.join hseparator htable hcs ts
  have htables := hts.dotted t.written hboundary
  simpa [ListedTable.listText, ListedTable.listSpelled] using htables

end Spells

namespace SimpleSelect

theorem spells_text (q : SimpleSelect) : Spells q.text.toList q.spelled := by
  have hfrom := ((Spells.nil.tables q.table q.tables .nil).blank.keyword .FROM (.blank _)).blank
  have hselect := ((hfrom.items q.item q.items (.blank _)).blank.keyword .SELECT (.blank _))
  simpa [text, spelled, Keyword.letters] using hselect

/-- From the text of a query all names are read back, whatever characters they have, except that an
empty name of a database is read as none. -/
theorem isReadAs_parse (q : SimpleSelect) : q.IsReadAs (Statement.parse (tokenize q.text)) :=
  isReadAs_parse_of_spelled (q.spells_text .origin)

/-- The name of a database is lost if it is empty. -/
theorem exists_database_not_read :
    ∃ q : SimpleSelect, q.text = "SELECT [a] FROM [].[s].[t]" ∧ q.table.database = some "" ∧
      (Statement.parse (tokenize q.text)).tables.map TableRef.database = [none] := by
  let q : SimpleSelect :=
    { item := ⟨none, "a", none⟩
      items := []
      table := ⟨some "", some "s", "t", none, by simp, by simp⟩
      tables := [] }
  have htext : q.text = "SELECT [a] FROM [].[s].[t]" := by decide +kernel
  refine ⟨q, htext, rfl, ?_⟩
  rw [htext]
  decide +kernel

end SimpleSelect

end Tsql
