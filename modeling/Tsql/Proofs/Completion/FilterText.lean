import Tsql.Proofs.Completion.Cursor
import Tsql.Proofs.Statement.Filter

/-!
The text of a query with a half-typed name behind an alias, and a cursor at its end.

The text is one line of code (`nonempty_filterSite`): its tokens are those of the head of the query,
which are the ones in front of the cursor's word, and behind them the alias, a dot and what has been
typed.
-/

namespace Tsql

open Text Scan

/-- A query of the table `t` with the alias `a`, where `p` has been typed of a column name. -/
def filterText (t a p : String) : String :=
  "SELECT * FROM " ++ t ++ " " ++ a ++ " WHERE " ++ a ++ "." ++ p

theorem toList_filterText (t a p : String) :
    (filterText t a p).toList =
      "SELECT * FROM ".toList ++ t.toList ++ " ".toList ++ a.toList ++ " WHERE ".toList ++
        a.toList ++ ".".toList ++ p.toList := by
  unfold filterText
  simp only [String.toList_append]

namespace Elements

open Element (word symbol blank)

/-- The elements in front of the name that is being typed, and its qualifier. -/
def headElements (c : Char) (t : List Char) (d : Char) (a : List Char) : List Element :=
  [word 'S' ['E', 'L', 'E', 'C', 'T'], blank ' ', symbol '*', blank ' ',
    word 'F' ['R', 'O', 'M'], blank ' ', word c t, blank ' ', word d a, blank ' ',
    word 'W' ['H', 'E', 'R', 'E'], blank ' ']

theorem text_headElements (c : Char) (t : List Char) (d : Char) (a : List Char) :
    text (headElements c t d a) =
      "SELECT * FROM ".toList ++ c :: t ++ " ".toList ++ d :: a ++ " WHERE ".toList := by
  simp [headElements, Element.text_word, Element.text_symbol, Element.text_blank]

theorem placed_word_blank {c : Char} {tail : List Char} (hw : Wordlike (c :: tail))
    {es : List Element} (h : Placed es) : Placed (word c tail :: blank ' ' :: es) := by
  refine ⟨Element.fits_of_wordlike hw fun d hd => ?_, .blank (by decide), h⟩
  obtain rfl := Option.some.inj hd
  decide

/-- The elements of a query whose condition is the alias, a dot and some characters of a name. -/
def filterElements (c : Char) (t : List Char) (d : Char) (a p : List Char) : List Element :=
  headElements c t d a ++ word d a :: symbol '.' :: typed p

section

variable {c d : Char} {t a p : List Char}

theorem text_filterElements :
    text (filterElements c t d a p) =
      "SELECT * FROM ".toList ++ c :: t ++ " ".toList ++ d :: a ++ " WHERE ".toList ++ d :: a ++
        ".".toList ++ p := by
  rw [filterElements, text_append, text_headElements]
  simp [Element.text_word, Element.text_symbol]

theorem placed_filterElements (hc : startsWord c) (ht : ∀ x ∈ t, isWordChar x)
    (hd : startsWord d) (ha : ∀ x ∈ a, isWordChar x) (hp : ∀ x ∈ p, isWordChar x) :
    Placed (filterElements c t d a p) := by
  have htable : Wordlike (c :: t) := ⟨c, t, rfl, .inr hc, ht⟩
  have halias : Wordlike (d :: a) := ⟨d, a, rfl, .inr hd, ha⟩
  have hstar : ∀ es, (symbol '*').Fits (text (blank ' ' :: es)) := by
    refine fun es => Element.fits_symbol (by decide) (by decide) (by decide) fun x hx => ?_
    obtain rfl := Option.some.inj hx
    decide
  refine placed_word_blank Keyword.SELECT.wordlike_letters ⟨hstar _, .blank (by decide), ?_⟩
  refine placed_word_blank Keyword.FROM.wordlike_letters ?_
  refine placed_word_blank htable (placed_word_blank halias ?_)
  refine placed_word_blank Keyword.WHERE.wordlike_letters ⟨?_, Element.fits_dot _, placed_typed hp⟩
  refine Element.fits_of_wordlike halias fun x hx => ?_
  obtain rfl := Option.some.inj hx
  decide

theorem isCode_filterElements : ∀ e ∈ filterElements c t d a p, e.IsCode := by
  have hhead : ∀ e ∈ headElements c t d a, e.IsCode := by
    have hblank : (blank ' ').IsCode := .blank (by decide)
    simp [headElements, Element.IsCode.word, Element.IsCode.symbol, hblank]
  have hback : ∀ e ∈ word d a :: symbol '.' :: typed p, e.IsCode :=
    List.forall_mem_cons.2 ⟨.word d a, List.forall_mem_cons.2 ⟨.symbol '.', isCode_of_mem_typed⟩⟩
  intro e he
  exact (List.mem_append.1 he).elim (hhead e) (hback e)

/-- The tokens of the head. -/
theorem exists_filterHead (hc : startsWord c) (hd : startsWord d)
    (ht : Keyword.ofWord? (c :: t) = none) (ha : Keyword.ofWord? (d :: a) = none) :
    ∃ q : FilterHead (String.ofList (c :: t)) (String.ofList (d :: a)),
      tokensFrom .origin (headElements c t d a) = q.tokens := by
  have hselect : Lexer.wordKind 'S' ['E', 'L', 'E', 'C', 'T'] = .keyword .SELECT :=
    Lexer.wordKind_of_ofWord? (Keyword.ofWord?_letters .SELECT)
  have hsources : Lexer.wordKind 'F' ['R', 'O', 'M'] = .keyword .FROM :=
    Lexer.wordKind_of_ofWord? (Keyword.ofWord?_letters .FROM)
  have hfilter : Lexer.wordKind 'W' ['H', 'E', 'R', 'E'] = .keyword .WHERE :=
    Lexer.wordKind_of_ofWord? (Keyword.ofWord?_letters .WHERE)
  have htable := Lexer.wordKind_of_isReserved hc ht
  have halias := Lexer.wordKind_of_isReserved hd ha
  refine ⟨{
    select := _, star := _, sources := _, table := _, label := _, filter := _
    select_kind := hselect
    star_kind := rfl
    sources_kind := hsources
    table_kind := htable
    table_text := ?_
    label_kind := halias
    label_text := ?_
    filter_kind := hfilter }, rfl⟩
  · show String.ofList (Lexer.tokenText (Lexer.wordKind c t) c t) = _
    rw [htable]
    rfl
  · show String.ofList (Lexer.tokenText (Lexer.wordKind d a) d a) = _
    rw [halias]
    rfl

/-- The tokens of the alias, the dot and what has been typed. -/
theorem tokensFrom_qualified (pos : Position) (hd : startsWord d)
    (ha : Keyword.ofWord? (d :: a) = none) (hp : ∀ x ∈ p, isWordChar x) :
    (typedKeyword? p = none ∧
        (∀ u ∈ tokensFrom pos (word d a :: symbol '.' :: typed p), u.IsPlain) ∧
          tokensFrom pos (word d a :: symbol '.' :: typed p) ≠ []) ∨
      ∃ k ts w, typedKeyword? p = some k ∧
        tokensFrom pos (word d a :: symbol '.' :: typed p) = ts ++ [w] ∧
          (∀ u ∈ ts, u.IsPlain) ∧ ts ≠ [] ∧ w.kind = .keyword k := by
  have halias : Token.IsPlain ⟨Lexer.wordKind d a,
      String.ofList (Lexer.tokenText (Lexer.wordKind d a) d a), pos, pos.advance (d :: a)⟩ :=
    .inr (.inl (Lexer.wordKind_of_isReserved hd ha))
  have hdot : ∀ start, Token.IsPlain ⟨.dot, String.ofList ['.'], start, start.advance ['.']⟩ :=
    fun start => .inr (.inr (.inr rfl))
  rcases tokensFrom_typed ((pos.advance (d :: a)).advance ['.']) hp with
    ⟨hnone, hplain⟩ | ⟨k, ts, w, hsome, hts, hplain, hkind⟩
  · exact .inl ⟨hnone,
      List.forall_mem_cons.2 ⟨halias, List.forall_mem_cons.2 ⟨hdot _, hplain⟩⟩,
      List.cons_ne_nil _ _⟩
  · refine .inr ⟨k, _ :: _ :: ts, w, hsome, congrArg (fun us => _ :: _ :: us) hts, ?_,
      List.cons_ne_nil _ _, hkind⟩
    exact List.forall_mem_cons.2 ⟨halias, List.forall_mem_cons.2 ⟨hdot _, hplain⟩⟩

/-- The text is one line and does not separate batches. -/
theorem separators_filterElements (h : Placed (filterElements c t d a p)) :
    Batch.separators (mask (text (filterElements c t d a p))) = [] := by
  have hcode := uncommented_of_isCode h isCode_filterElements
  have hline : Element.lineFeed ∉ filterElements c t d a p := fun hmem =>
    (isCode_filterElements _ hmem).ne_lineFeed rfl
  rw [mask_text h, hcode.flatMap_blanks Element.blanks_masked, Batch.separators,
    Batch.markedLines_unit hcode hline, Batch.separatorsFrom_unit hcode hline]
  rfl

end

end Elements

/-! ### The cursor at the end of the text -/

/-- The site of the cursor at the end of the query. -/
def filterSite (t a p : String) : CursorSite :=
  .ofCursor (filterText t a p).toList (Position.origin.advance (filterText t a p).toList)

/-- What is found at the end of the query: the tokens of its head and those behind it. -/
structure FilterSite (t a p : String) where
  head : FilterHead t a
  rest : List Token
  maskedTokens : Buffer.maskedTokens .origin (filterText t a p) = head.tokens ++ rest
  separators : Batch.separators (mask (filterText t a p).toList) = []
  isInert : (filterSite t a p).isInert = false
  before : (filterSite t a p).before = head.tokens
  typed : (filterSite t a p).word.typed = p
  qualifier : (filterSite t a p).word.qualifier = some a
  isBracketed : (filterSite t a p).word.isBracketed = false
  stop_le : ∀ u ∈ head.tokens ++ rest, u.stop ≤ (filterSite t a p).position
  rest_plain : (typedKeyword? p.toList = none ∧ (∀ u ∈ rest, u.IsPlain) ∧ rest ≠ []) ∨
    ∃ k ts w, typedKeyword? p.toList = some k ∧ rest = ts ++ [w] ∧ (∀ u ∈ ts, u.IsPlain) ∧
      ts ≠ [] ∧ w.kind = .keyword k

open Elements in
theorem nonempty_filterSite {t a p : String} (ht : IsIdentifier t) (ha : IsIdentifier a)
    (hp : ∀ x ∈ p.toList, isWordChar x) : Nonempty (FilterSite t a p) := by
  obtain ⟨c, tail, htable, hc, htail, hreserved⟩ := ht
  obtain ⟨d, name, halias, hd, hname, hreserved'⟩ := ha
  rw [isReserved, htable, Option.isSome_eq_false_iff, Option.isNone_iff_eq_none] at hreserved
  rw [isReserved, halias, Option.isSome_eq_false_iff, Option.isNone_iff_eq_none] at hreserved'
  have hplaced := placed_filterElements hc htail hd hname hp
  have htext : text (filterElements c tail d name p.toList) = (filterText t a p).toList := by
    rw [toList_filterText, htable, halias]
    exact text_filterElements
  have hsplit : (filterText t a p).toList =
      text (headElements c tail d name) ++ (d :: name) ++ '.' :: p.toList := by
    rw [← htext, filterElements, text_append, List.append_assoc]
    simp [Element.text_word, Element.text_symbol]
  have hstate := stateAt_of_isCode hplaced isCode_filterElements
  have hseparators := separators_filterElements hplaced
  have htokens := Buffer.maskedTokens_eq hplaced htext
  rw [htext] at hstate hseparators
  have hfront : ∀ x ∈ (text (headElements c tail d name)).getLast?, isWordChar x = false := by
    intro x hx
    rw [text_headElements, List.getLast?_append_of_ne_nil _ (by simp)] at hx
    obtain rfl : ' ' = x := by simpa using hx
    decide
  obtain ⟨hposition, hstate', hword⟩ := CursorSite.ofCursor_advance (filterText t a p).toList
  rw [hstate] at hstate' hword
  have hword : (filterSite t a p).word = _ := hword.trans
    ((congrArg (CursorWord.atEnd · false) hsplit).trans
      (CursorWord.atEnd_qualified hfront hd hname hp))
  obtain rfl : String.ofList (c :: tail) = t := by rw [← htable, String.ofList_toList]
  obtain rfl : String.ofList (d :: name) = a := by rw [← halias, String.ofList_toList]
  obtain ⟨q, hq⟩ := exists_filterHead hc hd hreserved hreserved'
  have hhead := htokens
  rw [filterElements, tokensFrom_append, hq] at hhead
  refine ⟨q, _, hhead, hseparators, ?_, ?_, ?_, ?_, ?_, ?_, ?_⟩
  · rw [CursorSite.isInert, show (filterSite _ _ p).state = .normal from hstate']
    rfl
  · refine (CursorSite.before_ofCursor _ _).trans ?_
    have hstart := congrArg CursorWord.start hword
    rw [filterSite] at hstart
    rw [hstart, htokens]
    dsimp only
    rw [hsplit, List.append_assoc, Cursor.positionAt_size, filterElements, filter_tokensFrom, hq]
  · exact (congrArg CursorWord.typed hword).trans String.ofList_toList
  · exact congrArg CursorWord.qualifier hword
  · exact congrArg CursorWord.isBracketed hword
  · intro u hu
    rw [← hhead, htokens] at hu
    rw [show (filterSite _ _ p).position = _ from hposition, ← htext]
    exact stop_le_advance u hu
  · exact tokensFrom_qualified _ hd hreserved' hp

end Tsql
