import Tsql.Proofs.Statement.ListingText

/-!
The text that is written for some tokens.

A token that was read somewhere is read again from its own text, whatever of blanks, commas, dots
and parentheses the text goes on with (`Token.IsRead.leads_of_endsLexeme`). The tokens of a text have
each been read in front of the later ones (`AreRead.tokenize`), and so the text that is written for
any of them that stand in a row has the same tokens (`map_spelled_tokensText`).
-/

namespace Tsql

open Text

/-! ### Text that ends a lexeme -/

/-- The text goes on with nothing that could be part of the lexeme in front of it. -/
def EndsLexeme (cs : List Char) : Prop :=
  ∀ d ∈ cs.head?, d ∈ [' ', '.', ',', '(', ')']

theorem EndsLexeme.not_opensComment {cs : List Char} (h : EndsLexeme cs) (c : Char) :
    ¬ Element.OpensComment c cs := by
  have hall : '-' ∉ [' ', '.', ',', '(', ')'] ∧ '*' ∉ [' ', '.', ',', '(', ')'] := by decide
  rintro (⟨-, hd⟩ | ⟨-, hd⟩)
  · exact hall.1 (h _ hd)
  · exact hall.2 (h _ hd)

namespace Lexer

variable {k : TokenKind} {c : Char} {tail rest cs : List Char}

/-- A lexeme with text behind it is the same in front of a text that ends it. -/
theorem Lexes.of_endsLexeme (h : Lexes k c tail rest) (hr : rest ≠ []) (hcs : EndsLexeme cs) :
    Lexes k c tail cs := by
  have hclass : ∀ d ∈ cs.head?, isWordChar d = false ∧ d ∉ ['\'', '"', ']'] := by
    have hall : [' ', '.', ',', '(', ')'].all fun d =>
        isWordChar d = false ∧ d ∉ ['\'', '"', ']'] := by decide
    exact fun d hd => of_decide_eq_true (List.all_eq_true.1 hall d (hcs d hd))
  have hclose : ∀ close ∈ ['\'', '"', ']'], cs.head? ≠ some close := fun close hmem hd =>
    (hclass close hd).2 hmem
  cases h with
  | word start word stop plain =>
      refine .word start word (fun d hd => (hclass d hd).1) fun hn => ?_
      cases tail with
      | nil => exact hclose '\'' (by decide)
      | cons d tail => simpa using plain hn
  | national start whole => exact .national start (whole.of_head hr (hclose '\'' (by decide)))
  | quoted whole => exact .quoted (whole.of_head hr (hclose '\'' (by decide)))
  | bracketed start whole =>
      refine .bracketed start (whole.of_head hr (hclose _ ?_))
      rcases start with rfl | rfl <;> decide
  | symbol start single =>
      refine .symbol start fun d hd hpair => ?_
      have hall : ∀ p ∈ operatorPairs, p.getLastD 'x' ∉ [' ', '.', ',', '(', ')'] := by decide
      exact hall _ hpair (hcs d hd)
  | pair pair => exact .pair pair

/-- A dot, a comma and a parenthesis are written as one character. -/
theorem Lexes.of_kind (h : Lexes k c tail rest)
    (hk : k ∈ [.dot, .comma, .parenOpen, .parenClose]) :
    tail = [] ∧ k = symbolKind c ∧ c ∈ ['.', ',', '(', ')'] := by
  cases h with
  | word start word stop plain =>
      exfalso
      revert hk
      unfold wordKind
      split
      · split <;> decide
      · cases Keyword.ofWord? (c :: tail) <;> simp
  | national => exact absurd hk (by decide)
  | quoted => exact absurd hk (by decide)
  | bracketed => exact absurd hk (by decide)
  | symbol start single =>
      refine ⟨rfl, rfl, ?_⟩
      revert hk
      unfold symbolKind
      repeat' split
      all_goals simp_all
  | pair => exact absurd hk (by decide)

end Lexer

/-! ### A token by itself -/

namespace Token

/-- The token is read in front of the text `rest`. -/
def IsRead (t : Token) (rest : List Char) : Prop :=
  ∃ c tail, (Element.lexeme t.kind c tail).Fits rest ∧
    t.text = String.ofList (Lexer.tokenText t.kind c tail)

variable {t : Token} {rest cs : List Char}

/-- The text that is written for the token begins a text whose first token it is. -/
def Leads (t : Token) (cs : List Char) : Prop :=
  ∃ c tail, t.display.toList = c :: tail ∧ (Element.lexeme t.kind c tail).Fits cs ∧
    t.text = String.ofList (Lexer.tokenText t.kind c tail)

theorem Leads.spells (h : t.Leads cs) {ls : List (TokenKind × String)} (hcs : Spells cs ls) :
    Spells (t.display.toList ++ cs) (t.spelled :: ls) := by
  obtain ⟨c, tail, hdisplay, hfits, htext⟩ := h
  rw [hdisplay, spelled, htext]
  exact hcs.lexeme hfits

/-- Of a token that is no name in brackets the text is as it was read. -/
theorem leads_of_fits {c : Char} {tail : List Char} (hkind : t.kind ≠ .bracketed)
    (hfits : (Element.lexeme t.kind c tail).Fits cs)
    (htext : t.text = String.ofList (Lexer.tokenText t.kind c tail)) : t.Leads cs := by
  refine ⟨c, tail, ?_, hfits, htext⟩
  rw [display, if_neg hkind, htext, Lexer.tokenText, if_neg hkind, String.toList_ofList]

theorem leads_bracketed (hkind : t.kind = .bracketed) (hcs : cs.head? ≠ some ']') :
    t.Leads cs := by
  refine ⟨'[', Delimited.doubled ']' t.text.toList ++ [']'], ?_, ?_, ?_⟩
  · rw [display, if_pos hkind, String.toList_ofList, Delimited.enclose]
  · rw [hkind]
    exact Element.fits_enclosed (.inl rfl) t.text.toList hcs
  · have htext := Lexer.tokenText_enclosed '[' t.text.toList
    rw [hkind]
    exact (htext ▸ String.ofList_toList).symm

/-- At the end of a text the token is read again. -/
theorem IsRead.leads_nil (h : t.IsRead rest) : t.Leads [] := by
  by_cases hkind : t.kind = .bracketed
  · exact leads_bracketed hkind (by simp)
  · obtain ⟨c, tail, hfits, htext⟩ := h
    have hfollows : Follows rest [] := by
      by_cases hr : rest = []
      · exact .inl (by rw [hr])
      · exact .inr ⟨hr, by simp⟩
    exact leads_of_fits hkind (hfits.of_follows id hfollows) htext

theorem IsRead.leads_of_endsLexeme (h : t.IsRead rest) (hr : rest ≠ []) (hcs : EndsLexeme cs) :
    t.Leads cs := by
  by_cases hkind : t.kind = .bracketed
  · exact leads_bracketed hkind fun hd => absurd (hcs _ hd) (by decide)
  · obtain ⟨c, tail, hfits, htext⟩ := h
    refine leads_of_fits hkind ?_ htext
    cases hfits with
    | lexeme solid code lexes =>
        refine .lexeme solid ?_ (lexes.of_endsLexeme hr hcs)
        cases tail with
        | cons d tail => exact code
        | nil => exact hcs.not_opensComment c

/-- What is written behind a dot or an opening parenthesis does not matter to them. -/
theorem IsRead.leads_of_opens (h : t.IsRead rest) (hkind : t.kind = .dot ∨ t.kind = .parenOpen)
    (cs : List Char) : t.Leads cs := by
  obtain ⟨c, tail, hfits, htext⟩ := h
  have hmem : t.kind ∈ [.dot, .comma, .parenOpen, .parenClose] := by
    rcases hkind with hkind | hkind <;> simp [hkind]
  have hnot : t.kind ≠ .bracketed := fun heq => absurd (heq ▸ hmem) (by decide)
  refine leads_of_fits hnot ?_ htext
  cases hfits with
  | lexeme solid code lexes =>
      obtain ⟨rfl, hsymbol, hc⟩ := lexes.of_kind hmem
      have hall : ['.', ',', '(', ')'].all fun c => Lexer.isSymbol c ∧ (c ≠ '-' ∧ c ≠ '/') ∧
          ((Lexer.symbolKind c = .dot ∨ Lexer.symbolKind c = .parenOpen) →
            ∀ p ∈ Lexer.operatorPairs, p.headD 'x' ≠ c) := by
        decide
      obtain ⟨hstart, hcode, hpairs⟩ := of_decide_eq_true (List.all_eq_true.1 hall c hc)
      rw [hsymbol] at hkind ⊢
      exact Element.fits_symbol hstart solid hcode fun d _ hpair => hpairs hkind _ hpair rfl

/-- A sign that stands close to the token in front of it ends that token. -/
theorem IsRead.endsLexeme_display (h : t.IsRead rest)
    (hkind : t.kind ∈ [.dot, .comma, .parenOpen, .parenClose]) (cs : List Char) :
    EndsLexeme (t.display.toList ++ cs) := by
  obtain ⟨c, tail, hfits, htext⟩ := h
  cases hfits with
  | lexeme solid code lexes =>
      obtain ⟨rfl, -, hc⟩ := lexes.of_kind hkind
      have hnot : t.kind ≠ .bracketed := fun heq => absurd (heq ▸ hkind) (by decide)
      rw [display, if_neg hnot, htext, Lexer.tokenText, if_neg hnot, String.toList_ofList]
      intro d hd
      obtain rfl := Option.some.inj hd
      exact List.mem_cons_of_mem ' ' hc

end Token

/-! ### Tokens in a row -/

/-- Each token is read, in front of further text if there are further tokens. -/
def AreRead : List Token → Prop
  | [] => True
  | t :: ts => (∃ rest, t.IsRead rest ∧ (ts ≠ [] → rest ≠ [])) ∧ AreRead ts

namespace AreRead

variable {ts us : List Token}

theorem right (h : AreRead (ts ++ us)) : AreRead us := by
  induction ts with
  | nil => exact h
  | cons t ts ih => exact ih h.2

theorem left (h : AreRead (ts ++ us)) : AreRead ts := by
  induction ts with
  | nil => trivial
  | cons t ts ih =>
      obtain ⟨⟨rest, hread, hrest⟩, hts⟩ := h
      refine ⟨⟨rest, hread, fun hne => ?_⟩, ih hts⟩
      exact hrest (List.append_ne_nil_of_left_ne_nil hne us)

theorem of_isInfix (h : AreRead us) (hin : ts <:+: us) : AreRead ts := by
  obtain ⟨front, back, rfl⟩ := hin
  exact h.left.right

theorem tokensFrom {es : List Element} (h : Elements.Placed es) (p : Position) :
    AreRead (Elements.tokensFrom p es) := by
  induction es generalizing p with
  | nil => trivial
  | cons e es ih =>
      cases e with
      | lexeme k c tail =>
          refine ⟨⟨Elements.text es, ⟨c, tail, h.1, rfl⟩, fun hne hnil => hne ?_⟩, ih h.2 _⟩
          cases es with
          | nil => rfl
          | cons e es => simp [Element.text] at hnil
      | blank c => exact ih h.2 _
      | lineComment body => exact ih h.2 _
      | blockComment body => exact ih h.2 _

theorem tokenize (source : String) : AreRead (tokenize source) := by
  obtain ⟨es, htext, hplaced⟩ := Elements.exists_placed source.toList
  rw [Tsql.tokenize, tokenizeFrom, ← htext, Elements.tokens_text hplaced]
  exact tokensFrom hplaced _

end AreRead

theorem Token.of_isTightBefore {left right : Token} (h : left.isTightBefore right) :
    right.kind ∈ [.dot, .comma, .parenOpen, .parenClose] ∨ left.kind = .dot ∨
      left.kind = .parenOpen := by
  simp only [isTightBefore, Bool.or_eq_true, Bool.and_eq_true, decide_eq_true_eq] at h
  simp only [List.mem_cons, List.not_mem_nil, or_false]
  tauto

theorem exists_tokensText_cons (t : Token) (ts : List Token) :
    ∃ cs, (tokensText (t :: ts)).toList = t.display.toList ++ cs := by
  cases ts with
  | nil => exact ⟨[], (List.append_nil _).symm⟩
  | cons u ts =>
      rw [tokensText, String.append_assoc, String.toList_append]
      exact ⟨_, rfl⟩

/-- The text that is written for tokens that were read in a row has the same tokens. -/
theorem spells_tokensText {ts : List Token} (h : AreRead ts) :
    Spells (tokensText ts).toList (ts.map Token.spelled) := by
  induction ts with
  | nil => exact .nil
  | cons left ts ih =>
      obtain ⟨⟨rest, hread, hrest⟩, hts⟩ := h
      cases ts with
      | nil => simpa [tokensText] using hread.leads_nil.spells .nil
      | cons right ts =>
          have hne : rest ≠ [] := hrest (List.cons_ne_nil right ts)
          rw [tokensText, List.map_cons, String.append_assoc, String.toList_append,
            String.toList_append]
          have hspells := ih hts
          by_cases htight : left.isTightBefore right
          · rw [if_pos htight, String.toList_empty, List.nil_append]
            refine Token.Leads.spells ?_ hspells
            rcases Token.of_isTightBefore htight with hright | hleft
            · obtain ⟨⟨rest', hread', -⟩, -⟩ := hts
              obtain ⟨cs, hcs⟩ := exists_tokensText_cons right ts
              rw [hcs]
              exact hread.leads_of_endsLexeme hne (hread'.endsLexeme_display hright cs)
            · exact hread.leads_of_opens hleft _
          · rw [if_neg htight]
            have hblank : EndsLexeme (' ' :: (tokensText (right :: ts)).toList) := by
              simp [EndsLexeme]
            exact (hread.leads_of_endsLexeme hne hblank).spells hspells.blank

/-- The tokens of the text that is written for a part of the tokens of a text. -/
theorem map_spelled_tokensText {source : String} {ts : List Token} (h : ts <:+: tokenize source) :
    (tokenize (tokensText ts)).map Token.spelled = ts.map Token.spelled :=
  spells_tokensText ((AreRead.tokenize source).of_isInfix h) .origin

end Tsql
