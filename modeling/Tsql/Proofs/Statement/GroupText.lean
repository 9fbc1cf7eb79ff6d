import Tsql.Proofs.Statement.TokensText

/-!
The text of a group in parentheses.

A text that ends in the closing parenthesis of a balanced group (`IsGroupText`) is read in the same
way whatever stands behind it (`Spells.group`). Of the elements of a text only the last one may
depend on what follows, and a parenthesis does not.
-/

namespace Tsql

open Text

/-! ### Elements with anything behind them -/

theorem Lexer.Block.of_ne_nil {depth : Nat} {body rest : List Char} (h : Block depth body rest)
    (hr : rest ≠ []) (rest' : List Char) : Block depth body rest' := by
  induction h with
  | closed => exact .closed
  | endless => contradiction
  | opening deeper ih => exact .opening (ih hr)
  | closing outer ih => exact .closing (ih hr)
  | @char depth c body rest opens closes inside ih =>
      cases body with
      | nil => cases inside with | endless => contradiction
      | cons d body => exact .char opens closes (ih hr)

/-- Behind an element only the next character matters, if there is one. -/
theorem Element.Fits.of_head {e : Element} {rest rest' : List Char} (h : e.Fits rest)
    (hr : rest ≠ []) (hhead : rest'.head? = rest.head?) : e.Fits rest' := by
  cases h with
  | blank solid => exact .blank solid
  | lineComment inside stop => exact .lineComment inside (hhead ▸ stop)
  | blockComment whole => exact .blockComment (whole.of_ne_nil hr rest')
  | lexeme solid code lexes =>
      exact .of_follows (.lexeme solid code lexes) id (.inl hhead)

/-- What the tokens of an element spell. -/
def Element.spelled (e : Element) : List (TokenKind × String) :=
  (e.tokensAt .origin).map Token.spelled

theorem Element.map_spelled_tokensAt (e : Element) (p : Position) :
    (e.tokensAt p).map Token.spelled = e.spelled := by
  cases e <;> rfl

theorem Elements.map_spelled_tokensFrom (es : List Element) (p : Position) :
    (tokensFrom p es).map Token.spelled = es.flatMap Element.spelled := by
  induction es generalizing p with
  | nil => rfl
  | cons e es ih =>
      rw [tokensFrom, List.map_append, e.map_spelled_tokensAt, ih, List.flatMap_cons]

/-- The text is a balanced group in parentheses up to its last character. Blanks and comments may
stand in front of it. -/
def IsGroupText (a : String) : Prop :=
  ∃ o ts c, tokenize a = o :: (ts ++ [c]) ∧ o.isOpen ∧ isBalanced ts ∧ c.isClose ∧
    c.stop = Position.origin.advance a.toList

namespace Spells

variable {cs : List Char} {ls : List (TokenKind × String)} (h : Spells cs ls)

include h

theorem element {e : Element} (hfits : e.Fits cs) : Spells (e.text ++ cs) (e.spelled ++ ls) := by
  intro p
  rw [Element.tokens_of_fits hfits, List.map_append, e.map_spelled_tokensAt, h]

theorem blanks {gap : List Char} (hgap : ∀ d ∈ gap, isBlank d) : Spells (gap ++ cs) ls := by
  induction gap with
  | nil => exact h
  | cons d gap ih =>
      obtain ⟨hd, hgap⟩ := List.forall_mem_cons.1 hgap
      exact (ih hgap).element (e := .blank d) (.blank hd)

end Spells

/-- Elements that stand in front of others are read in the same way whatever stands behind those. -/
theorem Spells.elements {es fs : List Element} {cs : List Char} {ls : List (TokenKind × String)}
    (hplaced : Elements.Placed (es ++ fs)) (hfs : fs ≠ [])
    (h : Spells (Elements.text fs ++ cs) ls) :
    Spells (Elements.text es ++ (Elements.text fs ++ cs)) (es.flatMap Element.spelled ++ ls) := by
  induction es with
  | nil => exact h
  | cons e es ih =>
      obtain ⟨f, fs, rfl⟩ := List.exists_cons_of_ne_nil hfs
      have hfits : e.Fits (Elements.text es ++ (Elements.text (f :: fs) ++ cs)) := by
        refine hplaced.1.of_head ?_ ?_
        · simp [Element.text]
        · have hne : Elements.text (es ++ f :: fs) ≠ [] := by simp [Element.text]
          rw [← List.append_assoc, ← Elements.text_append, List.head?_append_of_ne_nil _ hne]
          rfl
      simpa using (ih hplaced.2).element hfits

/-- The groups of tokens depend on what the tokens spell. -/
theorem isBalanced_congr {ts us : List Token}
    (h : ts.map Token.spelled = us.map Token.spelled) : isBalanced ts = isBalanced us := by
  suffices hall : ∀ depth, ts.foldlM (fun depth t => Token.openAfter? t depth) depth =
      us.foldlM (fun depth t => Token.openAfter? t depth) depth by
    rw [isBalanced, isBalanced, openGroups?_eq, openGroups?_eq, hall]
  induction ts generalizing us with
  | nil => simp [List.map_eq_nil_iff.1 h.symm]
  | cons t ts ih =>
      obtain ⟨u, us, rfl, hu, hus⟩ := List.map_eq_cons_iff.1 h.symm
      have hkind : t.kind = u.kind := (congrArg Prod.fst hu).symm
      have hstep : t.openAfter? = u.openAfter? := by
        funext depth
        unfold Token.openAfter? Token.isOpen Token.isClose
        rw [hkind]
      intro depth
      rw [List.foldlM_cons, List.foldlM_cons, hstep]
      exact congrArg _ (funext (ih hus.symm))

theorem Token.IsRead.text_of_isOpen {t : Token} {rest : List Char} (h : t.IsRead rest)
    (ho : t.isOpen) : t.text = "(" := by
  obtain ⟨c, tail, hfits, htext⟩ := h
  have hkind : t.kind = .parenOpen := of_decide_eq_true ho
  cases hfits with
  | lexeme solid code lexes =>
      obtain ⟨rfl, hsymbol, hc⟩ := lexes.of_kind (by simp [hkind])
      have hparen : ∀ d ∈ ['.', ',', '(', ')'], Lexer.symbolKind d = .parenOpen → d = '(' := by
        simp [Lexer.symbolKind]
      rw [htext, hparen c hc (hsymbol ▸ hkind), hkind]
      rfl

namespace IsGroupText

variable {a : String}

/-- Tokens that spell the group are a group. -/
theorem exists_tokens (h : IsGroupText a) {gs : List Token}
    (hgs : gs.map Token.spelled = (tokenize a).map Token.spelled) :
    ∃ o ts c, gs = o :: (ts ++ [c]) ∧ o.spelled = (.parenOpen, "(") ∧ isBalanced ts ∧
      c.isClose := by
  obtain ⟨o, ts, c, htokens, hopen, hbalanced, hclose, -⟩ := h
  have hread := AreRead.tokenize a
  rw [htokens] at hgs hread
  obtain ⟨⟨rest, hread, -⟩, -⟩ := hread
  obtain ⟨o', gs, rfl, ho, hgs⟩ := List.map_eq_cons_iff.1 hgs
  rw [List.map_append] at hgs
  obtain ⟨ts', cs', rfl, hts, hcs⟩ := List.map_eq_append_iff.1 hgs
  obtain ⟨c', rfl, hc⟩ := List.map_eq_singleton_iff.1 hcs
  refine ⟨o', ts', c', rfl, ?_, ?_, ?_⟩
  · have hkind : o.kind = .parenOpen := of_decide_eq_true hopen
    rw [ho, Token.spelled, hread.text_of_isOpen hopen, hkind]
  · rwa [isBalanced_congr hts]
  · have hkind : c'.kind = c.kind := congrArg Prod.fst hc
    rwa [Token.isClose, hkind]

/-- The last element of the text is the closing parenthesis. -/
theorem exists_elements (h : IsGroupText a) : ∃ es, Elements.Placed (es ++ [.symbol ')']) ∧
    a.toList = Elements.text es ++ [')'] := by
  obtain ⟨o, ts, c, htokens, -, -, hclose, hstop⟩ := h
  obtain ⟨es, htext, hplaced⟩ := Elements.exists_placed a.toList
  rw [tokenize, tokenizeFrom, ← htext, Elements.tokens_text hplaced] at htokens
  have hmem : c ∈ Elements.tokensFrom .origin es := by simp [htokens]
  obtain ⟨front, k, d, tail, back, rfl, rfl⟩ := Elements.exists_of_mem_tokensFrom hmem
  have hback : Elements.text back = [] := by
    by_contra hne
    obtain ⟨inner, last, heq⟩ : ∃ inner last, Elements.text back = inner ++ [last] :=
      ⟨_, _, (List.dropLast_concat_getLast hne).symm⟩
    have hall : a.toList = Elements.text front ++ d :: tail ++ (inner ++ [last]) := by
      rw [← htext, Elements.text_append, Elements.text_cons, heq, List.append_assoc]
      rfl
    have hlt := Elements.advance_lt_advance (Elements.text front ++ d :: tail) inner last
    rw [← hall] at hlt
    exact Position.lt_irrefl _ (hlt.trans_eq hstop.symm)
  obtain rfl : back = [] := by
    cases back with
    | nil => rfl
    | cons e back => simp [Element.text] at hback
  have hkind : k = .parenClose := of_decide_eq_true hclose
  cases hplaced.right.1 with
  | lexeme solid code lexes =>
      obtain ⟨rfl, rfl, hd⟩ := lexes.of_kind (by simp [hkind])
      obtain rfl : d = ')' := by
        have hparen : ∀ d ∈ ['.', ',', '(', ')'], Lexer.symbolKind d = .parenClose → d = ')' := by
          simp [Lexer.symbolKind]
        exact hparen d hd hkind
      exact ⟨front, hplaced, by rw [← htext, Elements.text_append]; rfl⟩

theorem endsWord (h : IsGroupText a) (cs : List Char) : EndsWord (a.toList ++ cs) := by
  obtain ⟨o, ts, c, htokens, hopen, -⟩ := h
  obtain ⟨es, htext, hplaced⟩ := Elements.exists_placed a.toList
  rw [tokenize, tokenizeFrom, ← htext, Elements.tokens_text hplaced] at htokens
  rw [← htext]
  cases es with
  | nil => simp [Elements.tokensFrom] at htokens
  | cons e es =>
      cases hplaced.1 with
      | blank solid => exact .of_isBlank solid _
      | lineComment =>
          intro d hd
          obtain rfl : '-' = d := Option.some.inj hd
          decide
      | blockComment =>
          intro d hd
          obtain rfl : '/' = d := Option.some.inj hd
          decide
      | @lexeme k d tail _ solid code lexes =>
          obtain ⟨rfl, -⟩ := List.cons.inj htokens
          have hkind : k = .parenOpen := of_decide_eq_true hopen
          obtain ⟨-, -, hd⟩ := lexes.of_kind (by simp [hkind])
          have hall : ['.', ',', '(', ')'].all fun d =>
              isWordChar d = false ∧ d ∉ ['\'', '"', ']'] := by decide
          intro x hx
          obtain rfl := Option.some.inj hx
          exact of_decide_eq_true (List.all_eq_true.1 hall _ hd)

end IsGroupText

/-- A group is read in the same way whatever stands behind it. -/
theorem Spells.group {a : String} (ha : IsGroupText a) {cs : List Char}
    {ls : List (TokenKind × String)} (h : Spells cs ls) :
    Spells (a.toList ++ cs) ((tokenize a).map Token.spelled ++ ls) := by
  obtain ⟨es, hplaced, htext⟩ := ha.exists_elements
  have hparen : (Element.symbol ')').Fits cs :=
    Element.fits_symbol (by decide) (by decide) (by decide) fun d _ hpair =>
      absurd (Lexer.operatorPairs_spec hpair).2.1 (by decide)
  have hgroup := Spells.elements hplaced (List.cons_ne_nil _ []) (h.element hparen)
  have hall : (tokenize a).map Token.spelled =
      (es ++ [Element.symbol ')']).flatMap Element.spelled := by
    have hplain : Elements.text es ++ [')'] = Elements.text (es ++ [.symbol ')']) := by
      rw [Elements.text_append]
      rfl
    rw [tokenize, tokenizeFrom, htext, hplain, Elements.tokens_text hplaced,
      Elements.map_spelled_tokensFrom]
  rw [htext, hall]
  simpa [Elements.text, Element.text_symbol] using hgroup

end Tsql
