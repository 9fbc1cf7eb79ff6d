import Mathlib.Data.List.Chain
import Tsql.Proofs.Elements.Scan

/-!
The state of the pass over a text at each of its characters, and the token that explains it.

A cursor inside brackets is inside a bracketed token (`exists_bracketed`). A character of a word
never ends a literal or comment, so a dot in front of a word that ends in code is in code itself,
and a token of its own (`exists_dot`).
-/

namespace Tsql

open Text

namespace Scan

/-- The characters of a piece, each with the state behind the piece. -/
def Piece.states (p : Piece) : List (Char × State) :=
  p.text.map fun c => (c, p.after)

/-- The characters of a text, each with the state behind the step that reads it. -/
def charStates (cs : List Char) : List (Char × State) :=
  (pieces .normal cs).flatMap Piece.states

@[simp] theorem Piece.map_fst_states (p : Piece) : p.states.map Prod.fst = p.text := by
  simp [Piece.states, Function.comp_def]

theorem map_fst_flatMap_states (ps : List Piece) :
    (ps.flatMap Piece.states).map Prod.fst = ps.flatMap Piece.text := by
  simp [List.map_flatMap]

theorem map_fst_charStates (cs : List Char) : (charStates cs).map Prod.fst = cs := by
  rw [charStates, map_fst_flatMap_states, List.flatMap_def, flatten_pieces]

/-! ### The state at a cursor -/

theorem stateAfter_of_le {target offset : Nat} (h : target ≤ offset) (s : State)
    (ps : List Piece) : stateAfter target s offset ps = s := by
  cases ps with
  | nil => rfl
  | cons p ps => rw [stateAfter, if_pos h]

/-- The state for a cursor right behind a character is the one that its step leaves. -/
theorem stateAfter_of_states {ps : List Piece} {as bs : List (Char × State)} {c : Char} {s : State}
    (h : ps.flatMap Piece.states = as ++ (c, s) :: bs) (before : State) (offset : Nat) :
    stateAfter (offset + (size (as.map Prod.fst) + c.utf8Size)) before offset ps = s := by
  induction ps generalizing as before offset with
  | nil => simp at h
  | cons p ps ih =>
      have hpos := Char.utf8Size_pos c
      rw [stateAfter, if_neg (by omega)]
      rw [List.flatMap_cons] at h
      -- the character is in the first piece or behind it
      have hlater : ∀ as', as = p.states ++ as' → ps.flatMap Piece.states = as' ++ (c, s) :: bs →
          stateAfter (offset + (size (as.map Prod.fst) + c.utf8Size)) p.after
            (offset + size p.text) ps = s := by
        intro as' has hps
        have hsum : offset + (size (as.map Prod.fst) + c.utf8Size) =
            offset + size p.text + (size (as'.map Prod.fst) + c.utf8Size) := by
          rw [has, List.map_append, Piece.map_fst_states, size_append]
          omega
        rw [hsum]
        exact ih hps _ _
      rcases List.append_eq_append_iff.1 h with ⟨as', has, hps⟩ | ⟨cs, hp, hps⟩
      · exact hlater as' has hps
      · cases cs with
        | nil => exact hlater [] (by simpa using hp.symm) hps.symm
        | cons x cs =>
            obtain ⟨rfl, -⟩ := List.cons.inj hps
            have htext : p.text = as.map Prod.fst ++ c :: cs.map Prod.fst := by
              rw [← p.map_fst_states, hp]
              simp
            have hafter : p.after = s := by
              have hmem : (c, s) ∈ p.states := by simp [hp]
              obtain ⟨d, -, heq⟩ := List.mem_map.1 hmem
              exact (Prod.mk.inj heq).2
            rw [stateAfter_of_le ?_, hafter]
            rw [htext, size_append, size_cons]
            omega

/-- The state for a cursor behind some characters is the one at the last of them. -/
theorem stateAt_of_charStates {cs : List Char} (xs bs : List (Char × State))
    (h : charStates cs = xs ++ bs) (hne : xs ≠ []) :
    stateAt cs (size (xs.map Prod.fst)) = (xs.getLast hne).2 := by
  have hlast := List.dropLast_concat_getLast hne
  rw [← hlast, List.append_assoc, List.singleton_append] at h
  have hstate := stateAfter_of_states h .normal 0
  have hsize : size (xs.map Prod.fst) =
      size (xs.dropLast.map Prod.fst) + (xs.getLast hne).1.utf8Size := by
    conv_lhs => rw [← hlast, List.map_append, size_append]
    rfl
  rw [stateAt, hsize]
  rwa [Nat.zero_add] at hstate

/-! ### Words end no literal -/

/-- The closing delimiter of the state is no character of a word. -/
def State.IsSound (s : State) : Prop :=
  ∀ delimiter, s = quoted delimiter → isWordChar delimiter = false

/-- A quoted text that a step begins or continues has a quote or the delimiter that it had. -/
theorem delimiter_of_step {s : State} {c : Char} {following : Option Char} {delimiter : Char}
    (h : (s.step c following).after = .quoted delimiter) :
    s = .quoted delimiter ∨ delimiter = '\'' ∨ delimiter = '"' := by
  cases s with
  | normal =>
      simp only [State.step] at h
      split at h
      · contradiction
      split at h
      · contradiction
      split at h
      · next hc =>
        obtain rfl := State.quoted.inj h
        exact .inr hc
      split at h <;> contradiction
  | lineComment =>
      simp only [State.step] at h
      split at h <;> contradiction
  | blockComment depth =>
      simp only [State.step] at h
      split at h
      · contradiction
      split at h
      · dsimp only at h
        split at h <;> contradiction
      · contradiction
  | quoted d =>
      simp only [State.step] at h
      split at h
      · split at h
        · exact .inl h
        · contradiction
      · exact .inl h
  | bracket =>
      simp only [State.step] at h
      split at h
      · split at h <;> contradiction
      · contradiction

theorem isSound_after {s : State} (hs : s.IsSound) (c : Char) (following : Option Char) :
    (s.step c following).after.IsSound := by
  intro delimiter h
  rcases delimiter_of_step h with h | rfl | rfl
  · exact hs delimiter h
  · decide
  · decide

theorem normal_of_step_word {s : State} (hs : s.IsSound) {c : Char} (hc : isWordChar c)
    {following : Option Char} (h : (s.step c following).after = .normal) : s = .normal := by
  have hne : ∀ d, isWordChar d = false → c ≠ d := by
    rintro d hd rfl
    rw [hc] at hd
    contradiction
  cases s with
  | normal => rfl
  | lineComment =>
      simp only [State.step, if_neg (hne '\n' (by decide))] at h
      contradiction
  | blockComment depth =>
      have hopen : ¬ (c = '/' ∧ following = some '*') := fun h => hne '/' (by decide) h.1
      have hclose : ¬ (c = '*' ∧ following = some '/') := fun h => hne '*' (by decide) h.1
      simp only [State.step, if_neg hopen, if_neg hclose] at h
      contradiction
  | quoted d =>
      simp only [State.step, if_neg (hne d (hs d rfl))] at h
      contradiction
  | bracket =>
      simp only [State.step, if_neg (hne ']' (by decide))] at h
      contradiction

/-- Where the second character belongs to a word that is in code, so is the first one. -/
def StaysOut (x y : Char × State) : Prop :=
  isWordChar y.1 → y.2 = .normal → x.2 = .normal

theorem isChain_states {s : State} (hs : s.IsSound) (before : Char) (cs : List Char) :
    ((before, s) :: (pieces s cs).flatMap Piece.states).IsChain StaysOut := by
  fun_induction pieces s cs generalizing before with
  | case1 => exact .singleton _
  | case2 s c => exact .cons_cons (fun hc h => normal_of_step_word hs hc h) (.singleton _)
  | case3 s c d rest m _ ih =>
      have hrest := ih (isSound_after hs c (some d)) d
      exact .cons_cons (fun hc h => normal_of_step_word hs hc h) (.cons_cons (fun _ h => h) hrest)
  | case4 s c d rest m _ ih =>
      have hrest := ih (isSound_after hs c (some d)) c
      exact .cons_cons (fun hc h => normal_of_step_word hs hc h) hrest

theorem isChain_charStates (cs : List Char) : (charStates cs).IsChain StaysOut := by
  have hnormal : State.normal.IsSound := by
    intro delimiter h
    contradiction
  exact (isChain_states hnormal ' ' cs).tail

/-- A word that ends in code begins behind a character that is in code. -/
theorem normal_of_isChain {x : Char × State} {ws bs : List (Char × State)}
    (h : (x :: (ws ++ bs)).IsChain StaysOut) (hw : ∀ w ∈ ws, isWordChar w.1)
    (hlast : ((x :: ws).getLast (List.cons_ne_nil x ws)).2 = .normal) : x.2 = .normal := by
  induction ws generalizing x with
  | nil => exact hlast
  | cons w ws ih =>
      obtain ⟨hword, hws⟩ := List.forall_mem_cons.1 hw
      obtain ⟨hxw, hrest⟩ := List.isChain_cons_cons.1 h
      rw [List.getLast_cons (List.cons_ne_nil w ws)] at hlast
      exact hxw hword (ih hrest hws hlast)

theorem stateAt_before_word {cs front word behind : List Char} {c : Char}
    (h : cs = front ++ c :: (word ++ behind)) (hword : ∀ d ∈ word, isWordChar d)
    (hstate : stateAt cs (size (front ++ c :: word)) = .normal) :
    stateAt cs (size (front ++ [c])) = .normal := by
  have hmap : (charStates cs).map Prod.fst = front ++ c :: (word ++ behind) := by
    rw [map_fst_charStates, h]
  obtain ⟨as, xs, hsplit, rfl, hxs⟩ := List.map_eq_append_iff.1 hmap
  obtain ⟨x, ys, rfl, rfl, hys⟩ := List.map_eq_cons_iff.1 hxs
  obtain ⟨ws, bs, rfl, rfl, -⟩ := List.map_eq_append_iff.1 hys
  -- the states behind the first character and behind the word
  have hne : as ++ x :: ws ≠ [] := by simp
  have hbehind := stateAt_of_charStates (as ++ x :: ws) bs (by simpa using hsplit) hne
  have hfirst := stateAt_of_charStates (as ++ [x]) (ws ++ bs) (by simpa using hsplit) (by simp)
  rw [List.map_append, List.map_cons, hstate] at hbehind
  rw [List.map_append, List.map_singleton] at hfirst
  rw [hfirst, List.getLast_append_singleton]
  have hchain : (x :: (ws ++ bs)).IsChain StaysOut := by
    have hall := isChain_charStates cs
    rw [hsplit] at hall
    exact hall.right_of_append
  refine normal_of_isChain hchain (fun w hw => hword _ (List.mem_map_of_mem hw)) ?_
  rw [hbehind, List.getLast_append_of_ne_nil]

/-- The piece that ends a block comment is its closing pair. -/
theorem text_of_mem_block {depth : Nat} {body rest : List Char} (h : Lexer.Block depth body rest) :
    ∀ p ∈ pieces (.inBlock depth) body, p.after = .normal → p.text = ['*', '/'] := by
  induction h with
  | closed => simp [pieces]
  | endless => simp [pieces]
  | @opening depth _ _ deeper ih =>
      rw [pieces_block_opening]
      exact List.forall_mem_cons.2 ⟨fun h => by simp [State.inBlock] at h, ih⟩
  | @closing depth _ _ outer ih =>
      rw [pieces_block_closing]
      exact List.forall_mem_cons.2 ⟨fun _ => rfl, ih⟩
  | @char depth _ _ _ opens closes inside ih =>
      rw [pieces_block_char (not_pair_of_append opens) (not_pair_of_append closes)]
      exact List.forall_mem_cons.2 ⟨fun h => by simp [State.inBlock] at h, ih⟩

end Scan

open Scan

/-! ### The element that a state comes from -/

namespace Element

def states (e : Element) : List (Char × State) :=
  e.pieces.flatMap Piece.states

theorem map_fst_states {e : Element} {rest : List Char} (h : e.Fits rest) :
    e.states.map Prod.fst = e.text := by
  rw [states, map_fst_flatMap_states, flatMap_text_pieces h]

theorem exists_piece_of_mem_states {e : Element} {c : Char} {s : State} (h : (c, s) ∈ e.states) :
    ∃ p ∈ e.pieces, c ∈ p.text ∧ p.after = s := by
  obtain ⟨p, hp, hmem⟩ := List.mem_flatMap.1 h
  obtain ⟨d, hd, heq⟩ := List.mem_map.1 hmem
  obtain ⟨rfl, rfl⟩ := Prod.mk.inj heq
  exact ⟨p, hp, hd, rfl⟩

/-- A piece of a lexeme is in code or belongs to its literal. -/
theorem piece_of_lexeme {k : TokenKind} {c : Char} {tail rest : List Char}
    (h : Lexer.Lexes k c tail rest) {p : Piece} (hp : p ∈ (lexeme k c tail).pieces) :
    (∃ d ∈ Lexer.plainPart k c tail, p = .code d) ∨
      ∃ o lit, Lexer.literalPart? k c tail = some (o, lit) ∧ opensLiteral o ∧
        (p.after = .inside o ∨ p.after = .normal ∧ p.text = [Lexer.closing o]) := by
  rcases List.mem_append.1 hp with hp | hp
  · obtain ⟨d, hd, rfl⟩ := List.mem_map.1 hp
    exact .inl ⟨d, hd, rfl⟩
  · cases hl : Lexer.literalPart? k c tail with
    | none => simp [hl] at hp
    | some l =>
        obtain ⟨o, lit⟩ := l
        obtain ⟨ho, whole, -⟩ := Lexer.literalPart?_of_lexes h hl
        rw [hl] at hp
        refine .inr ⟨o, lit, rfl, ho, ?_⟩
        rcases List.mem_cons.1 hp with rfl | hp
        · exact .inl rfl
        · exact (inLiteral_of_mem o whole p hp).after

theorem bracketed_of_mem_states {e : Element} {rest : List Char} (h : e.Fits rest) {c : Char}
    (hc : (c, State.bracket) ∈ e.states) : ∃ d tail, e = lexeme .bracketed d tail := by
  obtain ⟨p, hp, -, hafter⟩ := exists_piece_of_mem_states hc
  cases h with
  | blank =>
      obtain rfl := List.mem_singleton.1 hp
      contradiction
  | lineComment =>
      rcases List.mem_cons.1 hp with rfl | hp
      · contradiction
      · obtain ⟨d, -, rfl⟩ := List.mem_map.1 hp
        contradiction
  | blockComment whole =>
      rcases List.mem_cons.1 hp with rfl | hp
      · contradiction
      · have hnot := (inComment_of_mem_block whole p hp).after
        rw [hafter] at hnot
        contradiction
  | @lexeme k d tail _ solid code lexes =>
      rcases piece_of_lexeme lexes hp with ⟨d, -, rfl⟩ | ⟨o, lit, hl, ho, hinside⟩
      · contradiction
      · rw [hafter] at hinside
        rcases hinside with hinside | ⟨hnot, -⟩
        · -- of the literals only one in brackets has that state
          have hbracket : o = '[' := by
            unfold State.inside at hinside
            split at hinside
            · assumption
            · contradiction
          cases k with
          | bracketed => exact ⟨d, tail, rfl⟩
          | quoted =>
              simp only [Lexer.literalPart?, Option.some.injEq, Prod.mk.injEq] at hl
              rw [← hl.1] at hbracket
              exact absurd hbracket (by decide)
          | _ => contradiction
        · contradiction

theorem eq_dot_of_mem_plainPart {k : TokenKind} {c : Char} {tail rest : List Char}
    (h : Lexer.Lexes k c tail rest) (hd : '.' ∈ Lexer.plainPart k c tail) :
    lexeme k c tail = lexeme .dot '.' [] := by
  cases h with
  | word start word stop plain =>
      rw [(Lexer.wordKind_plain c tail).1] at hd
      have hword : ∀ d ∈ c :: tail, isWordChar d :=
        List.forall_mem_cons.2 ⟨Lexer.isWordChar_of_start start, word⟩
      exact absurd (hword _ hd) (by decide)
  | national start whole =>
      rcases start with rfl | rfl <;> simp [Lexer.plainPart] at hd
  | quoted whole => simp [Lexer.plainPart] at hd
  | bracketed start whole => simp [Lexer.plainPart] at hd
  | symbol start single =>
      rw [(Lexer.symbolKind_plain c []).1] at hd
      obtain rfl := List.mem_singleton.1 hd
      rfl
  | @pair _ d _ pair =>
      have hnone : ∀ p ∈ Lexer.operatorPairs, '.' ∉ p := by decide
      exact absurd hd (hnone _ pair)

theorem eq_dot_of_mem_states {e : Element} {rest : List Char} (h : e.Fits rest)
    (hd : ('.', State.normal) ∈ e.states) : e = lexeme .dot '.' [] := by
  obtain ⟨p, hp, htext, hafter⟩ := exists_piece_of_mem_states hd
  cases h with
  | blank solid =>
      obtain rfl := List.mem_singleton.1 hp
      obtain rfl := List.mem_singleton.1 htext
      exact absurd solid (by decide)
  | lineComment =>
      rcases List.mem_cons.1 hp with rfl | hp
      · contradiction
      · obtain ⟨d, -, rfl⟩ := List.mem_map.1 hp
        contradiction
  | blockComment whole =>
      rcases List.mem_cons.1 hp with rfl | hp
      · contradiction
      · rw [text_of_mem_block whole p hp hafter] at htext
        exact absurd htext (by decide)
  | lexeme solid code lexes =>
      rcases piece_of_lexeme lexes hp with ⟨d, hd, rfl⟩ | ⟨o, lit, -, ho, hinside⟩
      · obtain rfl := List.mem_singleton.1 htext
        exact eq_dot_of_mem_plainPart lexes hd
      · rw [hafter] at hinside
        rcases hinside with hinside | ⟨-, hclosing⟩
        · unfold State.inside at hinside
          split at hinside <;> contradiction
        · rw [hclosing] at htext
          simp only [opensLiteral, Bool.or_eq_true, decide_eq_true_eq] at ho
          rcases ho with (rfl | rfl) | rfl <;> exact absurd htext (by decide)

end Element

namespace Elements

theorem charStates_text {es : List Element} (h : Placed es) :
    charStates (text es) = es.flatMap Element.states :=
  flatMap_pieces _ rfl h

/-- The element that a character of a text comes from, with the characters before it. -/
theorem exists_of_flatMap {es : List Element} (h : Placed es) {as bs : List (Char × State)}
    {x : Char × State} (hstates : es.flatMap Element.states = as ++ x :: bs) :
    ∃ front e back inner outer, es = front ++ e :: back ∧ e.Fits (text back) ∧
      e.states = inner ++ x :: outer ∧ as.map Prod.fst = text front ++ inner.map Prod.fst := by
  induction es generalizing as with
  | nil => simp at hstates
  | cons e es ih =>
      rw [List.flatMap_cons] at hstates
      have hlater : ∀ as', as = e.states ++ as' →
          es.flatMap Element.states = as' ++ x :: bs →
          ∃ front f back inner outer, e :: es = front ++ f :: back ∧ f.Fits (text back) ∧
            f.states = inner ++ x :: outer ∧
            as.map Prod.fst = text front ++ inner.map Prod.fst := by
        intro as' has hes
        obtain ⟨front, f, back, inner, outer, rfl, hfit, hf, hmap⟩ := ih h.2 hes
        refine ⟨e :: front, f, back, inner, outer, rfl, hfit, hf, ?_⟩
        rw [has, List.map_append, Element.map_fst_states h.1, hmap, text_cons, List.append_assoc]
      rcases List.append_eq_append_iff.1 hstates with ⟨as', has, hes⟩ | ⟨cs, he, hes⟩
      · exact hlater as' has hes
      · cases cs with
        | nil => exact hlater [] (by simpa using he.symm) hes.symm
        | cons y cs =>
            obtain ⟨rfl, -⟩ := List.cons.inj hes
            exact ⟨[], e, es, as, cs, rfl, h.1, he, rfl⟩

theorem mem_tokensFrom_lexeme (front back : List Element) (k : TokenKind) (c : Char)
    (tail : List Char) :
    ⟨k, String.ofList (Lexer.tokenText k c tail), Position.origin.advance (text front),
      Position.origin.advance (text front ++ c :: tail)⟩ ∈
        tokensFrom .origin (front ++ .lexeme k c tail :: back) := by
  rw [tokensFrom_append, tokensFrom, Position.advance_append]
  exact List.mem_append_right _ List.mem_cons_self

theorem advance_lt_advance (as bs : List Char) (c : Char) :
    Position.origin.advance as < Position.origin.advance (as ++ (bs ++ [c])) := by
  rw [Position.advance_append, Position.advance_append]
  exact Position.lt_of_le_of_lt (Position.le_advance _ bs) (Position.lt_next _ c)

/-- The element that holds the character in front of a cursor. -/
theorem exists_element {es : List Element} (h : Placed es) {before behind : List Char} {c : Char}
    (htext : text es = before ++ c :: behind) :
    ∃ front e back inner outer, es = front ++ e :: back ∧ e.Fits (text back) ∧
      before = text front ++ inner ∧ e.text = inner ++ c :: outer ∧
        (c, stateAt (text es) (size (before ++ [c]))) ∈ e.states := by
  have hmap : (charStates (text es)).map Prod.fst = before ++ c :: behind := by
    rw [map_fst_charStates, htext]
  obtain ⟨as, xs, hsplit, rfl, hxs⟩ := List.map_eq_append_iff.1 hmap
  obtain ⟨⟨d, s⟩, bs, rfl, rfl, -⟩ := List.map_eq_cons_iff.1 hxs
  have hstate := stateAt_of_charStates (as ++ [(d, s)]) bs (by simpa using hsplit) (by simp)
  rw [List.map_append, List.map_singleton, List.getLast_append_singleton] at hstate
  rw [charStates_text h] at hsplit
  obtain ⟨front, e, back, inner, outer, rfl, hfit, he, hbefore⟩ := exists_of_flatMap h hsplit
  refine ⟨front, e, back, inner.map Prod.fst, outer.map Prod.fst, rfl, hfit, hbefore, ?_, ?_⟩
  · rw [← Element.map_fst_states hfit, he, List.map_append, List.map_cons]
  · rw [hstate, he]
    exact List.mem_append_right inner List.mem_cons_self

/-- A cursor inside brackets is inside a bracketed token, or at the end of one that is not closed. -/
theorem exists_bracketed {es : List Element} (h : Placed es) {before behind : List Char}
    (htext : text es = before ++ behind)
    (hstate : stateAt (text es) (size before) = .bracket) :
    ∃ t ∈ tokensFrom .origin es, t.kind = .bracketed ∧
      t.start < Position.origin.advance before ∧ Position.origin.advance before ≤ t.stop := by
  rcases List.eq_nil_or_concat before with rfl | ⟨front, c, heq⟩
  · rw [size_nil, stateAt, stateAfter_of_le (Nat.le_refl 0)] at hstate
    contradiction
  · rw [List.concat_eq_append] at heq
    subst heq
    rw [List.append_assoc, List.singleton_append] at htext
    obtain ⟨front, e, back, inner, outer, rfl, hfit, rfl, he, hmem⟩ := exists_element h htext
    rw [hstate] at hmem
    obtain ⟨d, tail, rfl⟩ := Element.bracketed_of_mem_states hfit hmem
    refine ⟨_, mem_tokensFrom_lexeme front back .bracketed d tail, rfl, ?_, ?_⟩
    · rw [List.append_assoc]
      exact advance_lt_advance _ _ _
    · have hlexeme : text front ++ d :: tail = (text front ++ inner ++ [c]) ++ outer := by
        simpa [Element.text, Element.head, Element.tail] using he
      rw [hlexeme, Position.advance_append _ _ outer]
      exact Position.le_advance _ outer

/-- A dot in front of a word that ends in code is a token. -/
theorem exists_dot {es : List Element} (h : Placed es) {front word behind : List Char}
    (htext : text es = front ++ '.' :: (word ++ behind)) (hword : ∀ c ∈ word, isWordChar c)
    (hstate : stateAt (text es) (size (front ++ '.' :: word)) = .normal) :
    ∃ t ∈ tokensFrom .origin es, t.kind = .dot ∧ t.start = Position.origin.advance front ∧
      t.stop = Position.origin.advance (front ++ ['.']) := by
  have hdot := stateAt_before_word htext hword hstate
  obtain ⟨front, e, back, inner, outer, rfl, hfit, rfl, he, hmem⟩ := exists_element h htext
  rw [hdot] at hmem
  obtain rfl := Element.eq_dot_of_mem_states hfit hmem
  obtain rfl : inner = [] := by
    cases inner with
    | nil => rfl
    | cons d inner => simp [Element.text, Element.head, Element.tail] at he
  refine ⟨_, mem_tokensFrom_lexeme front back .dot '.' [], rfl, ?_, ?_⟩
  · rw [List.append_nil]
  · rw [List.append_nil]

end Elements

end Tsql
