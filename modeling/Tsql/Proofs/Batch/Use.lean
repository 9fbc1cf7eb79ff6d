import Tsql.Proofs.Batch.DatabaseName
import Tsql.Proofs.Cursor.Offset
import Tsql.Proofs.Elements.Lines

/-!
The directives of a text without comments, element by element.

A directive starts with a lexeme and ends behind one, so cutting a text into its directives and the
texts between them cuts its elements into the elements of these parts (`exists_directives`). The
elements of a directive are the word `USE`, a name and what is taken with the name (`IsUse`).
-/

namespace Tsql

open Text Scan

/-! ### Marks -/

namespace Element

/-- The characters of the element, each marked as inside a literal or outside. -/
def marked (e : Element) : List (Char × Bool) :=
  e.pieces.flatMap Piece.marked

theorem map_fst_marked {e : Element} {rest : List Char} (h : e.Fits rest) :
    e.marked.map Prod.fst = e.text := by
  have hpiece : ∀ p : Piece, p.marked.map Prod.fst = p.text := fun p => by
    simp [Piece.marked, Function.comp_def]
  simp only [marked, List.map_flatMap, hpiece]
  exact flatMap_text_pieces h

theorem marked_literalPieces (o : Char) {lit rest : List Char}
    (h : Delimited.Literal (Lexer.closing o) lit rest) :
    (Lexer.literalPieces (o, lit)).flatMap Piece.marked = (o :: lit).map fun c => (c, true) := by
  -- a piece that starts inside a line comment would count as outside
  have hnot : ∀ s, (State.inside o == s) = true → s ≠ .lineComment := by
    unfold State.inside
    rintro s hs rfl
    split at hs <;> contradiction
  have hopening : Piece.marked ⟨.normal, [o], .inside o⟩ = [(o, true)] := by
    rw [Piece.marked, isNormal_inside]
    rfl
  have hinside : ∀ p ∈ Scan.pieces (.inside o) lit, p.marked = p.text.map fun c => (c, true) := by
    intro p hp
    have hbefore := (inLiteral_of_mem o h p hp).before
    have hne : (State.inside o == State.lineComment) = false := by
      cases hs : State.inside o == State.lineComment with
      | false => rfl
      | true => exact absurd rfl (hnot _ hs)
    rw [Piece.marked, hbefore, isNormal_inside, hne]
    rfl
  have hflat : (Scan.pieces (.inside o) lit).flatMap Piece.text = lit := by
    rw [List.flatMap_def, flatten_pieces]
  rw [Lexer.literalPieces, List.flatMap_cons, hopening, List.flatMap_def,
    List.map_congr_left hinside, ← List.flatMap_def, ← List.map_flatMap, hflat]
  rfl

/-- The characters of a lexeme in front of its literal are outside, the others inside. -/
theorem marked_lexeme {k : TokenKind} {c : Char} {tail rest : List Char}
    (h : Lexer.Lexes k c tail rest) :
    (lexeme k c tail).marked =
      (Lexer.plainPart k c tail).map (fun d => (d, false)) ++
        (Lexer.literalPart? k c tail).elim [] fun l => (l.1 :: l.2).map fun d => (d, true) := by
  have hplain : ((Lexer.plainPart k c tail).map Piece.code).flatMap Piece.marked =
      (Lexer.plainPart k c tail).map fun d => (d, false) := by
    rw [List.flatMap_map, List.map_eq_flatMap]
    rfl
  rw [marked, pieces, List.flatMap_append, hplain]
  cases hl : Lexer.literalPart? k c tail with
  | none => rfl
  | some l =>
      obtain ⟨o, lit⟩ := l
      obtain ⟨-, whole, -⟩ := Lexer.literalPart?_of_lexes h hl
      rw [Option.elim_some, marked_literalPieces o whole]
      rfl

end Element

theorem Elements.Uncommented.marked_text {es : List Element} (h : Uncommented es) :
    Scan.marked (text es) = es.flatMap Element.marked := by
  rw [Scan.marked, h.pieces_text, List.flatMap_assoc]
  rfl

namespace Batch

/-! ### Where no directive starts -/

/-- No directive starts at the characters, where `before` is the character in front of them. -/
def Skipped : Option Char → List (Char × Bool) → Prop
  | _, [] => True
  | before, (c, inside) :: rest =>
    (inside = true ∨ before.any isWordChar ∨ startsWord c = false) ∧ Skipped (some c) rest

theorem skipped_inside (before : Option Char) (cs : List Char) :
    Skipped before (cs.map fun c => (c, true)) := by
  induction cs generalizing before with
  | nil => trivial
  | cons c cs ih => exact ⟨.inl rfl, ih (some c)⟩

theorem skipped_word {before : Char} (hb : isWordChar before) {cs : List Char}
    (h : ∀ c ∈ cs, isWordChar c) : Skipped (some before) (cs.map fun c => (c, false)) := by
  induction cs generalizing before with
  | nil => trivial
  | cons c cs ih =>
      obtain ⟨hc, hcs⟩ := List.forall_mem_cons.1 h
      exact ⟨.inr (.inl hb), ih hc hcs⟩

/-- What a directive looks like. -/
theorem directiveAt?_eq_some {before : Option Char} {ms : List (Char × Bool)} {d : Directive}
    (h : directiveAt? before ms = some d) :
    ∃ u s e following width, ms.map Prod.fst = u :: s :: e :: following ∧
      sameFolded [u, s, e] ['U', 'S', 'E'] ∧ before.any isWordChar = false ∧
      following.head?.any (!isWordChar ·) ∧
      databaseName? following = some (d.database, width) ∧
      d.text = u :: s :: e :: takeSize width following := by
  unfold directiveAt? at h
  split at h
  · next u _ s _ e _ rest =>
    simp only at h
    split at h
    · next huse =>
      rw [Bool.and_eq_true, Bool.not_eq_true'] at huse
      split at h
      · next hhead =>
        obtain ⟨⟨name, width⟩, hname, rfl⟩ := Option.map_eq_some_iff.1 h
        exact ⟨u, s, e, _, width, rfl, huse.1, huse.2, hhead, hname, rfl⟩
      · contradiction
    · contradiction
  · contradiction

theorem directives_cons_none {before : Option Char} {c : Char} {inside : Bool}
    {ms : List (Char × Bool)}
    (h : (if inside then none else directiveAt? before ((c, inside) :: ms)) = none) :
    directives before ((c, inside) :: ms) =
      (c :: (directives (some c) ms).1, (directives (some c) ms).2) := by
  rw [directives]
  split
  · next d heq =>
    rw [h] at heq
    contradiction
  · rfl

theorem directives_cons_some {before : Option Char} {c : Char} {inside : Bool}
    {ms : List (Char × Bool)} {d : Directive}
    (h : (if inside then none else directiveAt? before ((c, inside) :: ms)) = some d) :
    directives before ((c, inside) :: ms) =
      ([], (d, (directives d.text.getLast? (((c, inside) :: ms).drop d.text.length)).1) ::
        (directives d.text.getLast? (((c, inside) :: ms).drop d.text.length)).2) := by
  rw [directives]
  split
  · next d' heq =>
    rw [h] at heq
    cases heq
    rfl
  · next heq =>
    rw [h] at heq
    contradiction

/-- No directive starts at a character that is skipped. -/
theorem not_directiveAt?_of_skipped {before : Option Char} {c : Char} {inside : Bool}
    {ms : List (Char × Bool)}
    (h : inside = true ∨ before.any isWordChar ∨ startsWord c = false) :
    (if inside then none else directiveAt? before ((c, inside) :: ms)) = none := by
  cases hi : inside with
  | true => rfl
  | false =>
      cases hd : directiveAt? before ((c, false) :: ms) with
      | none => rfl
      | some d =>
          obtain ⟨u, s, e, following, width, hms, hfolded, hbefore, -⟩ := directiveAt?_eq_some hd
          obtain ⟨rfl, -⟩ := List.cons.inj hms
          have hu := startsWord_of_sameFolded hfolded (by decide) c List.mem_cons_self
          simp [hi, hbefore, hu] at h

theorem directives_of_skipped {before : Option Char} {run : List (Char × Bool)}
    (h : Skipped before run) (ms : List (Char × Bool)) :
    let behind := (run.map Prod.fst).getLast?.or before
    directives before (run ++ ms) =
      (run.map Prod.fst ++ (directives behind ms).1, (directives behind ms).2) := by
  induction run generalizing before with
  | nil => rfl
  | cons m run ih =>
      obtain ⟨c, inside⟩ := m
      obtain ⟨hhead, hrun⟩ := h
      have hlast : (((c, inside) :: run).map Prod.fst).getLast?.or before =
          (run.map Prod.fst).getLast?.or (some c) := by
        rw [List.map_cons, List.getLast?_cons]
        cases (run.map Prod.fst).getLast? <;> rfl
      rw [List.cons_append, directives_cons_none (not_directiveAt?_of_skipped hhead), ih hrun, hlast]
      rfl

end Batch

namespace Element

open Batch

/-- Behind the first character of an element no directive starts. -/
theorem skipped_tail {e : Element} {rest : List Char} (h : e.Fits rest) (hc : ¬ e.IsComment) :
    ∃ inside tail, e.marked = (e.head, inside) :: tail ∧ Skipped (some e.head) tail := by
  cases h.plain hc with
  | blank solid => exact ⟨false, [], rfl, trivial⟩
  | @lexeme k c tail _ solid code lexes =>
      have hmarked := marked_lexeme lexes
      cases lexes with
      | word start word stop plain =>
          rw [(Lexer.wordKind_plain c tail).1, (Lexer.wordKind_plain c tail).2, Option.elim_none,
            List.append_nil] at hmarked
          exact ⟨false, _, hmarked, skipped_word (Lexer.isWordChar_of_start start) word⟩
      | national start whole =>
          have hne : c ≠ '\'' := by rcases start with rfl | rfl <;> decide
          simp only [Lexer.plainPart, Lexer.literalPart?, if_neg hne] at hmarked
          exact ⟨false, _, hmarked, skipped_inside _ _⟩
      | quoted whole => exact ⟨true, _, hmarked, skipped_inside _ _⟩
      | bracketed start whole => exact ⟨true, _, hmarked, skipped_inside _ _⟩
      | symbol start single =>
          rw [(Lexer.symbolKind_plain c []).1, (Lexer.symbolKind_plain c []).2] at hmarked
          exact ⟨false, _, hmarked, trivial⟩
      | pair pair =>
          refine ⟨false, _, hmarked, .inr (.inr ?_), trivial⟩
          exact (Lexer.operatorPairs_notWord pair).2

end Element

/-! ### Where a directive ends -/

namespace Elements

/-- The text in front is that of whole elements. -/
def CutAt (front : List Char) (es : List Element) : Prop :=
  ∃ as bs, es = as ++ bs ∧ text as = front

theorem cutAt_nil (es : List Element) : CutAt [] es := ⟨[], es, rfl, rfl⟩

theorem cutAt_head (e : Element) (es : List Element) : CutAt e.text (e :: es) :=
  ⟨[e], es, rfl, by simp⟩

theorem CutAt.cons {front : List Char} {es : List Element} (h : CutAt front es) (e : Element) :
    CutAt (e.text ++ front) (e :: es) := by
  obtain ⟨as, bs, rfl, rfl⟩ := h
  exact ⟨e :: as, bs, rfl, text_cons e as⟩

theorem CutAt.append {front more rest : List Char} {es : List Element} (h : Uncommented es)
    (htext : text es = front ++ rest) (hfront : CutAt front es)
    (hmore : ∀ bs, Uncommented bs → text bs = rest → CutAt more bs) : CutAt (front ++ more) es := by
  obtain ⟨as, bs, rfl, rfl⟩ := hfront
  rw [text_append] at htext
  obtain ⟨cs, ds, rfl, rfl⟩ := hmore bs h.right (List.append_cancel_left htext)
  exact ⟨as ++ cs, ds, (List.append_assoc as cs ds).symm, text_append as cs⟩

/-- Behind blanks outside literals an element starts. -/
theorem cutAt_blanks {es : List Element} (h : Uncommented es) {blanks rest : List Char}
    (htext : text es = blanks ++ rest) (hblanks : ∀ d ∈ blanks, isBlank d) : CutAt blanks es := by
  induction blanks generalizing es with
  | nil => exact cutAt_nil es
  | cons c blanks ih =>
      obtain ⟨hc, hgap⟩ := List.forall_mem_cons.1 hblanks
      cases es with
      | nil => contradiction
      | cons e es =>
          obtain ⟨hhead, hrest⟩ := List.cons.inj htext
          cases h.plain with
          | @blank d solid =>
              obtain rfl : d = c := hhead
              exact (ih h.tail hrest hgap).cons _
          | @lexeme k d tail _ solid code lexes =>
              obtain rfl : d = c := hhead
              rw [hc] at solid
              contradiction

/-- Behind a run of characters of words an element starts, unless a quote follows. -/
theorem cutAt_run {es : List Element} (h : Uncommented es) {run rest : List Char}
    (htext : text es = run ++ rest) (hrun : ∀ d ∈ run, isWordChar d)
    (hstop : ∀ d ∈ rest.head?, isWordChar d = false ∧ d ≠ '\'') : CutAt run es := by
  induction run generalizing es with
  | nil => exact cutAt_nil es
  | cons c run ih =>
      obtain ⟨hc, hrun⟩ := List.forall_mem_cons.1 hrun
      rw [List.cons_append] at htext
      obtain ⟨k, tail, es, rfl, lexes, hrest⟩ :=
        h.exists_lexeme htext (isBlank_of_isWordChar hc)
      have hne : ∀ d, isWordChar d = false → c ≠ d := fun d hd => Lexer.ne_of_isWordChar hc hd
      cases lexes with
      | word start word stop plain =>
          have htail := Lexer.takeWhile_append_of_stop word stop
          rw [← hrest, Lexer.takeWhile_append_of_stop hrun fun d hd => (hstop d hd).1] at htail
          rw [htail]
          exact cutAt_head _ es
      | national start whole =>
          -- the quote stands in the run or right behind it, and neither may be
          cases run with
          | nil =>
              rw [List.nil_append] at hrest
              exact absurd rfl (hstop '\'' (by rw [hrest]; rfl)).2
          | cons d run =>
              obtain ⟨rfl, -⟩ := List.cons.inj hrest
              exact absurd (hrun _ List.mem_cons_self) (by decide)
      | quoted whole => exact absurd rfl (hne '\'' (by decide))
      | bracketed start whole =>
          rcases start with rfl | rfl
          · exact absurd rfl (hne '[' (by decide))
          · exact absurd rfl (hne '"' (by decide))
      | symbol start single => exact (ih h.tail hrest.symm hrun).cons _
      | pair pair =>
          rw [(Lexer.operatorPairs_notWord pair).1] at hc
          contradiction

theorem cutAt_enclosed {es : List Element} (h : Uncommented es) {name rest : List Char}
    (htext : text es = Delimited.enclose '[' ']' name ++ rest) (hrest : rest.head? ≠ some ']') :
    CutAt (Delimited.enclose '[' ']' name) es := by
  have hlit := Delimited.body_of_literal (Delimited.literal_doubled hrest name)
  have htext : text es = '[' :: (Delimited.doubled ']' name ++ [']'] ++ rest) := htext
  obtain ⟨k, tail, es, rfl, lexes, hbehind⟩ := h.exists_lexeme htext (by decide)
  cases lexes with
  | word start => rcases start with start | start <;> exact absurd start (by decide)
  | national start => rcases start with start | start <;> exact absurd start (by decide)
  | bracketed start whole =>
      have hclosing : Lexer.closing '[' = ']' := rfl
      have hbody := Delimited.body_of_literal whole
      rw [hclosing, ← hbehind, hlit] at hbody
      rw [← hbody]
      exact cutAt_head _ es
  | symbol start => exact absurd start (by decide)
  | pair pair => exact absurd (Lexer.operatorPairs_spec pair).1 (by decide)

theorem cutAt_semicolon {es : List Element} (h : Uncommented es) {rest : List Char}
    (htext : text es = ';' :: rest) : CutAt [';'] es := by
  obtain ⟨k, tail, es, rfl, lexes, rfl⟩ := h.exists_lexeme htext (by decide)
  cases lexes with
  | word start => rcases start with start | start <;> exact absurd start (by decide)
  | national start => rcases start with start | start <;> exact absurd start (by decide)
  | bracketed start => rcases start with start | start <;> exact absurd start (by decide)
  | symbol start => exact cutAt_head _ es
  | @pair _ d _ pair =>
      have hnone : ∀ p ∈ Lexer.operatorPairs, p.head? ≠ some ';' := by decide
      exact absurd rfl (hnone _ pair)

end Elements

namespace Batch

open Elements

theorem cutAt_taken {es : List Element} (h : Uncommented es) {taken kept : List Char}
    (htext : text es = taken ++ kept) (hbehind : BehindName taken kept) : CutAt taken es := by
  cases hbehind with
  | @semicolon gap _ inside =>
      rw [List.append_assoc] at htext
      have hblanks : ∀ d ∈ gap, isBlank d := by
        intro d hd
        rcases inside d hd with rfl | rfl <;> decide
      exact CutAt.append h htext (cutAt_blanks h htext hblanks) fun bs hbs hsemicolon =>
        cutAt_semicolon hbs hsemicolon
  | nothing => exact cutAt_nil es

/-- A name is whole elements where it ends as names do. -/
theorem cutAt_name {es : List Element} (h : Uncommented es) {written name rest : List Char}
    (htext : text es = written ++ rest) (hname : SpellsName written name)
    (hends : ∀ d ∈ rest.head?, isBlank d ∨ d = ';') : CutAt written es := by
  cases hname with
  | word chars =>
      refine cutAt_run h htext chars fun d hd => ?_
      rcases hends d hd with hblank | rfl
      · refine ⟨isWordChar_of_isBlank hblank, ?_⟩
        rintro rfl
        exact absurd hblank (by decide)
      · decide
  | bracketed =>
      exact cutAt_enclosed h htext fun hhead => absurd (hends ']' hhead) (by decide)

/-- The name behind `USE` and what is taken with it are whole elements: first the blanks, then the
name, then its end. -/
theorem NamesDatabase.cutAt {blanks written taken kept name : List Char}
    (h : NamesDatabase blanks written taken kept name) {es : List Element} (hes : Uncommented es)
    (htext : text es = blanks ++ (written ++ (taken ++ kept))) :
    CutAt (blanks ++ (written ++ taken)) es := by
  refine CutAt.append hes htext (cutAt_blanks hes htext h.blank) fun bs hbs hname => ?_
  refine CutAt.append hbs hname (cutAt_name hbs hname h.spells h.ends) fun cs hcs hbehind => ?_
  exact cutAt_taken hcs hbehind h.behind

/-- The elements are a directive where the text `behind` follows: the word `USE`, blanks, a name and
what is taken behind it. -/
inductive IsUse : List Element → List Char → Prop
  | intro {u s t : Char} {es : List Element} {blanks written taken behind name : List Char}
      (word : sameFolded [u, s, t] ['U', 'S', 'E'])
      (text_eq : text es = blanks ++ (written ++ taken))
      (names : NamesDatabase blanks written taken behind name) :
      IsUse (.lexeme (Lexer.wordKind u [s, t]) u [s, t] :: es) behind

theorem IsUse.append {es : List Element} {behind more : List Char} (h : IsUse es behind)
    (hhead : ∀ d ∈ more.head?, isBlank d) (hmore : BehindName [] more) :
    IsUse es (behind ++ more) := by
  cases h with
  | intro word text_eq names => exact .intro word text_eq (names.append hhead hmore)

/-- The first parts are directives, each in front of all that follows. -/
def AreUses : List (List Element × List Element) → Prop
  | [] => True
  | (as, es) :: others => IsUse as (text (es ++ others.flatMap fun p => p.1 ++ p.2)) ∧ AreUses others

/-! ### Directives and the texts between them -/

theorem length_marked {es : List Element} (h : Uncommented es) :
    (es.flatMap Element.marked).length = (text es).length := by
  have hmap := congrArg List.length (Scan.map_fst_marked (text es))
  rwa [h.marked_text, List.length_map] at hmap

theorem drop_marked {as : List Element} (h : Uncommented as) (bs : List Element) :
    ((as ++ bs).flatMap Element.marked).drop (text as).length = bs.flatMap Element.marked := by
  rw [List.flatMap_append, ← length_marked h, List.drop_left]

/-- A directive starts with the word `USE`. -/
theorem exists_use_of_directiveAt? {e : Element} {es : List Element} (h : Uncommented (e :: es))
    {before : Option Char} {d : Directive}
    (hd : directiveAt? before ((e :: es).flatMap Element.marked) = some d) :
    ∃ u s t width, e = .lexeme (Lexer.wordKind u [s, t]) u [s, t] ∧
      sameFolded [u, s, t] ['U', 'S', 'E'] ∧ databaseName? (text es) = some (d.database, width) ∧
      d.text = u :: s :: t :: takeSize width (text es) := by
  obtain ⟨u, s, t, following, width, hms, hfolded, -, hhead, hname, htext⟩ :=
    directiveAt?_eq_some hd
  rw [← h.marked_text, Scan.map_fst_marked] at hms
  have hletters := startsWord_of_sameFolded hfolded (by decide)
  obtain ⟨hu, hrest⟩ := List.forall_mem_cons.1 hletters
  have hword := isBlank_of_isWordChar (isWordChar_of_startsWord hu)
  obtain ⟨k, tail, es', heq, lexes, hfollowing⟩ := h.exists_lexeme hms hword
  obtain ⟨rfl, rfl⟩ := List.cons.inj heq
  cases lexes with
  | word start word stop plain =>
      -- the lexeme is the word alone, because no character of a word stands behind it
      have hfollow : ∀ d ∈ following.head?, isWordChar d = false := by
        intro d hmem
        rw [Option.mem_def.1 hmem] at hhead
        simpa using hhead
      have hletter : ∀ d ∈ [s, t], isWordChar d := fun d hmem =>
        isWordChar_of_startsWord (hrest d hmem)
      have heq := Lexer.takeWhile_append_of_stop hletter hfollow
      have hrun : tail = [s, t] := by
        rw [← Lexer.takeWhile_append_of_stop word stop, ← hfollowing]
        exact heq
      subst hrun
      obtain rfl : following = text es := (List.cons.inj (List.cons.inj hfollowing).2).2
      exact ⟨u, s, t, width, rfl, hfolded, hname, htext⟩
  | national start whole =>
      have hfirst : u.toLower = 'u' := by
        simp only [sameFolded, List.map_cons, beq_iff_eq] at hfolded
        exact (List.cons.inj hfolded).1
      rcases start with rfl | rfl <;> exact absurd hfirst (by decide)
  | quoted whole => exact absurd hu (by decide)
  | bracketed start whole => rcases start with rfl | rfl <;> exact absurd hu (by decide)
  | symbol start single => simp_all [Lexer.isSymbol]
  | pair pair =>
      have hsymbol := (Lexer.operatorPairs_spec pair).1
      simp_all [Lexer.isSymbol]

/-- A directive is whole elements. -/
theorem exists_isUse {e : Element} {es : List Element} (h : Uncommented (e :: es))
    {before : Option Char} {d : Directive}
    (hd : directiveAt? before ((e :: es).flatMap Element.marked) = some d) :
    ∃ as bs, e :: es = as ++ bs ∧ text as = d.text ∧ IsUse as (text bs) := by
  obtain ⟨u, s, t, width, rfl, hfolded, hname, htext⟩ := exists_use_of_directiveAt? h hd
  obtain ⟨blanks, written, taken, kept, hrest, hnames, rfl⟩ := databaseName?_eq_some_iff.1 hname
  obtain ⟨as, bs, rfl, hfront⟩ := hnames.cutAt h.tail hrest
  have hkept : text bs = kept := by
    rw [text_append, hfront, List.append_assoc, List.append_assoc] at hrest
    exact List.append_cancel_left (List.append_cancel_left (List.append_cancel_left hrest))
  refine ⟨.lexeme _ u [s, t] :: as, bs, rfl, ?_, .intro hfolded hfront (hkept ▸ hnames)⟩
  rw [htext, text_append, List.append_assoc, ← hfront, takeSize_size_append]
  rfl

/-- A directive is whole elements, so behind it the pass comes out in front of an element. -/
theorem exists_behind_directive {e : Element} {es : List Element} (h : Uncommented (e :: es))
    {before : Option Char} {d : Directive}
    (hd : directiveAt? before ((e :: es).flatMap Element.marked) = some d) :
    ∃ as bs, e :: es = as ++ bs ∧ text as = d.text ∧ IsUse as (text bs) ∧ Uncommented bs ∧
      bs.length < (e :: es).length ∧
      ((e :: es).flatMap Element.marked).drop d.text.length = bs.flatMap Element.marked := by
  obtain ⟨as, bs, heq, htext, huse⟩ := exists_isUse h hd
  rw [heq] at h
  refine ⟨as, bs, heq, htext, huse, h.right, ?_, ?_⟩
  · have hne : as ≠ [] := by
      rintro rfl
      exact text_ne_nil_of_directiveAt? hd htext.symm
    have hpos := List.length_pos_iff.2 hne
    rw [heq, List.length_append]
    omega
  · rw [heq, ← htext, drop_marked h.left]

/-- The elements of the text up to the first directive, and those of each directive and of the text
up to the next one. -/
theorem exists_directives {es : List Element} (h : Uncommented es) (before : Option Char) :
    ∃ (first : List Element) (others : List (List Element × List Element)),
      es = first ++ others.flatMap (fun p => p.1 ++ p.2) ∧
      (directives before (es.flatMap Element.marked)).1 = text first ∧
      (directives before (es.flatMap Element.marked)).2.map (fun p => (p.1.text, p.2)) =
        others.map (fun p => (text p.1, text p.2)) ∧ AreUses others := by
  -- recursion on the length: behind a directive the pass goes on several elements later
  match es with
  | [] => exact ⟨[], [], rfl, by simp [directives], by simp [directives], trivial⟩
  | e :: es =>
      obtain ⟨inside, tail, hmarked, hskipped⟩ :=
        Element.skipped_tail h.placed.1 (h.bare e List.mem_cons_self)
      have hcons : (e :: es).flatMap Element.marked =
          (e.head, inside) :: (tail ++ es.flatMap Element.marked) := by
        rw [List.flatMap_cons, hmarked]
        rfl
      cases hd : (if inside then none else
          directiveAt? before ((e.head, inside) :: (tail ++ es.flatMap Element.marked))) with
      | none =>
          -- no directive starts inside the element, so the pass comes out behind it
          have hrest := directives_of_skipped hskipped (es.flatMap Element.marked)
          obtain ⟨first, others, heq, hfirst, hothers, huses⟩ := exists_directives h.tail
            ((tail.map Prod.fst).getLast?.or (some e.head))
          refine ⟨e :: first, others, by rw [heq]; rfl, ?_, ?_, huses⟩
          · have hfst := Element.map_fst_marked h.placed.1
            rw [hmarked] at hfst
            rw [hcons, directives_cons_none hd, hrest, hfirst, text_cons, ← hfst]
            rfl
          · rw [hcons, directives_cons_none hd, hrest]
            exact hothers
      | some d =>
          have hat : directiveAt? before ((e :: es).flatMap Element.marked) = some d := by
            rw [hcons]
            split at hd
            · contradiction
            · exact hd
          obtain ⟨as, bs, heq, htext, huse, hbs, hshort, hdrop⟩ := exists_behind_directive h hat
          obtain ⟨first, others, hsplit, hfirst, hothers, huses⟩ :=
            exists_directives hbs d.text.getLast?
          refine ⟨[], (as, first) :: others, ?_, ?_, ?_, hsplit ▸ huse, huses⟩
          · rw [heq, hsplit, List.nil_append, List.flatMap_cons, List.append_assoc]
          · rw [hcons, directives_cons_some hd]
            rfl
          · rw [hcons, directives_cons_some hd, ← hcons, hdrop, List.map_cons, List.map_cons,
              hothers, hfirst, htext]
termination_by es.length
decreasing_by
  · exact Nat.lt_succ_self es.length
  · exact hshort

end Batch

end Tsql
