import Tsql.Proofs.Batch.Names

/-!
The databases that are selected in a text.

Directives are found character by character. Where it is clear how each `USE` is meant
(`Lexed.IsClear`), the directives of a text without comments are the plain uses among its lexemes
(`Batch.selectionsIn_marked`): a `USE` with a name behind it.
-/

namespace Tsql

open Text Scan

/-- A `USE` of a database, on its line. -/
structure Selection where
  line : Nat
  database : String
  deriving DecidableEq, Repr

/-- The selections up to a line. -/
def upTo (last : Nat) (us : List Selection) : List Selection :=
  us.filter fun u => u.line ≤ last

theorem upTo_append (last : Nat) (us vs : List Selection) :
    upTo last (us ++ vs) = upTo last us ++ upTo last vs :=
  List.filter_append ..

theorem upTo_eq_self {last : Nat} {us : List Selection} (h : ∀ u ∈ us, u.line ≤ last) :
    upTo last us = us :=
  List.filter_eq_self.2 fun u hu => decide_eq_true (h u hu)

theorem upTo_eq_nil {last : Nat} {us : List Selection} (h : ∀ u ∈ us, last < u.line) :
    upTo last us = [] := by
  refine List.filter_eq_nil_iff.2 fun u hu => ?_
  rw [decide_eq_true_eq, Nat.not_le]
  exact h u hu

/-- How a `USE` and the name behind it are told among the items of a list. -/
structure UseReader (α : Type) where
  isUse : α → Bool
  line : α → Nat
  name? : α → Option String

namespace UseReader

variable {α : Type}

/-- What an item selects that stands in front of others. -/
def selection? (r : UseReader α) (a : α) (as : List α) : Option Selection :=
  if r.isUse a then (as.head?.bind r.name?).map fun name => ⟨r.line a, name⟩ else none

/-- The databases that a list selects. -/
def selections (r : UseReader α) : List α → List Selection
  | [] => []
  | a :: as => (r.selection? a as).toList ++ selections r as

variable {r : UseReader α} {a : α} {as bs : List α} {u : Selection}

theorem selections_cons (r : UseReader α) (a : α) (as : List α) :
    r.selections (a :: as) = (r.selection? a as).toList ++ r.selections as := rfl

theorem selection?_of_not_isUse (h : r.isUse a = false) (as : List α) : r.selection? a as = none := by
  rw [selection?, h]
  rfl

theorem selection?_of_head (h : ∀ n ∈ as.head?, r.name? n = none) : r.selection? a as = none := by
  have hname : as.head?.bind r.name? = none := Option.bind_eq_none_iff.2 h
  rw [selection?, hname]
  exact ite_self none

theorem of_mem_selection? (h : u ∈ r.selection? a as) : r.isUse a ∧ u.line = r.line a := by
  unfold selection? at h
  split at h
  · next huse =>
    obtain ⟨name, -, rfl⟩ := Option.map_eq_some_iff.1 h
    exact ⟨huse, rfl⟩
  · contradiction

theorem exists_of_mem_selections (h : u ∈ r.selections as) :
    ∃ a ∈ as, r.isUse a ∧ u.line = r.line a := by
  induction as with
  | nil => exact absurd h List.not_mem_nil
  | cons a as ih =>
      rcases List.mem_append.1 h with h | h
      · exact ⟨a, List.mem_cons_self, of_mem_selection? (Option.mem_toList.1 h)⟩
      · obtain ⟨b, hb, huse⟩ := ih h
        exact ⟨b, List.mem_cons_of_mem a hb, huse⟩

/-- What starts with no name leaves a `USE` in front of it without one. -/
theorem selections_append (h : ∀ n ∈ bs.head?, r.name? n = none) :
    r.selections (as ++ bs) = r.selections as ++ r.selections bs := by
  induction as with
  | nil => rfl
  | cons a as ih =>
      have hsame : r.selection? a (as ++ bs) = r.selection? a as := by
        cases as with
        | nil => exact (selection?_of_head h).trans (selection?_of_head (by simp)).symm
        | cons b as => rfl
      rw [List.cons_append, selections, selections, ih, hsame, List.append_assoc]

theorem selections_append_of_not_isUse (h : ∀ a ∈ as, r.isUse a = false) :
    r.selections (as ++ bs) = r.selections bs := by
  induction as with
  | nil => rfl
  | cons a as ih =>
      obtain ⟨ha, has⟩ := List.forall_mem_cons.1 h
      rw [List.cons_append, selections, selection?_of_not_isUse ha, ih has]
      rfl

theorem selections_of_suffix (h : bs <:+ as) (hnone : r.selections as = []) :
    r.selections bs = [] := by
  induction as with
  | nil =>
      obtain rfl := List.suffix_nil.1 h
      rfl
  | cons a as ih =>
      rcases List.suffix_cons_iff.1 h with rfl | h
      · exact hnone
      · exact ih h (List.append_eq_nil_iff.1 hnone).2

theorem upTo_selections_of_le {last : Nat} (h : ∀ a ∈ as, r.line a ≤ last) :
    upTo last (r.selections as) = r.selections as := by
  refine upTo_eq_self fun u hu => ?_
  obtain ⟨a, ha, -, hline⟩ := exists_of_mem_selections hu
  exact hline ▸ h a ha

theorem upTo_selections_of_lt {last : Nat} (h : ∀ a ∈ as, last < r.line a) :
    upTo last (r.selections as) = [] := by
  refine upTo_eq_nil fun u hu => ?_
  obtain ⟨a, ha, -, hline⟩ := exists_of_mem_selections hu
  exact hline ▸ h a ha

end UseReader

/-! ### Clear uses -/

namespace Lexed

def isUse (w : Lexed) : Bool :=
  w.kind = .keyword .USE

/-- A `USE` selects the plain name behind it. -/
def uses : UseReader Lexed :=
  ⟨isUse, line, fun n => if n.IsPlainName then some n.text else none⟩

/-- It is clear what a `USE` in front of the lexemes selects: what the plain name behind it says, or
nothing, where no name is behind it or a line that separates batches. -/
def IsClear (separators : List Nat) (w : Lexed) (ws : List Lexed) : Prop :=
  (∀ d ∈ w.before, isWordChar d = false) ∧ ∀ n ∈ ws.head?,
    n.IsPlainName ∨ n.IsNoName ∨ n.kind = .keyword .GO ∧ n.line ∈ separators

instance (separators : List Nat) (w : Lexed) (ws : List Lexed) :
    Decidable (w.IsClear separators ws) :=
  have := Option.decidableForallMem (p := (isWordChar · = false)) w.before
  inferInstanceAs (Decidable ((∀ d ∈ w.before, _) ∧ ∀ n ∈ ws.head?,
    _ ∨ _ ∨ _ ∧ n.line ∈ separators))

end Lexed

/-- It is clear what each `USE` up to the given line selects. -/
def UsesClear (separators : List Nat) (last : Nat) : List Lexed → Prop
  | [] => True
  | w :: ws => (w.isUse → w.line ≤ last → w.IsClear separators ws) ∧ UsesClear separators last ws

instance UsesClear.decidable (separators : List Nat) (last : Nat) :
    (ws : List Lexed) → Decidable (UsesClear separators last ws)
  | [] => .isTrue trivial
  | w :: ws =>
    have := UsesClear.decidable separators last ws
    inferInstanceAs (Decidable ((w.isUse → _) ∧ _))

theorem UsesClear.of_suffix {separators : List Nat} {last : Nat} {ws vs : List Lexed}
    (h : UsesClear separators last ws) (hvs : vs <:+ ws) : UsesClear separators last vs := by
  induction ws with
  | nil =>
      obtain rfl := List.suffix_nil.1 hvs
      exact h
  | cons w ws ih =>
      rcases List.suffix_cons_iff.1 hvs with rfl | hvs
      · exact h
      · exact ih h.2 hvs

/-- Elements without the word `USE` select nothing. -/
theorem selections_lexedFrom_append {as : List Element}
    (h : ∀ c tail, .lexeme (.keyword .USE) c tail ∉ as) (line : Nat) (before : Option Char)
    (bs : List Element) :
    Lexed.uses.selections (Elements.lexedFrom line before (as ++ bs)) =
      Lexed.uses.selections (Elements.lexedFrom (line + (Elements.text as).count '\n')
        (Elements.touched before as) bs) := by
  induction as generalizing line before with
  | nil => rfl
  | cons a as ih =>
      have ih := ih (fun c tail hmem => h c tail (List.mem_cons_of_mem a hmem))
        (line + a.text.count '\n') a.lastTouching
      rw [Nat.add_assoc, ← List.count_append, ← Elements.text_cons] at ih
      cases a with
      | lexeme k c tail =>
          have hne : k ≠ .keyword .USE := by
            rintro rfl
            exact h c tail List.mem_cons_self
          rw [List.cons_append, Elements.lexedFrom_lexeme, UseReader.selections_cons,
            UseReader.selection?_of_not_isUse (decide_eq_false hne)]
          exact ih
      | blank c => exact ih
      | lineComment body => exact ih
      | blockComment body => exact ih

namespace Batch

open Elements

/-! ### Directives -/

/-- The databases of directives, the first of which stands on the given line. -/
def selectionsBehind (line : Nat) : List (Directive × List Char) → List Selection
  | [] => []
  | (d, text) :: others =>
    ⟨line, String.ofList d.database⟩ ::
      selectionsBehind (line + d.text.count '\n' + text.count '\n') others

/-- The databases of the directives among characters behind `before`, where the first character
stands on the given line. -/
def selectionsIn (line : Nat) (before : Option Char) (ms : List (Char × Bool)) : List Selection :=
  selectionsBehind (line + (directives before ms).1.count '\n') (directives before ms).2

theorem line_le_of_mem_selectionsBehind {line : Nat} {ds : List (Directive × List Char)}
    {u : Selection} (h : u ∈ selectionsBehind line ds) : line ≤ u.line := by
  induction ds generalizing line with
  | nil => exact absurd h List.not_mem_nil
  | cons d ds ih =>
      rcases List.mem_cons.1 h with rfl | h
      · exact Nat.le_refl _
      · have hle := ih h
        omega

theorem line_le_of_mem_selectionsIn {line : Nat} {before : Option Char} {ms : List (Char × Bool)}
    {u : Selection} (h : u ∈ selectionsIn line before ms) : line ≤ u.line :=
  Nat.le_trans (Nat.le_add_right _ _) (line_le_of_mem_selectionsBehind h)

theorem selectionsIn_nil (line : Nat) (before : Option Char) : selectionsIn line before [] = [] := by
  rw [selectionsIn, directives]
  rfl

theorem selectionsIn_cons_none {line : Nat} {before : Option Char} {c : Char} {inside : Bool}
    {ms : List (Char × Bool)}
    (h : (if inside then none else directiveAt? before ((c, inside) :: ms)) = none) :
    selectionsIn line before ((c, inside) :: ms) =
      selectionsIn (line + [c].count '\n') (some c) ms := by
  have hcount : (c :: (directives (some c) ms).1).count '\n' =
      [c].count '\n' + (directives (some c) ms).1.count '\n' := by
    rw [← List.count_append, List.singleton_append]
  rw [selectionsIn, directives_cons_none h, hcount, ← Nat.add_assoc]
  rfl

theorem selectionsIn_of_skipped {line : Nat} {before : Option Char} {run ms : List (Char × Bool)}
    (h : Skipped before run) :
    selectionsIn line before (run ++ ms) =
      selectionsIn (line + (run.map Prod.fst).count '\n')
        ((run.map Prod.fst).getLast?.or before) ms := by
  rw [selectionsIn, directives_of_skipped h]
  simp only [List.count_append, ← Nat.add_assoc]
  rfl

theorem selectionsIn_cons_some {line : Nat} {before : Option Char} {c : Char} {inside : Bool}
    {ms : List (Char × Bool)} {d : Directive}
    (h : (if inside then none else directiveAt? before ((c, inside) :: ms)) = some d) :
    selectionsIn line before ((c, inside) :: ms) =
      ⟨line, String.ofList d.database⟩ ::
        selectionsIn (line + d.text.count '\n') d.text.getLast?
          (((c, inside) :: ms).drop d.text.length) := by
  rw [selectionsIn, directives_cons_some h]
  rfl

/-- A clear `USE` that is a directive has a plain name behind it. -/
theorem exists_isPlainName_of_isClear {w : Lexed} {es : List Element} (h : Uncommented es)
    {separators : List Nat} {line : Nat} {edge : Option Char}
    (hclear : w.IsClear separators (lexedFrom line edge es))
    (hoff : ∀ n ∈ lexedFrom line edge es, n.line ∉ separators)
    (hname : databaseName? (text es) ≠ none) :
    ∃ gap n rest, AllBlank gap ∧ es = gap ++ .lexeme n.kind n.first n.tail :: rest ∧
      n.behind = touching rest ∧ (lexedFrom line edge es).head? = some n ∧ n.IsPlainName := by
  rcases allBlank_or_exists_lexeme h line edge with hblank | ⟨gap, n, rest, hgap, rfl, hbehind, hhead⟩
  · have htrim := trimStart_append hblank []
    rw [List.append_nil] at htrim
    refine absurd (databaseName?_eq_none ?_) hname
    rw [htrim]
    exact fun d hd => absurd hd (by simp [trimStart])
  · refine ⟨gap, n, rest, hgap, rfl, hbehind, hhead, ?_⟩
    rcases hclear.2 n hhead with hplain | hno | ⟨-, hline⟩
    · exact hplain
    · exact absurd (databaseName?_of_isNoName h.right hgap hbehind hno) hname
    · exact absurd hline (hoff n (List.mem_of_mem_head? hhead))

/-- A `USE` at which no directive starts selects nothing. -/
theorem selection?_eq_none {k : TokenKind} {c : Char} {tail : List Char} {es : List Element}
    (h : Uncommented (.lexeme k c tail :: es)) {w : Lexed} (hw : w.kind = k) (before : Option Char)
    (hbefore : w.isUse → before.any isWordChar = false)
    (hnone : k = .keyword .USE →
      directiveAt? before ((.lexeme k c tail :: es).flatMap Element.marked) = none)
    (line : Nat) (edge : Option Char) : Lexed.uses.selection? w (lexedFrom line edge es) = none := by
  rw [UseReader.selection?]
  split
  · next huse =>
    obtain rfl : k = .keyword .USE := hw ▸ of_decide_eq_true huse
    rcases allBlank_or_exists_lexeme h.tail line edge with
      hblank | ⟨gap, n, rest, hgap, rfl, hbehind, hhead⟩
    · rw [hblank.lexedFrom]
      rfl
    · have hnone' : Lexed.uses.name? n = none := if_neg fun hn => ?_
      · rw [hhead, Option.bind_some, hnone', Option.map_none]
      obtain ⟨as, bs, heq, -, hsome⟩ :=
        exists_directive_of_isPlainName h hgap hbehind hn (hbefore huse)
      rw [← heq, hnone rfl] at hsome
      contradiction
  · rfl

/-- Both readings go on behind the elements `as` of a text, where they have found the same. -/
structure StepsOver (line : Nat) (before edge : Option Char) (as bs : List Element) : Prop where
  ne_nil : as ≠ []
  same : ∃ us,
    selectionsIn line before ((as ++ bs).flatMap Element.marked) =
      us ++ selectionsIn (line + (text as).count '\n') ((text as).getLast?.or before)
        (bs.flatMap Element.marked) ∧
    Lexed.uses.selections (lexedFrom line edge (as ++ bs)) =
      us ++ Lexed.uses.selections (lexedFrom (line + (text as).count '\n') (touched edge as) bs)

section

variable {e : Element} {es : List Element} {separators : List Nat} {last line : Nat}
  {before edge : Option Char}

/-- Where no directive starts at an element, they are those behind it. -/
theorem selectionsIn_cons_of_none (h : Uncommented (e :: es)) {inside : Bool}
    {tail : List (Char × Bool)} (hmarked : e.marked = (e.head, inside) :: tail)
    (hskipped : Skipped (some e.head) tail)
    (hnone : (if inside then none else
      directiveAt? before ((e.head, inside) :: (tail ++ es.flatMap Element.marked))) = none) :
    selectionsIn line before ((e :: es).flatMap Element.marked) =
      selectionsIn (line + e.text.count '\n') (e.text.getLast?.or before)
        (es.flatMap Element.marked) := by
  have htail : tail.map Prod.fst = e.tail := by
    have hfst := Element.map_fst_marked h.placed.1
    rw [hmarked] at hfst
    exact (List.cons.inj hfst).2
  have hlast : e.text.getLast?.or before = e.tail.getLast?.or (some e.head) := by
    rw [Element.text, List.getLast?_cons]
    cases e.tail.getLast? <;> rfl
  have hcount : e.text.count '\n' = [e.head].count '\n' + e.tail.count '\n' := by
    rw [Element.text, ← List.count_append, List.singleton_append]
  rw [List.flatMap_cons, hmarked, List.cons_append, selectionsIn_cons_none hnone,
    selectionsIn_of_skipped hskipped, htail, hlast, hcount, Nat.add_assoc]

/-- An element at which no directive starts is stepped over. -/
theorem stepsOver_of_none (h : Uncommented (e :: es))
    (hedge : before.any isWordChar = edge.any isWordChar)
    (hclear : UsesClear separators last (lexedFrom line edge (e :: es))) (hline : line ≤ last)
    {inside : Bool} {tail : List (Char × Bool)} (hmarked : e.marked = (e.head, inside) :: tail)
    (hskipped : Skipped (some e.head) tail)
    (hnone : (if inside then none else
      directiveAt? before ((e.head, inside) :: (tail ++ es.flatMap Element.marked))) = none) :
    StepsOver line before edge [e] es := by
  have htext : text [e] = e.text := List.append_nil _
  refine ⟨List.cons_ne_nil e [], [], ?_, ?_⟩
  · rw [List.singleton_append, selectionsIn_cons_of_none h hmarked hskipped hnone, htext]
    rfl
  · cases h.plain with
    | blank => rfl
    | @lexeme k c tail' _ solid code lexes =>
        have hnothing : Lexed.uses.selection? ⟨k, c, tail', line, edge, touching es⟩
            (lexedFrom (line + (c :: tail').count '\n') (c :: tail').getLast? es) = none := by
          refine selection?_eq_none h rfl before (fun huse => ?_) (fun hk => ?_) _ _
          · rw [hedge, Option.any_eq_false]
            simpa using (hclear.1 huse hline).1
          · obtain rfl := hk
            -- the word stands outside literals
            obtain rfl : inside = false := by
              rw [Element.marked_lexeme lexes] at hmarked
              exact (Prod.mk.inj (List.cons.inj hmarked).1).2.symm
            rw [List.flatMap_cons, hmarked]
            exact hnone
        rw [List.singleton_append, lexedFrom_lexeme, UseReader.selections_cons, hnothing, htext]
        rfl

/-- A directive is stepped over, and it selects what the `USE` with which it starts does. -/
theorem exists_stepsOver_of_some (h : Uncommented (e :: es))
    (hedge : before.any isWordChar = edge.any isWordChar)
    (hclear : UsesClear separators last (lexedFrom line edge (e :: es))) (hline : line ≤ last)
    (hoff : ∀ w ∈ lexedFrom line edge (e :: es), w.line ∉ separators) {d : Directive}
    (hat : directiveAt? before ((e :: es).flatMap Element.marked) = some d) :
    ∃ as bs, e :: es = as ++ bs ∧ StepsOver line before edge as bs := by
  obtain ⟨u, s, t, width, rfl, hfolded, hname, -⟩ := exists_use_of_directiveAt? h hat
  rw [Lexer.wordKind_eq_keyword (k := .USE) hfolded] at h hclear hoff hat ⊢
  have huse := hclear.1 rfl hline
  have hbefore : before.any isWordChar = false := by
    rw [hedge, Option.any_eq_false]
    simpa using huse.1
  obtain ⟨gap, n, rest, hgap, rfl, hbehind, hhead, hn⟩ := exists_isPlainName_of_isClear h.tail huse
    (fun w hw => hoff w (List.mem_cons_of_mem _ hw)) (by simp [hname])
  obtain ⟨as, bs, heq, hno, hsome⟩ := exists_directive_of_isPlainName h hgap hbehind hn hbefore
  rw [heq] at h hhead ⊢
  refine ⟨.lexeme (.keyword .USE) u [s, t] :: as, bs, rfl, List.cons_ne_nil _ _,
    [⟨line, n.text⟩], ?_, ?_⟩
  · have hwhole : Uncommented ((.lexeme (.keyword .USE) u [s, t] :: as) ++ bs) := h
    have hdrop := drop_marked hwhole.left bs
    rw [List.cons_append] at hdrop ⊢
    obtain ⟨ms, hms⟩ := exists_marked_keyword h
    rw [hms] at hsome hdrop ⊢
    have hlast : (text (.lexeme (.keyword .USE) u [s, t] :: as)).getLast?.or before =
        (text (.lexeme (.keyword .USE) u [s, t] :: as)).getLast? :=
      Option.or_of_isSome (by simp [Element.text])
    rw [selectionsIn_cons_some ((if_neg Bool.false_ne_true).trans hsome), hdrop, hlast]
    rfl
  · have hselects : Lexed.uses.selection?
        ⟨.keyword .USE, u, [s, t], line, edge, touching (as ++ bs)⟩
          (lexedFrom (line + (u :: [s, t]).count '\n') (u :: [s, t]).getLast? (as ++ bs)) =
        some ⟨line, n.text⟩ := by
      have hplain : Lexed.uses.name? n = some n.text := if_pos hn
      rw [UseReader.selection?, hhead, Option.bind_some, hplain]
      rfl
    rw [List.cons_append, lexedFrom_lexeme, UseReader.selections_cons, hselects,
      selections_lexedFrom_append hno, text_cons, List.count_append, ← Nat.add_assoc]
    rfl

theorem exists_stepsOver (h : Uncommented (e :: es))
    (hedge : before.any isWordChar = edge.any isWordChar)
    (hclear : UsesClear separators last (lexedFrom line edge (e :: es))) (hline : line ≤ last)
    (hoff : ∀ w ∈ lexedFrom line edge (e :: es), w.line ∉ separators) :
    ∃ as bs, e :: es = as ++ bs ∧ StepsOver line before edge as bs := by
  obtain ⟨inside, tail, hmarked, hskipped⟩ :=
    Element.skipped_tail h.placed.1 (h.bare e List.mem_cons_self)
  cases hd : (if inside then none else
      directiveAt? before ((e.head, inside) :: (tail ++ es.flatMap Element.marked))) with
  | none => exact ⟨[e], es, rfl, stepsOver_of_none h hedge hclear hline hmarked hskipped hd⟩
  | some d =>
      refine exists_stepsOver_of_some h hedge hclear hline hoff (d := d) ?_
      split at hd
      · contradiction
      · rw [List.flatMap_cons, hmarked]
        exact hd

end

/-- Where it is clear what each `USE` selects, the directives are the plain uses. -/
theorem selectionsIn_marked {es : List Element} (h : Uncommented es) {separators : List Nat}
    {last line : Nat} {before edge : Option Char}
    (hedge : before.any isWordChar = edge.any isWordChar)
    (hclear : UsesClear separators last (lexedFrom line edge es))
    (hoff : ∀ w ∈ lexedFrom line edge es, w.line ∉ separators) :
    upTo last (selectionsIn line before (es.flatMap Element.marked)) =
      upTo last (Lexed.uses.selections (lexedFrom line edge es)) := by
  -- recursion on the length, as behind a directive the pass goes on several elements later
  match es with
  | [] =>
      rw [List.flatMap_nil, selectionsIn_nil]
      rfl
  | e :: es =>
      by_cases hline : line ≤ last
      · obtain ⟨as, bs, heq, hne, us, hin, hof⟩ := exists_stepsOver h hedge hclear hline hoff
        rw [heq] at h hclear hoff ⊢
        have hsuffix := suffix_lexedFrom line edge as bs
        have hblank : ∀ c, isBlank c → isWordChar c = false := fun c => isWordChar_of_isBlank
        have hshort : bs.length < (e :: es).length := by
          rw [heq, List.length_append]
          exact Nat.lt_add_of_pos_left (List.length_pos_iff.2 hne)
        rw [hin, hof, upTo_append, upTo_append]
        congr 1
        exact selectionsIn_marked h.right (any_touched hblank h hedge) (hclear.of_suffix hsuffix)
          fun w hw => hoff w (hsuffix.subset hw)
      · -- from here on nothing counts
        have hlast : last < line := Nat.lt_of_not_le hline
        rw [upTo_eq_nil fun u hu => Nat.lt_of_lt_of_le hlast (line_le_of_mem_selectionsIn hu),
          UseReader.upTo_selections_of_lt fun w hw =>
            Nat.lt_of_lt_of_le hlast (line_le_of_mem_lexedFrom hw).1]
termination_by es.length
decreasing_by exact hshort

end Batch

end Tsql
