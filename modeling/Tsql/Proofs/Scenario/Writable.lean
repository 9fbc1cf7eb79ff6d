import Mathlib.Data.List.Basic
import Mathlib.Tactic.MkIffOfInductiveProp
import Tsql.Proofs.Text.Parts
import Tsql.Scenario.Reader

/-!
Scenarios that can be written, line by line.

Each line that is written for a scenario is read as what it was written for (`ofText_fieldLine`,
`ofText_indented`). Of the lines of a value the value itself is read: blank lines behind it, the
commas between names and the indentation of a marked text do not show (`inline_ofValue`,
`nameList_namesText`, `dedented_indented`).
-/

namespace Tsql.Scenario

open Text

/-! ### What can be written -/

/-- A value that can stand behind the name of a field. A bar alone would announce a value on the
lines below. -/
@[mk_iff]
structure IsValue (cs : List Char) : Prop where
  trimmed : trim cs = cs
  oneLine : '\n' ∉ cs
  ne_bar : cs ≠ ['|']

@[mk_iff]
structure IsInline (cs : List Char) : Prop extends IsValue cs where
  ne_nil : cs ≠ []

/-- Names that can be written with commas between them. -/
@[mk_iff]
structure AreNames (names : List String) : Prop where
  each : ∀ n ∈ names, n.toList ≠ [] ∧ trim n.toList = n.toList ∧ ',' ∉ n.toList ∧ '\n' ∉ n.toList
  ne_bar : names ≠ ["|"]

/-- A line of a marked text that is not taken for a separator or for the first line of a field. -/
@[mk_iff]
structure IsTextLine (l : List Char) : Prop where
  noReturn : l.getLast? ≠ some '\r'
  ne_separator : trim l ≠ ['-', '-', '-']
  noField : ':' ∈ trim l → ∀ f : Field, trim ((trim l).takeWhile (· ≠ ':')) ≠ f.name.toList

/-- A text with a mark in it that can be written on lines of its own. -/
@[mk_iff]
structure IsMarkedText (cs : List Char) : Prop where
  trimmed : trim cs = cs
  marked : '|' ∈ cs
  lines : ∀ l ∈ lines cs, IsTextLine l

/-- A scenario that can be written. -/
@[mk_iff]
structure IsWritable (s : Scenario) : Prop where
  description : IsInline s.description.toList
  marked : IsMarkedText s.marked.toList
  mode : IsInline s.expected.mode.toList
  tableRef : ∀ t ∈ s.expected.tableRef, IsInline t.toList
  tables : ∀ ts ∈ s.expected.tables, AreNames ts
  columns : ∀ cs ∈ s.expected.columns, AreNames cs
  database : ∀ d ∈ s.expected.database, IsInline d.toList

/-- A line that holds nothing but blanks. -/
@[mk_iff]
structure IsBlankLine (l : List Char) : Prop where
  blank : ∀ c ∈ l, isBlank c
  oneLine : '\n' ∉ l

instance {p : Field → Prop} [DecidablePred p] : Decidable (∀ f, p f) :=
  decidable_of_iff (∀ f ∈ Field.all, p f)
    ⟨fun h f => h f (by cases f <;> decide), fun h f _ => h f⟩

instance : DecidablePred IsValue := fun _ => decidable_of_iff' _ (isValue_iff _)

instance : DecidablePred IsInline := fun _ => decidable_of_iff' _ (isInline_iff _)

instance : DecidablePred AreNames := fun _ => decidable_of_iff' _ (areNames_iff _)

instance : DecidablePred IsTextLine := fun _ => decidable_of_iff' _ (isTextLine_iff _)

instance : DecidablePred IsMarkedText := fun _ => decidable_of_iff' _ (isMarkedText_iff _)

instance : DecidablePred IsWritable := fun _ => decidable_of_iff' _ (isWritable_iff _)

instance : DecidablePred IsBlankLine := fun l =>
  decidable_of_iff (l.all isBlank = true ∧ '\n' ∉ l) (by rw [isBlankLine_iff, List.all_eq_true])

/-! ### Lines -/

theorem Field.ofName?_name (f : Field) : ofName? f.name.toList = some f := by
  cases f <;> decide

theorem Field.name_spec (f : Field) : trim f.name.toList = f.name.toList ∧ ':' ∉ f.name.toList ∧
    '\n' ∉ f.name.toList ∧ f.name.toList ≠ [] := by
  cases f <;> decide

theorem isBlank_space : isBlank ' ' := rfl

/-- The value of a field on its first line, as it is read. -/
def ofValue (value : List Char) : List (List Char) :=
  if value = [] then [] else [value]

theorem fieldOf?_append {f : Field} {value : List Char} (h : trim value = value)
    (gap : List Char) (hgap : ∀ c ∈ gap, isBlank c) :
    fieldOf? (f.name.toList ++ ':' :: (gap ++ value)) = some (f, value) := by
  obtain ⟨htrim, hcolon, -⟩ := f.name_spec
  have hname : ∀ c ∈ f.name.toList, decide (c ≠ ':') = true := fun c hc =>
    decide_eq_true fun heq => hcolon (heq ▸ hc)
  have htake : (f.name.toList ++ ':' :: (gap ++ value)).takeWhile (· ≠ ':') = f.name.toList := by
    rw [List.takeWhile_append_of_pos hname]
    simp
  have hdrop : (f.name.toList ++ ':' :: (gap ++ value)).dropWhile (· ≠ ':') =
      ':' :: (gap ++ value) := by
    rw [List.dropWhile_append_of_pos hname]
    simp
  rw [fieldOf?, hdrop, htake, htrim, Field.ofName?_name]
  simp only [Option.map_some, trim_blanks_append hgap, h]

/-- Behind the colon a trimmed line has a blank only if it has a value. -/
theorem exists_trim_fieldLine (f : Field) {value : List Char} (h : trim value = value) :
    ∃ gap, (∀ c ∈ gap, isBlank c) ∧
      trim (fieldLine f value) = f.name.toList ++ ':' :: (gap ++ value) := by
  obtain ⟨htrim, -, -, hname⟩ := f.name_spec
  have hstart (more : List Char) : ∀ c ∈ (f.name.toList ++ more).head?, isBlank c = false := by
    intro c hc
    rw [List.head?_append_of_ne_nil _ hname] at hc
    exact (ends_of_trim htrim).1 c hc
  by_cases hvalue : value = []
  · have hline : fieldLine f value = (f.name.toList ++ [':']) ++ [' '] := by
      simp [fieldLine, hvalue]
    refine ⟨[], by simp, ?_⟩
    rw [hline, trim_append_blanks (List.forall_mem_singleton.2 isBlank_space), hvalue]
    exact trim_eq_self (hstart _) (by simp; rfl)
  · have hline : fieldLine f value = f.name.toList ++ ':' :: ([' '] ++ value) := by
      simp [fieldLine]
    refine ⟨[' '], List.forall_mem_singleton.2 isBlank_space, ?_⟩
    rw [hline]
    refine trim_eq_self (hstart _) fun c hc => (ends_of_trim h).2 c ?_
    have hsplit : f.name.toList ++ ':' :: ([' '] ++ value) = (f.name.toList ++ [':', ' ']) ++ value := by
      simp
    rwa [hsplit, List.getLast?_append_of_ne_nil _ hvalue] at hc

/-- A line that was written for a field is read as its first line. -/
theorem ofText_fieldLine (f : Field) {value : List Char} (h : IsValue value) :
    Line.ofText (fieldLine f value) = .field f (ofValue value) := by
  obtain ⟨gap, hgap, htext⟩ := exists_trim_fieldLine f h.trimmed
  have hne : f.name.toList ++ ':' :: (gap ++ value) ≠ ['-', '-', '-'] := by
    cases f <;> simp [Field.name]
  rw [Line.ofText, htext]
  simp only [if_neg hne, fieldOf?_append h.trimmed gap hgap, h.ne_bar, or_false]
  rfl

theorem ofText_barLine (f : Field) : Line.ofText (fieldLine f ['|']) = .field f [] := by
  cases f <;> decide

theorem fieldOf?_eq_none {l : List Char} (h : IsTextLine l) : fieldOf? (trim l) = none := by
  rw [fieldOf?]
  cases hdrop : (trim l).dropWhile (· ≠ ':') with
  | nil => rfl
  | cons c value =>
      have hcolon : ':' ∈ trim l := by
        by_contra hnot
        have hall : (trim l).dropWhile (· ≠ ':') = [] :=
          List.dropWhile_eq_nil_iff.2 fun d hd => decide_eq_true fun heq => hnot (heq ▸ hd)
        exact List.cons_ne_nil c value (hdrop.symm.trans hall)
      have hname : Field.ofName? (trim ((trim l).takeWhile (· ≠ ':'))) = none := by
        rw [Field.ofName?, List.find?_eq_none]
        exact fun f _ heq => h.noField hcolon f (of_decide_eq_true heq).symm
      simp only [hname, Option.map_none]

/-- A line of a marked text as it is written. -/
def indented (l : List Char) : List Char :=
  ' ' :: ' ' :: l

theorem trim_indented (l : List Char) : trim (indented l) = trim l := by
  have hblanks : ∀ c ∈ [' ', ' '], isBlank c :=
    List.forall_mem_cons.2 ⟨isBlank_space, List.forall_mem_singleton.2 isBlank_space⟩
  exact trim_blanks_append hblanks l

/-- An indented line of a marked text is read as a line that continues a value. -/
theorem ofText_indented {l : List Char} (h : IsTextLine l) :
    Line.ofText (indented l) = .other (indented l) := by
  rw [Line.ofText, trim_indented]
  simp only [if_neg h.ne_separator, fieldOf?_eq_none h]

theorem ofText_blank {l : List Char} (h : IsBlankLine l) : Line.ofText l = .other l := by
  rw [Line.ofText, trim_blanks h.blank]
  rfl

/-! ### Values -/

/-- Blank lines behind a value are blanks behind its text. -/
theorem joinWith_append_blanks {gap : List (List Char)} (h : ∀ l ∈ gap, IsBlankLine l)
    (value : List Char) :
    ∃ blanks, (∀ c ∈ blanks, isBlank c) ∧ joinWith [' '] (value :: gap) = value ++ blanks := by
  induction gap generalizing value with
  | nil => exact ⟨[], by simp, by simp [joinWith]⟩
  | cons l gap ih =>
      obtain ⟨hl, hgap⟩ := List.forall_mem_cons.1 h
      obtain ⟨blanks, hblanks, hjoin⟩ := ih hgap l
      refine ⟨' ' :: (l ++ blanks), ?_, ?_⟩
      · intro c hc
        rcases List.mem_cons.1 hc with rfl | hc
        · rfl
        · exact (List.mem_append.1 hc).elim (hl.blank c) (hblanks c)
      · rw [joinWith, hjoin]
        · simp
        · simp

theorem inline_ofValue {value : List Char} (h : trim value = value) {gap : List (List Char)}
    (hgap : ∀ l ∈ gap, IsBlankLine l) : inline (ofValue value ++ gap) = value := by
  rw [inline, ofValue]
  split
  · next hvalue =>
      cases gap with
      | nil => rw [hvalue]; rfl
      | cons l gap =>
          obtain ⟨hl, hrest⟩ := List.forall_mem_cons.1 hgap
          obtain ⟨blanks, hblanks, hjoin⟩ := joinWith_append_blanks hrest l
          rw [List.nil_append, hjoin, hvalue]
          exact trim_blanks fun c hc => (List.mem_append.1 hc).elim (hl.blank c) (hblanks c)
  · obtain ⟨blanks, hblanks, hjoin⟩ := joinWith_append_blanks hgap value
    rw [List.singleton_append, hjoin, trim_append_blanks hblanks, h]

theorem inline_ofValue_alone {value : List Char} (h : trim value = value) :
    inline (ofValue value) = value := by
  have hnone := inline_ofValue h (List.forall_mem_nil IsBlankLine)
  rwa [List.append_nil] at hnone

/-- The part for each of the names, of which all but the first have a blank before them. -/
theorem split_namesText {n : String} {names : List String}
    (h : ∀ m ∈ n :: names, ',' ∉ m.toList) :
    Text.split (· = ',') (namesText (n :: names)) =
      n.toList :: names.map fun m => ' ' :: m.toList := by
  induction names generalizing n with
  | nil =>
      have hcomma := h n List.mem_cons_self
      exact split_of_forall fun _ hd => decide_eq_false fun heq => hcomma (heq ▸ hd)
  | cons m names ih =>
      obtain ⟨hn, hnames⟩ := List.forall_mem_cons.1 h
      have hjoin : namesText (n :: m :: names) =
          n.toList ++ ',' :: (' ' :: namesText (m :: names)) := by
        simp [namesText, joinWith]
      have hfirst : Text.split (· = ',') n.toList = [n.toList] :=
        split_of_forall fun _ hd => decide_eq_false fun heq => hn (heq ▸ hd)
      have hblank : Text.split (· = ',') (' ' :: namesText (m :: names)) =
          (' ' :: m.toList) :: names.map fun k => ' ' :: k.toList := by
        rw [Text.split, if_neg (by decide), ih hnames]
      rw [hjoin, split_append_cons (by decide), hfirst, hblank]
      rfl

theorem nameList_namesText {names : List String} (h : AreNames names) :
    nameList (namesText names) = names := by
  cases names with
  | nil => rfl
  | cons n names =>
      obtain ⟨hn, hnames⟩ := List.forall_mem_cons.1 h.each
      have htrimmed : (names.map fun m => ' ' :: m.toList).map trim = names.map String.toList := by
        rw [List.map_map]
        refine List.map_congr_left fun m hm => ?_
        have hblank : ∀ c ∈ [' '], isBlank c := List.forall_mem_singleton.2 isBlank_space
        exact (trim_blanks_append hblank m.toList).trans (hnames m hm).2.1
      have hall : ((n :: names).map String.toList).filter (!·.isEmpty) =
          (n :: names).map String.toList := by
        rw [List.filter_eq_self]
        intro cs hcs
        obtain ⟨m, hm, rfl⟩ := List.mem_map.1 hcs
        simpa using (h.each m hm).1
      rw [nameList, split_namesText fun m hm => (h.each m hm).2.2.1, List.map_cons, hn.2.1,
        htrimmed, ← List.map_cons, hall, List.map_map]
      simp


theorem namesText_cons_cons (n m : String) (names : List String) :
    namesText (n :: m :: names) = (n.toList ++ [',', ' ']) ++ namesText (m :: names) := by
  simp [namesText, joinWith]

theorem namesText_ends {n : String} {names : List String}
    (h : ∀ m ∈ n :: names, m.toList ≠ [] ∧ trim m.toList = m.toList) :
    namesText (n :: names) ≠ [] ∧ (∀ c ∈ (namesText (n :: names)).head?, isBlank c = false) ∧
      ∀ c ∈ (namesText (n :: names)).getLast?, isBlank c = false := by
  induction names generalizing n with
  | nil =>
      obtain ⟨hne, htrim⟩ := h n List.mem_cons_self
      exact ⟨hne, ends_of_trim htrim⟩
  | cons m names ih =>
      obtain ⟨⟨hne, htrim⟩, hnames⟩ := List.forall_mem_cons.1 h
      obtain ⟨hrest, -, hend⟩ := ih hnames
      rw [namesText_cons_cons]
      refine ⟨by simp [hne], ?_, ?_⟩
      · rw [List.append_assoc, List.head?_append_of_ne_nil _ hne]
        exact (ends_of_trim htrim).1
      · rwa [List.getLast?_append_of_ne_nil _ hrest]

theorem lineFeed_notMem_namesText {names : List String} (h : ∀ n ∈ names, '\n' ∉ n.toList) :
    '\n' ∉ namesText names := by
  induction names with
  | nil => exact List.not_mem_nil
  | cons n names ih =>
      obtain ⟨hn, hnames⟩ := List.forall_mem_cons.1 h
      cases names with
      | nil => exact hn
      | cons m names =>
          rw [namesText_cons_cons]
          simp [hn, ih hnames]

theorem AreNames.isValue {names : List String} (h : AreNames names) :
    IsValue (namesText names) where
  trimmed := by
    cases names with
    | nil => rfl
    | cons n names =>
        obtain ⟨-, hfirst, hlast⟩ := namesText_ends fun m hm =>
          ⟨(h.each m hm).1, (h.each m hm).2.1⟩
        exact trim_eq_self hfirst hlast
  oneLine := lineFeed_notMem_namesText fun n hn => (h.each n hn).2.2.2
  ne_bar := by
    intro heq
    have hnames : nameList ['|'] = names := heq ▸ nameList_namesText h
    exact h.ne_bar (hnames.symm.trans (by decide))

/-! ### Marked texts -/

theorem lines_cons_of_ne {c : Char} (h : c ≠ '\n') (cs : List Char) :
    ∃ part parts, lines (c :: cs) = (c :: part) :: parts := by
  cases hparts : lines cs with
  | nil => exact absurd hparts (split_ne_nil _ cs)
  | cons part parts =>
      refine ⟨part, parts, ?_⟩
      rw [lines, split, if_neg (by simpa using h), ← lines, hparts]

theorem size_leadingBlanks_indented (l : List Char) :
    size (leadingBlanks (indented l)) = size (leadingBlanks l) + 2 := by
  have hblanks : leadingBlanks (indented l) = [' ', ' '] ++ leadingBlanks l := rfl
  rw [hblanks, size_append, Nat.add_comm]
  rfl

/-- The first line is not blank, so it has no further indentation. -/
theorem indentation_indented {cs : List Char} (h : IsMarkedText cs) :
    indentation ((lines cs).map indented) = 2 := by
  obtain ⟨c, tail, rfl⟩ := List.exists_cons_of_ne_nil (List.ne_nil_of_mem h.marked)
  have hc : isBlank c = false := (ends_of_trim h.trimmed).1 c rfl
  have hfeed : c ≠ '\n' := by
    rintro rfl
    exact Bool.noConfusion hc
  obtain ⟨part, parts, hlines⟩ := lines_cons_of_ne hfeed tail
  have hmin : ((((lines (c :: tail)).map indented).filter fun l => !(trim l).isEmpty).map fun l =>
      size (leadingBlanks l)).min? = some 2 := by
    rw [List.min?_eq_some_iff]
    constructor
    · refine List.mem_map.2 ⟨indented (c :: part), List.mem_filter.2 ⟨?_, ?_⟩, ?_⟩
      · rw [hlines]
        exact List.mem_cons_self
      · have htrim : trim (c :: part) = c :: trimEnd part := by
          rw [trim, trimStart_eq_self (by simpa using hc)]
          exact trimEnd_append_cons hc [] part
        rw [trim_indented, htrim]
        rfl
      · have hnone : leadingBlanks (c :: part) = [] :=
          List.takeWhile_cons_of_neg (by simp [hc])
        rw [size_leadingBlanks_indented, hnone]
        rfl
    · intro n hn
      obtain ⟨l, hl, rfl⟩ := List.mem_map.1 hn
      obtain ⟨l', -, rfl⟩ := List.mem_map.1 (List.mem_of_mem_filter hl)
      rw [size_leadingBlanks_indented]
      exact Nat.le_add_left 2 _
  rw [indentation, hmin]
  rfl

theorem dedented_indented {cs : List Char} (h : IsMarkedText cs) :
    dedented ((lines cs).map indented) = cs := by
  have hdrop (l : List Char) : dropSize? 2 (indented l) = some l := by
    cases l <;> rfl
  rw [dedented, indentation_indented h, List.map_map]
  simp only [Function.comp_def, hdrop, Option.getD_some, List.map_id_fun', id]
  rw [joinLines_lines, h.trimmed]

end Tsql.Scenario
