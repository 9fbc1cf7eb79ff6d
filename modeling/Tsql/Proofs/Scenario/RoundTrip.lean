import Tsql.Proofs.Scenario.Writable

/-!
Scenarios are read as they were written.

Reading the lines of a scenario fills a draft with its fields, whatever comes behind
(`ofEntries_scenario`). The separator before the next scenario ends it, so the scenarios of a file
follow one after the other (`ofEntries_readLines`). The text is read line by line as it is written,
but for the blank lines (`exists_kept_written`), which change no field.
-/

namespace Tsql.Scenario

open Text

/-! ### The fields of a scenario -/

/-- The fields behind the marked text. -/
def fieldsBehind (e : Expectation) : List (Field × List Char) :=
  [(.mode, e.mode.toList)] ++ (e.tableRef.map fun t => (Field.tableRef, t.toList)).toList ++
    (e.tables.map fun ts => (Field.tables, namesText ts)).toList ++
    (e.columns.map fun cs => (Field.columns, namesText cs)).toList ++
    (e.database.map fun d => (Field.database, d.toList)).toList

theorem toLines_eq (s : Scenario) :
    s.toLines = ['-', '-', '-'] :: fieldLine .description s.description.toList ::
      fieldLine .marked ['|'] :: ((lines s.marked.toList).map indented ++
        (fieldsBehind s.expected).map fun x => fieldLine x.1 x.2) := by
  obtain ⟨description, marked, mode, tableRef, tables, columns, database⟩ := s
  cases tableRef <;> cases tables <;> cases columns <;> cases database <;>
    simp [toLines, fieldsBehind, indented]

theorem isValue_of_mem_fieldsBehind {s : Scenario} (h : IsWritable s) :
    ∀ x ∈ fieldsBehind s.expected, IsValue x.2 ∧ x.1 ≠ .marked := by
  intro x hx
  simp only [fieldsBehind, List.mem_append, List.mem_singleton, Option.mem_toList,
    Option.map_eq_some_iff] at hx
  rcases hx with (((rfl | ⟨t, ht, rfl⟩) | ⟨ts, hts, rfl⟩) | ⟨cs, hcs, rfl⟩) | ⟨d, hd, rfl⟩
  · exact ⟨h.mode.toIsValue, by simp⟩
  · exact ⟨(h.tableRef t ht).toIsValue, by simp⟩
  · exact ⟨(h.tables ts hts).isValue, by simp⟩
  · exact ⟨(h.columns cs hcs).isValue, by simp⟩
  · exact ⟨(h.database d hd).toIsValue, by simp⟩

/-- The draft in which all fields of the scenario have been read. -/
def draftOf (s : Scenario) : Draft where
  description := some s.description
  marked := some s.marked.toList
  mode := some s.expected.mode
  tableRef := s.expected.tableRef
  tables := s.expected.tables
  columns := s.expected.columns
  database := s.expected.database

theorem scenario_draftOf {s : Scenario} (h : IsWritable s) (line : Nat) :
    (draftOf s).scenario line = .ok s := by
  simp [Draft.scenario, draftOf, h.marked.marked]

theorem set_ofValue {f : Field} {value : List Char} (hf : f ≠ .marked) (h : IsValue value)
    {gap : List (List Char)} (hgap : ∀ l ∈ gap, IsBlankLine l) (d : Draft) :
    d.set f (ofValue value ++ gap) = d.set f (ofValue value) := by
  cases f with
  | marked => contradiction
  | _ => simp only [Draft.set, inline_ofValue h.trimmed hgap, inline_ofValue_alone h.trimmed]

theorem nonempty?_toList {t : String} (h : IsInline t.toList) :
    Draft.nonempty? t.toList = some t := by
  simp [Draft.nonempty?, h.ne_nil]

theorem foldl_fieldsBehind {s : Scenario} (h : IsWritable s) :
    (fieldsBehind s.expected).foldl (fun d x => d.set x.1 (ofValue x.2))
      { description := some s.description, marked := some s.marked.toList } = draftOf s := by
  have hread {cs : List Char} (hcs : IsValue cs) : inline (ofValue cs) = cs :=
    inline_ofValue_alone hcs.trimmed
  obtain ⟨description, marked, mode, tableRef, tables, columns, database⟩ := s
  obtain ⟨-, -, hmode, htableRef, htables, hcolumns, hdatabase⟩ := h
  have hnames {ns : List String} (hns : AreNames ns) :
      nameList (inline (ofValue (namesText ns))) = ns := by
    rw [hread hns.isValue, nameList_namesText hns]
  have hinline {t : String} (ht : IsInline t.toList) :
      Draft.nonempty? (inline (ofValue t.toList)) = some t := by
    rw [hread ht.toIsValue, nonempty?_toList ht]
  cases tableRef <;> cases tables <;> cases columns <;> cases database <;>
    simp_all [fieldsBehind, Draft.set, draftOf, hmode.toIsValue]

/-! ### Reading the lines -/

section

variable {rest : List Line} (last : Nat)

theorem continuation_others (h : continuation rest = []) (os : List (List Char)) :
    continuation (os.map .other ++ rest) = os := by
  induction os with
  | nil => exact h
  | cons o os ih => exact congrArg (o :: ·) ih

theorem entries_others (n : Nat) (os : List (List Char)) :
    entries n (os.map .other ++ rest) = entries (n + os.length) rest := by
  induction os generalizing n with
  | nil => rfl
  | cons o os ih =>
      rw [List.length_cons, Nat.add_comm os.length, ← Nat.add_assoc, ← ih]
      rfl

theorem ofEntries_field (h : continuation rest = []) (d : Draft) (n : Nat) (f : Field)
    (value os : List (List Char)) :
    ofEntries last d (entries n (.field f value :: (os.map .other ++ rest))) =
      ofEntries last (d.set f (value ++ os)) (entries (n + 1 + os.length) rest) := by
  rw [entries, continuation_others h, entries_others, ofEntries]

/-- Fields on one line are set one after the other; the blank lines behind the last change
nothing. -/
theorem ofEntries_fields (h : continuation rest = []) {gap : List (List Char)}
    (hgap : ∀ l ∈ gap, IsBlankLine l) {fs : List (Field × List Char)}
    (hfs : ∀ x ∈ fs, IsValue x.2 ∧ x.1 ≠ .marked) (d : Draft) (n : Nat) :
    ofEntries last d (entries n
        (fs.map (fun x => .field x.1 (ofValue x.2)) ++ (gap.map .other ++ rest))) =
      ofEntries last (fs.foldl (fun d x => d.set x.1 (ofValue x.2)) d)
        (entries (n + fs.length + gap.length) rest) := by
  induction fs generalizing d n with
  | nil => simp [entries_others]
  | cons x fs ih =>
      obtain ⟨⟨hvalue, hmarked⟩, hfs⟩ := List.forall_mem_cons.1 hfs
      cases fs with
      | nil =>
          have hfield := ofEntries_field last h d n x.1 (ofValue x.2) gap
          rwa [set_ofValue hmarked hvalue hgap] at hfield
      | cons y fs =>
          have hnext : continuation ((y :: fs).map (fun x => .field x.1 (ofValue x.2)) ++
              (gap.map .other ++ rest)) = [] := rfl
          have hfield := ofEntries_field last hnext d n x.1 (ofValue x.2) []
          rw [List.append_nil, ih hfs] at hfield
          refine hfield.trans ?_
          simp only [List.foldl_cons, List.length_cons, List.length_nil]
          congr 2
          omega

/-- A scenario as it is read, with the blank lines behind it. -/
def readLines (x : Scenario × List (List Char)) : List Line :=
  x.1.toLines.map Line.ofText ++ x.2.map .other

theorem readLines_eq {x : Scenario × List (List Char)} (h : IsWritable x.1) :
    readLines x = .separator :: .field .description (ofValue x.1.description.toList) ::
      .field .marked [] :: (((lines x.1.marked.toList).map indented).map .other ++
        ((fieldsBehind x.1.expected).map (fun y => .field y.1 (ofValue y.2)) ++
          x.2.map .other)) := by
  have hdescription := ofText_fieldLine .description h.description.toIsValue
  have hmarked := ofText_barLine .marked
  have htext : ((lines x.1.marked.toList).map indented).map Line.ofText =
      ((lines x.1.marked.toList).map indented).map .other := by
    refine List.map_congr_left fun l hl => ?_
    obtain ⟨l', hl', rfl⟩ := List.mem_map.1 hl
    exact ofText_indented (h.marked.lines l' hl')
  have hfields : ((fieldsBehind x.1.expected).map fun y => fieldLine y.1 y.2).map Line.ofText =
      (fieldsBehind x.1.expected).map fun y => .field y.1 (ofValue y.2) := by
    rw [List.map_map]
    exact List.map_congr_left fun y hy => ofText_fieldLine y.1 (isValue_of_mem_fieldsBehind h y hy).1
  rw [readLines, toLines_eq]
  simp only [List.map_cons, List.map_append, hdescription, hmarked, htext, hfields,
    List.cons_append, List.append_assoc]
  rfl

/-- Behind its separator a scenario is read into an empty draft, whatever comes after it. -/
theorem ofEntries_scenario (hrest : continuation rest = []) {x : Scenario × List (List Char)}
    (h : IsWritable x.1) (hgap : ∀ l ∈ x.2, IsBlankLine l) (n : Nat) :
    ∃ m, ofEntries last {} (entries n ((readLines x).tail ++ rest)) =
      ofEntries last (draftOf x.1) (entries m rest) := by
  have hset : ({} : Draft).set .description (ofValue x.1.description.toList ++ []) =
      { description := some x.1.description } := by
    rw [Draft.set, inline_ofValue h.description.trimmed (by simp), String.ofList_toList]
  have hmarked (d : Draft) : d.set .marked ([] ++ (lines x.1.marked.toList).map indented) =
      { d with marked := some x.1.marked.toList } := by
    rw [Draft.set, List.nil_append, dedented_indented h.marked]
  let behind := (fieldsBehind x.1.expected).map (fun y => Line.field y.1 (ofValue y.2)) ++
    (x.2.map .other ++ rest)
  have hbehind : continuation behind = [] := rfl
  have hlines : (readLines x).tail ++ rest = .field .description (ofValue x.1.description.toList) ::
      (.field .marked [] :: (((lines x.1.marked.toList).map indented).map .other ++ behind)) := by
    simp only [readLines_eq h, List.tail_cons, List.cons_append, List.append_assoc, behind]
  have hmarkedLine : continuation (.field .marked [] ::
      (((lines x.1.marked.toList).map indented).map .other ++ behind)) = [] := rfl
  have hfirst := ofEntries_field last hmarkedLine {} n .description
    (ofValue x.1.description.toList) []
  have hsecond := ofEntries_field last hbehind { description := some x.1.description } (n + 1)
    .marked [] ((lines x.1.marked.toList).map indented)
  rw [hset] at hfirst
  rw [hmarked] at hsecond
  have hfields := ofEntries_fields last hrest hgap (isValue_of_mem_fieldsBehind h)
    { description := some x.1.description, marked := some x.1.marked.toList }
    (n + 1 + 1 + ((lines x.1.marked.toList).map indented).length)
  rw [foldl_fieldsBehind h] at hfields
  rw [hlines]
  exact ⟨_, hfirst.trans (hsecond.trans hfields)⟩

theorem continuation_flatMap_readLines (xs : List (Scenario × List (List Char))) :
    continuation (xs.flatMap readLines) = [] := by
  cases xs with
  | nil => rfl
  | cons x xs => rfl

/-- Once a scenario has been read, the separator before the next one ends it. -/
theorem ofEntries_readLines {xs : List (Scenario × List (List Char))}
    (h : ∀ x ∈ xs, IsWritable x.1) (hgap : ∀ x ∈ xs, ∀ l ∈ x.2, IsBlankLine l) {s : Scenario}
    (hs : IsWritable s) (n : Nat) :
    ofEntries last (draftOf s) (entries n (xs.flatMap readLines)) = .ok (s :: xs.map Prod.fst) := by
  induction xs generalizing s n with
  | nil =>
      have hend : (draftOf s).isStarted = true := rfl
      rw [List.flatMap_nil, entries, ofEntries, if_pos hend, scenario_draftOf hs]
      rfl
  | cons x xs ih =>
      obtain ⟨hx, hxs⟩ := List.forall_mem_cons.1 h
      obtain ⟨hxgap, hgaps⟩ := List.forall_mem_cons.1 hgap
      have hstarted : (draftOf s).isStarted = true := rfl
      have hsep : (x :: xs).flatMap readLines =
          .separator :: ((readLines x).tail ++ xs.flatMap readLines) := rfl
      obtain ⟨m, hm⟩ := ofEntries_scenario last (continuation_flatMap_readLines xs) hx hxgap (n + 1)
      rw [hsep, entries, ofEntries, if_pos hstarted, scenario_draftOf hs, hm, ih hxs hgaps hx]
      rfl

/-- A separator before the first scenario ends nothing. -/
theorem ofEntries_start {xs : List (Scenario × List (List Char))}
    (h : ∀ x ∈ xs, IsWritable x.1) (hgap : ∀ x ∈ xs, ∀ l ∈ x.2, IsBlankLine l) :
    ofEntries last {} (entries 1 (xs.flatMap readLines)) = .ok (xs.map Prod.fst) := by
  cases xs with
  | nil => rfl
  | cons x xs =>
      obtain ⟨hx, hxs⟩ := List.forall_mem_cons.1 h
      obtain ⟨hxgap, hgaps⟩ := List.forall_mem_cons.1 hgap
      have hsep : (x :: xs).flatMap readLines =
          .separator :: ((readLines x).tail ++ xs.flatMap readLines) := rfl
      have hstart : ¬ ({} : Draft).isStarted := by decide
      obtain ⟨m, hm⟩ := ofEntries_scenario last (continuation_flatMap_readLines xs) hx hxgap 2
      rw [hsep, entries, ofEntries, if_neg hstart, hm, ofEntries_readLines last hxs hgaps hx]
      rfl

end

/-! ### The lines of a text -/

/-- A line as it is read, without the carriage return at its end. -/
def chomp (l : List Char) : List Char :=
  if l.getLast? = some '\r' then l.dropLast else l

/-- The lines of which a text is put together, as they are read. -/
def kept (ls : List (List Char)) : List (List Char) :=
  ls.dropLast.map chomp ++ ls.getLast?.toList.filter (!·.isEmpty)

theorem textLines_joinLines {ls : List (List Char)} (h : ∀ l ∈ ls, '\n' ∉ l) (hne : ls ≠ []) :
    textLines (joinLines ls) = kept ls := by
  rw [textLines, lines_joinLines h hne]
  rfl

theorem kept_append (as : List (List Char)) {bs : List (List Char)} (h : bs ≠ []) :
    kept (as ++ bs) = as.map chomp ++ kept bs := by
  rw [kept, List.dropLast_append_of_ne_nil h, List.getLast?_append_of_ne_nil _ h, List.map_append,
    List.append_assoc, kept]

/-- A line that is read as it is written, wherever it stands. -/
structure IsKept (l : List Char) : Prop where
  ne_nil : l ≠ []
  oneLine : '\n' ∉ l
  noReturn : l.getLast? ≠ some '\r'

theorem map_chomp_eq_self {ls : List (List Char)} (h : ∀ l ∈ ls, IsKept l) : ls.map chomp = ls :=
  (List.map_congr_left fun l hl => if_neg (h l hl).noReturn).trans ls.map_id

theorem kept_eq_self {ls : List (List Char)} (h : ∀ l ∈ ls, IsKept l) : kept ls = ls := by
  have hinit : ls.dropLast.map chomp = ls.dropLast :=
    map_chomp_eq_self fun l hl => h l (List.dropLast_subset _ hl)
  have hlast : ls.getLast?.toList.filter (!·.isEmpty) = ls.getLast?.toList := by
    rw [List.filter_eq_self]
    intro l hl
    simpa using (h l (List.mem_of_getLast? (Option.mem_toList.1 hl))).ne_nil
  rw [kept, hinit, hlast]
  cases hend : ls.getLast? with
  | none => simp [List.getLast?_eq_none_iff.1 hend]
  | some l => exact List.dropLast_append_getLast? l hend

theorem kept_append_of_isKept {as : List (List Char)} (h : ∀ l ∈ as, IsKept l)
    (bs : List (List Char)) : kept (as ++ bs) = as ++ kept bs := by
  by_cases hnil : bs = []
  · rw [hnil, List.append_nil, kept_eq_self h]
    exact (List.append_nil as).symm
  · rw [kept_append as hnil, map_chomp_eq_self h]

theorem isBlankLine_chomp {l : List Char} (h : IsBlankLine l) : IsBlankLine (chomp l) := by
  rw [chomp]
  split
  · exact ⟨fun c hc => h.blank c (List.dropLast_subset _ hc),
      fun hc => h.oneLine (List.dropLast_subset _ hc)⟩
  · exact h

theorem isBlankLine_of_mem_kept {gap : List (List Char)} (h : ∀ l ∈ gap, IsBlankLine l) :
    ∀ l ∈ kept gap, IsBlankLine l := by
  intro l hl
  rcases List.mem_append.1 hl with hl | hl
  · obtain ⟨l', hl', rfl⟩ := List.mem_map.1 hl
    exact isBlankLine_chomp (h l' (List.dropLast_subset _ hl'))
  · exact h l (List.mem_of_getLast? (Option.mem_toList.1 (List.mem_of_mem_filter hl)))

theorem isKept_fieldLine (f : Field) {value : List Char} (h : trim value = value)
    (hline : '\n' ∉ value) : IsKept (fieldLine f value) := by
  obtain ⟨-, -, hname, hne⟩ := f.name_spec
  refine ⟨by simp [fieldLine, hne], by simp [fieldLine, hname, hline], fun hlast => ?_⟩
  by_cases hvalue : value = []
  · simp [fieldLine, hvalue] at hlast
  · rw [fieldLine, List.getLast?_append_of_ne_nil _ hvalue] at hlast
    exact Bool.noConfusion ((ends_of_trim h).2 _ hlast)

theorem isKept_indented {cs l : List Char} (hmem : l ∈ lines cs) (h : IsTextLine l) :
    IsKept (indented l) := by
  have hline : '\n' ∉ l := notMem_of_mem_lines hmem
  refine ⟨by simp [indented], by simp [indented, hline], ?_⟩
  cases l with
  | nil => simp [indented]
  | cons c l => exact h.noReturn

theorem isKept_of_mem_toLines {s : Scenario} (h : IsWritable s) : ∀ l ∈ s.toLines, IsKept l := by
  intro l hl
  rw [toLines_eq] at hl
  simp only [List.mem_cons, List.mem_append, List.mem_map] at hl
  rcases hl with rfl | rfl | rfl | ⟨l, hl, rfl⟩ | ⟨x, hx, rfl⟩
  · exact ⟨by decide, by decide, by decide⟩
  · exact isKept_fieldLine _ h.description.trimmed h.description.oneLine
  · exact isKept_fieldLine _ (by decide) (by decide)
  · exact isKept_indented hl (h.marked.lines l hl)
  · have hvalue := (isValue_of_mem_fieldsBehind h x hx).1
    exact isKept_fieldLine _ hvalue.trimmed hvalue.oneLine

/-- The lines of the scenarios, each with the lines behind it. -/
def written (xs : List (Scenario × List (List Char))) : List (List Char) :=
  xs.flatMap fun (s, gap) => s.toLines ++ gap

/-- The text of scenarios is read line by line as it is written, but for the blank lines. -/
theorem exists_kept_written {ss : List (Scenario × List (List Char))}
    (h : ∀ x ∈ ss, IsWritable x.1) (hgap : ∀ x ∈ ss, ∀ l ∈ x.2, IsBlankLine l) :
    ∃ xs : List (Scenario × List (List Char)), xs.map Prod.fst = ss.map Prod.fst ∧
      (∀ x ∈ xs, ∀ l ∈ x.2, IsBlankLine l) ∧ kept (written ss) = written xs := by
  induction ss with
  | nil => exact ⟨[], rfl, by simp, rfl⟩
  | cons x ss ih =>
      obtain ⟨hx, hss⟩ := List.forall_mem_cons.1 h
      obtain ⟨hxgap, hgaps⟩ := List.forall_mem_cons.1 hgap
      obtain ⟨xs, hfst, hblank, hkept⟩ := ih hss hgaps
      obtain ⟨s, gap⟩ := x
      have hlines := isKept_of_mem_toLines hx
      have hcons : written ((s, gap) :: ss) = s.toLines ++ gap ++ written ss := rfl
      by_cases hnil : written ss = []
      · have hxs : written xs = [] := hkept.symm.trans (congrArg kept hnil)
        refine ⟨(s, kept gap) :: xs, by rw [List.map_cons, hfst, List.map_cons],
          List.forall_mem_cons.2 ⟨isBlankLine_of_mem_kept hxgap, hblank⟩, ?_⟩
        have hcons' : written ((s, kept gap) :: xs) = s.toLines ++ kept gap ++ written xs := rfl
        rw [hcons, hcons', hnil, hxs, List.append_nil, List.append_nil,
          kept_append_of_isKept hlines]
      · refine ⟨(s, gap.map chomp) :: xs, by rw [List.map_cons, hfst, List.map_cons], ?_, ?_⟩
        · refine List.forall_mem_cons.2 ⟨fun l hl => ?_, hblank⟩
          obtain ⟨l', hl', rfl⟩ := List.mem_map.1 hl
          exact isBlankLine_chomp (hxgap l' hl')
        · rw [hcons, kept_append _ hnil, List.map_append, map_chomp_eq_self hlines, hkept]
          rfl

theorem lineFeed_notMem_of_mem_written {xs : List (Scenario × List (List Char))}
    (h : ∀ x ∈ xs, IsWritable x.1) (hgap : ∀ x ∈ xs, ∀ l ∈ x.2, IsBlankLine l) :
    ∀ l ∈ written xs, '\n' ∉ l := by
  intro l hl
  obtain ⟨x, hx, hl⟩ := List.mem_flatMap.1 hl
  rcases List.mem_append.1 hl with hl | hl
  · exact (isKept_of_mem_toLines (h x hx) l hl).oneLine
  · exact (hgap x hx l hl).oneLine

theorem map_ofText_written {xs : List (Scenario × List (List Char))}
    (hgap : ∀ x ∈ xs, ∀ l ∈ x.2, IsBlankLine l) :
    (written xs).map Line.ofText = xs.flatMap readLines := by
  rw [written, List.map_flatMap]
  refine List.flatMap_congr fun x hx => ?_
  have hblank : x.2.map Line.ofText = x.2.map .other :=
    List.map_congr_left fun l hl => ofText_blank (hgap x hx l hl)
  rw [List.map_append, hblank, readLines]

/-- **Scenarios can be read back.** The text of scenarios that can be written, with any blank lines
behind each, reads as exactly these scenarios. -/
theorem read_render {ss : List (Scenario × List (List Char))} (hne : ss ≠ [])
    (h : ∀ x ∈ ss, IsWritable x.1) (hgap : ∀ x ∈ ss, ∀ l ∈ x.2, IsBlankLine l) :
    read (render ss) = .ok (ss.map Prod.fst) := by
  obtain ⟨xs, hfst, hblank, hkept⟩ := exists_kept_written h hgap
  have hwritable : ∀ x ∈ xs, IsWritable x.1 := by
    intro x hx
    have hmem : x.1 ∈ ss.map Prod.fst := hfst ▸ List.mem_map_of_mem hx
    obtain ⟨y, hy, heq⟩ := List.mem_map.1 hmem
    exact heq ▸ h y hy
  have hsome : written ss ≠ [] := by
    obtain ⟨x, ss, rfl⟩ := List.exists_cons_of_ne_nil hne
    simp [written, toLines]
  have htext : textLines (render ss).toList = written xs := by
    rw [render, String.toList_ofList]
    exact (textLines_joinLines (lineFeed_notMem_of_mem_written h hgap) hsome).trans hkept
  have hlines : (textLines (render ss).toList).map Line.ofText = xs.flatMap readLines := by
    rw [htext, map_ofText_written hblank]
  have hread : read (render ss) = do
      let ts ← ofEntries ((textLines (render ss).toList).map Line.ofText).length {}
        (entries 1 ((textLines (render ss).toList).map Line.ofText))
      if ts.isEmpty then throw .noScenario else return ts := rfl
  rw [hread, hlines, ofEntries_start _ hwritable hblank, hfst]
  exact if_neg (by simpa using hne)

/-- Colons, an empty line and a deeper line in the marked text, and blank lines between. -/
theorem read_render_pair :
    let first : Scenario :=
      ⟨"cast", "SELECT x::int,\n\n    y | FROM t", { mode := "select", tables := some [] }⟩
    let second : Scenario :=
      ⟨"two: names", "SELECT 'a:b' FROM |",
        { mode := "from", tableRef := some "e", columns := some ["A B", "|"] }⟩
    let ss := [(first, [[], [' ', '\r']]), (second, [])]
    (ss ≠ [] ∧ (∀ x ∈ ss, IsWritable x.1) ∧ ∀ x ∈ ss, ∀ l ∈ x.2, IsBlankLine l) ∧
      read (render ss) = .ok [first, second] := by
  refine ⟨⟨List.cons_ne_nil _ _, by decide, by decide⟩, ?_⟩
  exact read_render (List.cons_ne_nil _ _) (by decide) (by decide)

end Tsql.Scenario
