import Tsql.Proofs.Batch.Lines
import Tsql.Proofs.Buffer.Numbering
import Tsql.Proofs.Token.Order

/-!
The statements of a buffer in the order of its text.

Cutting the tokens at separator lines and into statements keeps their order, so each statement ends
before the next one begins (`pairwise_statements`). What is lost are the tokens on separator lines
and those that delimit statements; a name in brackets or a dot is neither and so belongs to a
statement (`exists_statement_of_isInner`).
-/

namespace Tsql

open Text Scan

/-! ### Counting lines -/

theorem countP_lt_mono (ls : List Nat) {a b : Nat} (h : a ≤ b) :
    ls.countP (· < a) ≤ ls.countP (· < b) := by
  apply List.countP_mono_left
  intro l _ hl
  simp only [decide_eq_true_eq] at hl ⊢
  omega

/-- A line between two others tells their counts apart. -/
theorem countP_lt_of_mem {ls : List Nat} {l a b : Nat} (h : l ∈ ls) (ha : a ≤ l) (hb : l < b) :
    ls.countP (· < a) < ls.countP (· < b) := by
  obtain ⟨front, back, rfl⟩ := List.append_of_mem h
  have hfront := countP_lt_mono front (Nat.le_trans ha (Nat.le_of_lt hb))
  have hback := countP_lt_mono back (Nat.le_trans ha (Nat.le_of_lt hb))
  rw [List.countP_append, List.countP_append, List.countP_cons_of_neg (by simpa using ha),
    List.countP_cons_of_pos (by simpa using hb)]
  omega

theorem exists_mem_of_countP_lt {ls : List Nat} {a b : Nat}
    (h : ls.countP (· < a) < ls.countP (· < b)) : ∃ l ∈ ls, a ≤ l ∧ l < b := by
  induction ls with
  | nil => simp at h
  | cons l ls ih =>
      by_cases hl : a ≤ l ∧ l < b
      · exact ⟨l, List.mem_cons_self, hl⟩
      · rw [List.countP_cons, List.countP_cons] at h
        have hrest : ls.countP (· < a) < ls.countP (· < b) := by
          simp only [decide_eq_true_eq] at h
          split at h
          · split at h <;> omega
          · split at h <;> omega
        obtain ⟨l', hmem, hbetween⟩ := ih hrest
        exact ⟨l', List.mem_cons_of_mem l hmem, hbetween⟩

/-! ### Splitting into statements -/

namespace Split

theorem sublist_gather (index : Nat) (mts : List (Mark × Token)) :
    List.Sublist ((gather index mts).1 ++ (gather index mts).2.flatMap Segment.tokens)
      (mts.map Prod.snd) := by
  induction mts generalizing index with
  | nil => exact List.Sublist.slnil
  | cons mt mts ih =>
      obtain ⟨mark, t⟩ := mt
      have ih := ih (index + 1)
      cases mark with
      | continues => exact ih.cons_cons t
      | opens => exact ih.cons_cons t
      | delimits => exact ((List.sublist_append_right _ _).trans ih).cons t

end Split

theorem sublist_splitStatements (ts : List Token) :
    List.Sublist ((splitStatements ts).flatMap Split.Segment.tokens) ts := by
  have hall := Split.sublist_gather 0 ((Split.marks {} ts).zip ts)
  rw [List.map_snd_zip (Nat.le_of_eq (Split.length_marks {} ts).symm)] at hall
  exact (List.sublist_append_right _ _).trans hall

/-- A name in brackets or a dot delimits nothing. -/
theorem exists_segment_of_isInner {ts : List Token} {t : Token} (h : t ∈ ts) (ht : t.IsInner) :
    ∃ s ∈ splitStatements ts, t ∈ s.tokens := by
  obtain ⟨i, hi, rfl⟩ := List.getElem_of_mem h
  have hnot : (Split.marks {} ts)[i]? ≠ some .delimits := by
    intro hmark
    have hget : ts[i]? = some ts[i] := List.getElem?_eq_getElem hi
    rcases Split.delimits_cases hmark with ⟨-, t, heq, hsep⟩ | ⟨⟨t, heq, htry⟩, -⟩
    · obtain rfl := Option.some.inj (hget.symm.trans heq)
      rcases ht with ht | ht <;> simp [Split.separates, Token.isKeyword, ht] at hsep
    · obtain rfl := Option.some.inj (hget.symm.trans heq)
      rcases ht with ht | ht <;> simp [Token.isWord, ht] at htry
  obtain ⟨g, hg, hcovers⟩ := (exists_covers_iff hi).2 hnot
  exact ⟨g, hg, mem_of_covers hg hi hcovers⟩

namespace Buffer

/-! ### Division at separator lines -/

theorem sublist_tokensBetween (ts : List Token) (ls : List Nat) :
    List.Sublist (tokensBetween ts ls).flatten ts := by
  induction ls generalizing ts with
  | nil => simp [tokensBetween]
  | cons l ls ih =>
      rw [tokensBetween, List.flatten_cons]
      have hrest := (ih ((ts.dropWhile fun t => t.start.line < l).dropWhile
        fun t => t.start.line = l)).trans (List.dropWhile_sublist _)
      have hall := (List.Sublist.refl (ts.takeWhile fun t => t.start.line < l)).append hrest
      rwa [List.takeWhile_append_dropWhile] at hall

/-- Only tokens on dividing lines are dropped. -/
theorem exists_mem_tokensBetween {ts : List Token} {ls : List Nat} {t : Token} (h : t ∈ ts)
    (hline : t.start.line ∉ ls) : ∃ us ∈ tokensBetween ts ls, t ∈ us := by
  induction ls generalizing ts with
  | nil => exact ⟨ts, List.mem_singleton_self ts, h⟩
  | cons l ls ih =>
      obtain ⟨hl, hls⟩ := not_or.1 fun h' => hline (List.mem_cons.2 h')
      rw [tokensBetween]
      rw [← List.takeWhile_append_dropWhile (p := fun t : Token => decide (t.start.line < l)) (l := ts)]
        at h
      rcases List.mem_append.1 h with h | h
      · exact ⟨_, List.mem_cons_self, h⟩
      · rw [← List.takeWhile_append_dropWhile (p := fun t : Token => decide (t.start.line = l))
          (l := ts.dropWhile _)] at h
        rcases List.mem_append.1 h with h | h
        · have hon : decide (t.start.line = l) := List.all_eq_true.1 List.all_takeWhile t h
          exact absurd (by simpa using hon) hl
        · obtain ⟨us, hus, ht⟩ := ih h hls
          exact ⟨us, List.mem_cons_of_mem _ hus, ht⟩

theorem sublist_statementTokens (source : String) :
    List.Sublist (statementTokens source).flatten (maskedTokens .origin source) := by
  have hsplit : ∀ parts : List (List Token),
      List.Sublist (parts.flatMap fun ts =>
        (splitStatements ts).map Split.Segment.tokens).flatten parts.flatten := by
    intro parts
    induction parts with
    | nil => exact List.Sublist.slnil
    | cons ts parts ih =>
        rw [List.flatMap_cons, List.flatten_append, List.flatten_cons, ← List.flatMap_def]
        exact (sublist_splitStatements ts).append ih
  exact (hsplit _).trans (sublist_tokensBetween _ _)

/-! ### Statements -/

section

variable {source : String} {database : Option String}

theorem range_of_isReadFrom {s : Statement} {ts : List Token} (h : IsReadFrom s ts) :
    s.range = Range.ofTokens ts := by
  have hparse : (Statement.parse ts).range = Range.ofTokens ts := by
    rw [Statement.parse, Statement.markedIn, Statement.build.eq_def]
    cases ts <;> rfl
  rw [h]
  show (Statement.inBatch s.batch _).range = _
  rw [Statement.inBatch]
  exact hparse

theorem startLine_of_isReadFrom {s : Statement} {ts : List Token} (h : IsReadFrom s ts)
    (hne : ts ≠ []) : s.startLine = s.range.start.line := by
  obtain ⟨t, ts, rfl⟩ := List.exists_cons_of_ne_nil hne
  rw [range_of_isReadFrom h, Range.ofTokens_cons, h]
  exact (Statement.startLine_inBatch _ _).trans (Statement.startLine_parse t ts)

/-- The tokens of the statements stand in the order of the text. -/
theorem isOrdered_statementTokens (source : String) :
    IsOrdered (statementTokens source).flatten := by
  obtain ⟨es, -, -, htokens⟩ := exists_uncommented_mask source
  have hall := Elements.isOrdered_tokensFrom .origin es
  rw [← htokens] at hall
  exact hall.sublist (sublist_statementTokens source)

theorem isOrdered_of_mem {ts : List Token} (h : ts ∈ statementTokens source) : IsOrdered ts :=
  (isOrdered_statementTokens source).sublist (List.sublist_flatten_of_mem h)

/-- A token of a statement is in its range. -/
theorem range_of_mem {s : Statement} {ts : List Token} (h : IsReadFrom s ts)
    (hts : ts ∈ statementTokens source) {t : Token} (ht : t ∈ ts) :
    s.range.start ≤ t.start ∧ t.stop ≤ s.range.stop := by
  have hordered := isOrdered_of_mem hts
  rw [range_of_isReadFrom h]
  exact ⟨hordered.start_le_of_mem ht, hordered.stop_le_of_mem ht⟩

/-- Number of separator lines of a text before a line. -/
def separatorsBefore (source : String) (line : Nat) : Nat :=
  (Batch.separators (mask source.toList)).countP (· < line)

/-- Neither end of a token of a batch is behind another number of separators. -/
theorem separatorsBefore_of_mem_batch {ts : List Token} {number : Nat}
    (h : (ts, number) ∈ (batchTokens source).zipIdx) {t : Token} (ht : t ∈ ts) :
    separatorsBefore source t.start.line = number ∧
      separatorsBefore source (t.stop.line + 1) = number := by
  obtain ⟨es, hes, hmask, htokens⟩ := exists_uncommented_mask source
  rw [batchTokens, htokens] at h
  have hascending : (Batch.separators (mask source.toList)).Pairwise (· < ·) :=
    Batch.pairwise_separatorsFrom _ _
  obtain ⟨hmem, hnot, hcount⟩ := countP_of_mem_tokensBetween
    (Elements.pairwise_line_tokensFrom _ _) hascending h t ht
  have hstart : separatorsBefore source t.start.line = number := hcount
  refine ⟨hstart, ?_⟩
  -- otherwise there would be a separator between both ends
  rw [← hstart]
  have hlines := (Elements.line_of_mem_tokensFrom hmem).2.1
  refine Nat.le_antisymm ?_ (countP_lt_mono _ (by omega))
  refine Nat.not_lt.1 fun hlt => ?_
  obtain ⟨l, hl, hlow, hhigh⟩ := exists_mem_of_countP_lt hlt
  rw [Batch.separators, hmask] at hl hnot
  exact Batch.notMem_separatorsFrom hes hmem hnot l hl ⟨hlow, by omega⟩

/-- What is known of a statement of a buffer and its tokens. -/
structure Reads (source : String) (s : Statement) (ts : List Token) : Prop where
  mem : ts ∈ statementTokens source
  ne_nil : ts ≠ []
  isReadFrom : IsReadFrom s ts
  start_number : ∀ t ∈ ts, separatorsBefore source t.start.line = s.batch
  stop_number : ∀ t ∈ ts, separatorsBefore source (t.stop.line + 1) = s.batch

theorem exists_reads {i : Nat} {s : Statement}
    (h : (parse source database).statements[i]? = some s) :
    ∃ ts, (statementTokens source)[i]? = some ts ∧ Reads source s ts := by
  obtain ⟨ts, us, hts, hus, hne, hsub, hread⟩ := exists_of_getElem?_parse h
  have hnumber := fun t (ht : t ∈ us) => separatorsBefore_of_mem_batch hts (hsub ht)
  exact ⟨us, hus, List.mem_of_getElem? hus, hne, hread, fun t ht => (hnumber t ht).1,
    fun t ht => (hnumber t ht).2⟩

theorem length_withDatabases (database : Option String) (ss : List Statement) :
    (withDatabases database ss).length = ss.length := by
  induction ss generalizing database with
  | nil => rfl
  | cons s ss ih =>
      rw [withDatabases]
      split
      · rw [List.length_cons, List.length_cons, ih]
      · rw [List.length_cons, List.length_cons, ih]

theorem length_statements (source : String) (database : Option String) :
    (parse source database).statements.length = (statementTokens source).length := by
  rw [statements_parse, length_withDatabases, List.length_map, statementTokens_eq, List.length_map]

/-- All tokens that form a statement are read as one. -/
theorem exists_reads_of_mem {ts : List Token} (h : ts ∈ statementTokens source)
    (database : Option String) :
    ∃ s ∈ (parse source database).statements, Reads source s ts := by
  obtain ⟨i, hi, rfl⟩ := List.getElem_of_mem h
  have hlen : i < (parse source database).statements.length := by rwa [length_statements]
  obtain ⟨ts, hts, hreads⟩ := exists_reads (List.getElem?_eq_getElem hlen)
  rw [List.getElem?_eq_getElem hi] at hts
  obtain rfl := Option.some.inj hts
  exact ⟨_, List.getElem_mem hlen, hreads⟩

/-- The last statement is read off the last tokens that form one. -/
theorem exists_reads_of_concat {front : List (List Token)} {us : List Token}
    (h : statementTokens source = front ++ [us]) (database : Option String) :
    ∃ ss s, (parse source database).statements = ss ++ [s] ∧ ss.length = front.length ∧
      Reads source s us := by
  have hlength := length_statements source database
  rw [h, List.length_append, List.length_singleton] at hlength
  rcases List.eq_nil_or_concat (parse source database).statements with hnil | ⟨ss, s, hss⟩
  · rw [hnil, List.length_nil] at hlength
    omega
  rw [List.concat_eq_append] at hss
  rw [hss, List.length_append, List.length_singleton] at hlength
  have hfront : ss.length = front.length := by omega
  have hlast : (parse source database).statements[ss.length]? = some s := by
    rw [hss, List.getElem?_append_right (Nat.le_refl _), Nat.sub_self]
    rfl
  obtain ⟨us', hus', hreads⟩ := exists_reads hlast
  rw [h, hfront, List.getElem?_append_right (Nat.le_refl _), Nat.sub_self] at hus'
  obtain rfl := Option.some.inj hus'
  exact ⟨ss, s, hss, hfront, hreads⟩

theorem range_lt {s : Statement} (h : s ∈ (parse source database).statements) :
    s.range.start < s.range.stop := by
  obtain ⟨i, hi⟩ := List.getElem?_of_mem h
  obtain ⟨ts, -, hts⟩ := exists_reads hi
  rw [range_of_isReadFrom hts.isReadFrom]
  exact (isOrdered_of_mem hts.mem).start_lt_stop_ofTokens hts.ne_nil

theorem startLine_eq {s : Statement} (h : s ∈ (parse source database).statements) :
    s.startLine = s.range.start.line := by
  obtain ⟨i, hi⟩ := List.getElem?_of_mem h
  obtain ⟨ts, -, hts⟩ := exists_reads hi
  exact startLine_of_isReadFrom hts.isReadFrom hts.ne_nil

theorem batch_eq {s : Statement} (h : s ∈ (parse source database).statements) :
    separatorsBefore source s.startLine = s.batch ∧
      separatorsBefore source (s.range.stop.line + 1) = s.batch := by
  obtain ⟨i, hi⟩ := List.getElem?_of_mem h
  obtain ⟨ts, -, hts⟩ := exists_reads hi
  rw [startLine_of_isReadFrom hts.isReadFrom hts.ne_nil]
  obtain ⟨t, rest, rfl⟩ := List.exists_cons_of_ne_nil hts.ne_nil
  rw [range_of_isReadFrom hts.isReadFrom, Range.ofTokens_cons]
  exact ⟨hts.start_number t List.mem_cons_self, hts.stop_number _ (List.getLast_mem _)⟩

/-- A name in brackets or a dot belongs to a statement. -/
theorem exists_statement_of_isInner {t : Token} (h : t ∈ maskedTokens .origin source)
    (ht : t.IsInner) (database : Option String) :
    ∃ s ∈ (parse source database).statements, s.range.start ≤ t.start ∧
      separatorsBefore source (t.stop.line + 1) = s.batch := by
  obtain ⟨es, hes, hmask, htokens⟩ := exists_uncommented_mask source
  have hnot : t.start.line ∉ Batch.separators (mask source.toList) := by
    rw [htokens] at h
    rw [Batch.separators, hmask]
    exact Batch.notMem_separators_of_isInner hes h ht
  obtain ⟨us, hus, hmem⟩ := exists_mem_tokensBetween h hnot
  obtain ⟨g, hg, hmem⟩ := exists_segment_of_isInner hmem ht
  have htokens : g.tokens ∈ statementTokens source :=
    List.mem_flatMap.2 ⟨us, hus, List.mem_map.2 ⟨g, hg, rfl⟩⟩
  obtain ⟨s, hs, hreads⟩ := exists_reads_of_mem htokens database
  exact ⟨s, hs, (range_of_mem hreads.isReadFrom hreads.mem hmem).1, hreads.stop_number t hmem⟩

/-- Each statement of a buffer ends before the next one begins. -/
theorem pairwise_statements (source : String) (database : Option String) :
    (parse source database).statements.Pairwise fun s t => s.range.stop ≤ t.range.start := by
  rw [List.pairwise_iff_getElem]
  intro i j hi hj hij
  obtain ⟨ss, hss, hs⟩ := exists_reads (List.getElem?_eq_getElem hi)
  obtain ⟨ts, hts, ht⟩ := exists_reads (List.getElem?_eq_getElem hj)
  have hne : ∀ ts ∈ statementTokens source, ts ≠ [] := fun ts hts => by
    obtain ⟨s, -, hreads⟩ := exists_reads_of_mem hts database
    exact hreads.ne_nil
  have hspans := (isOrdered_statementTokens source).pairwise_spans (List.Sublist.refl _) hne
  obtain ⟨hi', rfl⟩ := List.getElem?_eq_some_iff.1 hss
  obtain ⟨hj', rfl⟩ := List.getElem?_eq_some_iff.1 hts
  rw [range_of_isReadFrom hs.isReadFrom, range_of_isReadFrom ht.isReadFrom]
  exact List.pairwise_iff_getElem.1 hspans i j hi' hj' hij

/-- The lines and the batches of the statements ascend. -/
theorem pairwise_batch (source : String) (database : Option String) :
    (parse source database).statements.Pairwise fun s t =>
      s.startLine ≤ t.startLine ∧ s.batch ≤ t.batch := by
  refine (pairwise_statements source database).imp_of_mem fun {s t} hs ht hle => ?_
  have hline : s.startLine ≤ t.startLine := by
    have hstart := Position.lt_of_lt_of_le (range_lt hs) hle
    rw [Position.lt_def] at hstart
    rw [startLine_eq hs, startLine_eq ht]
    omega
  refine ⟨hline, ?_⟩
  rw [← (batch_eq hs).1, ← (batch_eq ht).1]
  exact countP_lt_mono _ hline

end

end Buffer

end Tsql
