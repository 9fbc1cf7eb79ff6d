import Tsql.Proofs.Buffer.Order
import Tsql.Proofs.Completion.Cursor
import Tsql.Proofs.TempTable.Registry

/-!
The batch of the local temporary tables that are offered at a cursor.

Inside a statement the cursor is in the batch of that statement (`batch_of_statement?`): a separator
line between the two would have ended it, or the cursor would be in a later one. Between statements
the batch is that of the last statement that starts before the cursor (`batchBetween_eq`), so the
separators behind that statement do not count.
-/

namespace Tsql

open Text Scan

/-! ### The last element with a property -/

theorem find?_reverse_of_last {α : Type} {p : α → Bool} (front : List α) {a : α} {back : List α}
    (ha : p a) (hback : ∀ x ∈ back, p x = false) :
    (front ++ a :: back).reverse.find? p = some a := by
  have hnone : back.reverse.find? p = none := by
    rw [List.find?_eq_none]
    intro x hx
    rw [hback x (List.mem_reverse.1 hx)]
    exact Bool.false_ne_true
  rw [List.reverse_append, List.reverse_cons, List.append_assoc, List.find?_append, hnone]
  simp [ha]

theorem exists_of_find?_reverse {α : Type} {p : α → Bool} {xs : List α} {a : α}
    (h : xs.reverse.find? p = some a) :
    ∃ front back, xs = front ++ a :: back ∧ p a ∧ ∀ x ∈ back, p x = false := by
  obtain ⟨ha, as, bs, heq, has⟩ := List.find?_eq_some_iff_append.1 h
  refine ⟨bs.reverse, as.reverse, ?_, ha, fun x hx => ?_⟩
  · rw [← List.reverse_reverse xs, heq]
    simp
  · simpa using has x (List.mem_reverse.1 hx)

namespace Buffer

variable {source : String} {database : Option String}

/-- The statements around one of them. -/
theorem order_of_split {front back : List Statement} {s : Statement}
    (h : (parse source database).statements = front ++ s :: back) :
    (∀ x ∈ front, x.range.stop ≤ s.range.start ∧ x.startLine ≤ s.startLine ∧ x.batch ≤ s.batch) ∧
      ∀ x ∈ back, s.range.stop ≤ x.range.start ∧ s.batch ≤ x.batch := by
  have hrange := pairwise_statements source database
  have hbatch := pairwise_batch source database
  rw [h] at hrange hbatch
  obtain ⟨-, hrest, hfront⟩ := List.pairwise_append.1 hrange
  obtain ⟨-, hrest', hfront'⟩ := List.pairwise_append.1 hbatch
  refine ⟨fun x hx => ?_, fun x hx => ?_⟩
  · exact ⟨hfront x hx s List.mem_cons_self, hfront' x hx s List.mem_cons_self⟩
  · exact ⟨(List.pairwise_cons.1 hrest).1 x hx, ((List.pairwise_cons.1 hrest').1 x hx).2⟩

/-- The last statement with a property is behind every other one that has it. -/
theorem le_of_last {p : Statement → Prop} {front back : List Statement} {r s : Statement}
    (h : (parse source database).statements = front ++ r :: back) (hback : ∀ x ∈ back, ¬ p x)
    (hs : s ∈ (parse source database).statements) (hp : p s) :
    s.startLine ≤ r.startLine ∧ s.batch ≤ r.batch := by
  rw [h, List.mem_append, List.mem_cons] at hs
  rcases hs with hs | rfl | hs
  · exact ((order_of_split h).1 s hs).2
  · exact ⟨Nat.le_refl _, Nat.le_refl _⟩
  · exact absurd hp (hback s hs)

/-- There is no statement of a batch between those of two that follow each other. -/
theorem batch_le_or_le {front back : List Statement} {q r s : Statement}
    (h : (parse source database).statements = front ++ q :: r :: back)
    (hs : s ∈ (parse source database).statements) : s.batch ≤ q.batch ∨ r.batch ≤ s.batch := by
  have hsplit : (parse source database).statements = (front ++ [q]) ++ r :: back := by
    rw [h, List.append_assoc, List.singleton_append]
  rw [h, List.mem_append, List.mem_cons, List.mem_cons] at hs
  rcases hs with hs | rfl | rfl | hs
  · exact .inl ((order_of_split h).1 s hs).2.2
  · exact .inl (Nat.le_refl _)
  · exact .inr (Nat.le_refl _)
  · exact .inr ((order_of_split hsplit).2 s hs).2

/-- There is no separator between two lines with equally many in front of them. -/
theorem le_of_separatorsBefore_eq {l a b : Nat} (hl : l ∈ Batch.separators (mask source.toList))
    (hle : a ≤ l) (h : separatorsBefore source a = separatorsBefore source b) : b ≤ l := by
  refine Nat.not_lt.1 fun hlt => ?_
  have hmore : separatorsBefore source a < separatorsBefore source b := countP_lt_of_mem hl hle hlt
  omega

end Buffer

/-! ### Inside a statement -/

namespace CursorSite

/-- The token of a separator line between a place and the word has been typed behind that place. -/
theorem any_before_of_separator {source : String} {p a : Position} {l : Nat}
    (hl : l ∈ Batch.separators (mask source.toList)) (hlow : a.line < l)
    (hhigh : l < (Cursor.positionAt source.toList (ofCursor source.toList p).word.start).line) :
    ((ofCursor source.toList p).before.any fun t => a ≤ t.start) = true := by
  obtain ⟨es, hes, hmask, htokens⟩ := Buffer.exists_uncommented_mask source
  rw [Batch.separators, hmask] at hl
  obtain ⟨t, ht, htstart, htstop⟩ := Batch.exists_token_of_separator (p := .origin) hes hl
  rw [← htokens] at ht
  rw [List.any_eq_true, before_ofCursor]
  refine ⟨t, List.mem_filter.2 ⟨ht, ?_⟩, ?_⟩
  · rw [decide_eq_true_eq, Position.le_def]
    omega
  · rw [decide_eq_true_eq, Position.le_def]
    omega

/-- A cursor that continues a statement is in its batch. -/
theorem batch_of_statement? {source : String} {p : Position} {database : Option String}
    {s : Statement} (hactive : (ofCursor source.toList p).isInert = false)
    (h : (ofCursor source.toList p).statement? (Buffer.parse source database) = some s) :
    Buffer.separatorsBefore source (ofCursor source.toList p).position.line = s.batch := by
  obtain ⟨hlast, hcontinues⟩ := Option.filter_eq_some_iff.1 h
  obtain ⟨front, back, hss, hstart, hback⟩ := exists_of_find?_reverse hlast
  have hmem : s ∈ (Buffer.parse source database).statements := by simp [hss]
  obtain ⟨hnumber, hstop⟩ := Buffer.batch_eq hmem
  have hstart : s.range.start < (ofCursor source.toList p).position := by simpa using hstart
  have hline : s.startLine ≤ (ofCursor source.toList p).position.line := by
    rw [Buffer.startLine_eq hmem]
    rw [Position.lt_def] at hstart
    omega
  -- suppose there is a separator between the statement and the cursor
  refine Nat.le_antisymm (Nat.not_lt.1 fun hlt => ?_) (hnumber ▸ countP_lt_mono _ hline)
  rw [← hnumber] at hlt
  obtain ⟨l, hl, hlow, hhigh⟩ := exists_mem_of_countP_lt hlt
  rcases exists_token hactive with hword | ⟨u, hu, hinner, hbefore, hreach⟩
  · -- then the token on that line has ended the statement
    have hbehind := Buffer.le_of_separatorsBefore_eq hl hlow (hnumber.trans hstop.symm)
    have hended := any_before_of_separator (p := p) (a := s.range.stop) hl hbehind (by omega)
    rw [hended, Bool.or_true] at hcontinues
    exact absurd hcontinues Bool.false_ne_true
  · -- then the token in front of the cursor belongs to a later statement
    obtain ⟨s', hs', hstart', hnumber'⟩ := Buffer.exists_statement_of_isInner hu hinner database
    have hlater : l < s'.startLine := by
      refine Nat.not_le.1 fun hle => ?_
      have hbehind := Buffer.le_of_separatorsBefore_eq hl hle
        ((Buffer.batch_eq hs').1.trans hnumber'.symm)
      omega
    have hle := (Buffer.le_of_last hss (fun x hx => of_decide_eq_false (hback x hx)) hs'
      (Position.lt_of_le_of_lt hstart' hbefore)).1
    omega

end CursorSite

/-! ### Between statements -/

namespace Detector

/-- The batch that a cursor between statements is taken to be in. -/
def batchBetween (b : Buffer) (cursor : Position) : Nat :=
  match b.statements.reverse.find? fun s => s.range.stop ≤ cursor with
  | none => 0
  | some s =>
    if b.statements.any fun n => s.batch < n.batch && n.range.start ≤ cursor then s.batch + 1
    else s.batch

section

variable {source : String} {database : Option String} {cursor : Position}

theorem batchBetween_of_forall {b : Buffer}
    (h : ∀ s ∈ b.statements, ¬ s.range.stop ≤ cursor) : batchBetween b cursor = 0 := by
  have hnone : b.statements.reverse.find? (fun s => s.range.stop ≤ cursor) = none := by
    rw [List.find?_eq_none]
    intro s hs
    simpa using h s (List.mem_reverse.1 hs)
  rw [batchBetween, hnone]

theorem batchBetween_of_last {b : Buffer} {front back : List Statement} {s : Statement}
    (h : b.statements = front ++ s :: back) (hs : s.range.stop ≤ cursor)
    (hback : ∀ x ∈ back, ¬ x.range.stop ≤ cursor) :
    batchBetween b cursor =
      if b.statements.any fun n => s.batch < n.batch && n.range.start ≤ cursor then s.batch + 1
      else s.batch := by
  have hlast : b.statements.reverse.find? (fun s => s.range.stop ≤ cursor) = some s := by
    rw [h]
    exact find?_reverse_of_last front (by simpa using hs) fun x hx => by simpa using hback x hx
  rw [batchBetween, hlast]

section

variable {front back : List Statement} {r : Statement}
    (h : (Buffer.parse source database).statements = front ++ r :: back)
    (hr : r.range.start ≤ cursor) (hback : ∀ x ∈ back, ¬ x.range.start ≤ cursor)

include h hback

theorem not_stop_le : ∀ x ∈ back, ¬ x.range.stop ≤ cursor := by
  intro x hx hstop
  have hmem : x ∈ (Buffer.parse source database).statements := by simp [h, hx]
  exact hback x hx (Position.le_trans (Position.le_of_lt (Buffer.range_lt hmem)) hstop)

include hr

/-- Whether a statement of a later batch starts before the cursor is read off the last one that
does. -/
theorem any_later_iff (k : Nat) :
    ((Buffer.parse source database).statements.any fun n =>
      k < n.batch && n.range.start ≤ cursor) = true ↔ k < r.batch := by
  rw [List.any_eq_true]
  constructor
  · rintro ⟨n, hn, hlater⟩
    rw [Bool.and_eq_true, decide_eq_true_eq, decide_eq_true_eq] at hlater
    have hle := (Buffer.le_of_last h hback hn hlater.2).2
    omega
  · intro hlater
    exact ⟨r, by simp [h], by simp [hlater, hr]⟩

/-- Behind the last statement that starts before the cursor. -/
theorem batchBetween_of_stop_le (hstop : r.range.stop ≤ cursor) :
    batchBetween (Buffer.parse source database) cursor = r.batch := by
  rw [batchBetween_of_last h hstop (not_stop_le h hback),
    if_neg (mt (any_later_iff h hr hback _).1 (Nat.lt_irrefl _))]

/-- The batch is that of the last statement that starts before the cursor, if it is one in which
there are statements at all. -/
theorem batchBetween_eq (hinhabited : ∃ s ∈ (Buffer.parse source database).statements,
      batchBetween (Buffer.parse source database) cursor = s.batch) :
    batchBetween (Buffer.parse source database) cursor = r.batch := by
  by_cases hstop : r.range.stop ≤ cursor
  · exact batchBetween_of_stop_le h hr hback hstop
  obtain ⟨s, hs, hbatch⟩ := hinhabited
  have hstops : ∀ x ∈ r :: back, ¬ x.range.stop ≤ cursor :=
    List.forall_mem_cons.2 ⟨hstop, not_stop_le h hback⟩
  rcases List.eq_nil_or_concat front with rfl | ⟨front', q, rfl⟩
  · -- the cursor is in the first statement
    have hzero : batchBetween (Buffer.parse source database) cursor = 0 :=
      batchBetween_of_forall (by rwa [h])
    have hle : r.batch ≤ s.batch := by
      rw [h, List.nil_append, List.mem_cons] at hs
      rcases hs with rfl | hs
      · exact Nat.le_refl _
      · exact ((Buffer.order_of_split h).2 s hs).2
    omega
  · -- the statement in front of that of the cursor, and no other one between the two
    have hsplit : (Buffer.parse source database).statements = front' ++ q :: r :: back := by
      rw [h, List.concat_eq_append, List.append_assoc, List.singleton_append]
    have hq := (Buffer.order_of_split h).1 q (by simp)
    have hlast := batchBetween_of_last hsplit (Position.le_trans hq.1 hr) hstops
    have hgap := Buffer.batch_le_or_le hsplit hs
    by_cases hlater : q.batch < r.batch
    · rw [if_pos ((any_later_iff h hr hback _).2 hlater)] at hlast
      omega
    · rw [if_neg (mt (any_later_iff h hr hback _).1 hlater)] at hlast
      omega

/-- The cursor is past no separator behind the last statement that starts before it. -/
theorem separatorsBefore_of_last :
    Buffer.separatorsBefore source cursor.line = r.batch ↔
      ∀ line ∈ Batch.separators (mask source.toList), line < cursor.line →
        ∃ s ∈ (Buffer.parse source database).statements,
          s.range.start ≤ cursor ∧ line < s.startLine := by
  have hmem : r ∈ (Buffer.parse source database).statements := by simp [h]
  have hline : r.startLine ≤ cursor.line := by
    rw [Buffer.startLine_eq hmem]
    rw [Position.le_def] at hr
    omega
  rw [← (Buffer.batch_eq hmem).1]
  constructor
  · intro heq l hl hlt
    refine ⟨r, hmem, hr, Nat.not_le.1 fun hle => ?_⟩
    have hbehind := Buffer.le_of_separatorsBefore_eq hl hle heq.symm
    omega
  · intro hall
    refine Nat.le_antisymm (Nat.not_lt.1 fun hlt => ?_) (countP_lt_mono _ hline)
    obtain ⟨l, hl, hlow, hhigh⟩ := exists_mem_of_countP_lt hlt
    obtain ⟨s, hs, hstart, hlater⟩ := hall l hl hhigh
    have hle := (Buffer.le_of_last h hback hs hstart).1
    omega

end

/-- Where a batch that has statements is taken for that of the cursor, it is the right one just if
a statement has been typed behind each separator before the cursor. -/
theorem batchBetween_eq_iff (hinhabited : ∃ s ∈ (Buffer.parse source database).statements,
      batchBetween (Buffer.parse source database) cursor = s.batch) :
    batchBetween (Buffer.parse source database) cursor =
        Buffer.separatorsBefore source cursor.line ↔
      ∀ line ∈ Batch.separators (mask source.toList), line < cursor.line →
        ∃ s ∈ (Buffer.parse source database).statements,
          s.range.start ≤ cursor ∧ line < s.startLine := by
  cases hlast : (Buffer.parse source database).statements.reverse.find? fun s =>
      s.range.start ≤ cursor with
  | some r =>
      obtain ⟨front, back, hsplit, hr, hback⟩ := exists_of_find?_reverse hlast
      have hr : r.range.start ≤ cursor := by simpa using hr
      have hback : ∀ x ∈ back, ¬ x.range.start ≤ cursor := fun x hx => by simpa using hback x hx
      rw [batchBetween_eq hsplit hr hback hinhabited, eq_comm]
      exact separatorsBefore_of_last hsplit hr hback
  | none =>
      -- no statement starts before the cursor
      have hnone : ∀ s ∈ (Buffer.parse source database).statements, ¬ s.range.start ≤ cursor := by
        intro s hs
        simpa using List.find?_eq_none.1 hlast s (List.mem_reverse.2 hs)
      have hzero := batchBetween_of_forall fun s hs hstop =>
        hnone s hs (Position.le_trans (Position.le_of_lt (Buffer.range_lt hs)) hstop)
      rw [hzero]
      constructor
      · intro heq l hl hlt
        have hpos := List.countP_pos_iff (p := fun line => decide (line < cursor.line)).2
          ⟨l, hl, by simpa using hlt⟩
        rw [Buffer.separatorsBefore] at heq
        omega
      · intro hall
        rw [eq_comm, Buffer.separatorsBefore, List.countP_eq_zero]
        intro l hl hlt
        obtain ⟨s, hs, hstart, -⟩ := hall l hl (by simpa using hlt)
        exact hnone s hs hstart

end

/-! ### What a context offers -/

theorem statement_insideStatement (d : Detector) (temps : TempRegistry) (c : CursorSite)
    (s : Statement) : (d.insideStatement temps c s).statement = some s := by
  rw [insideStatement]
  split <;> rfl

theorem mem_visibleAt_of_insideStatement {d : Detector} {temps : TempRegistry} {c : CursorSite}
    {s : Statement} {t : TempTable} (h : t ∈ (d.insideStatement temps c s).temps) :
    t ∈ temps.visibleAt ⟨s.batch, c.position.line⟩ := by
  rw [insideStatement] at h
  split at h
  · exact absurd h List.not_mem_nil
  · exact h

theorem statement_detectIn (d : Detector) (source : String) (b : Buffer) (temps : TempRegistry)
    (p : Position) :
    (d.detectIn source b temps p).statement =
      if (CursorSite.ofCursor source.toList p).isInert then none
      else (CursorSite.ofCursor source.toList p).statement? b := by
  rw [detectIn]
  split
  · rfl
  · cases (CursorSite.ofCursor source.toList p).statement? b with
    | none => rfl
    | some s => exact statement_insideStatement d temps _ s

/-- Where the temporary tables of a context come from. -/
theorem mem_visibleAt_of_detectIn {d : Detector} {source : String} {b : Buffer}
    {temps : TempRegistry} {p : Position} {t : TempTable}
    (h : t ∈ (d.detectIn source b temps p).temps) :
    (CursorSite.ofCursor source.toList p).isInert = false ∧
      t ∈ temps.visibleAt ⟨((CursorSite.ofCursor source.toList p).statement? b).elim
          (batchBetween b (CursorSite.ofCursor source.toList p).position) Statement.batch,
        (CursorSite.ofCursor source.toList p).position.line⟩ := by
  rw [detectIn] at h
  split at h
  · exact absurd h List.not_mem_nil
  · next hinert =>
    refine ⟨by simpa using hinert, ?_⟩
    cases hs : (CursorSite.ofCursor source.toList p).statement? b with
    | none =>
        rw [hs] at h
        exact h
    | some s =>
        rw [hs] at h
        exact mem_visibleAt_of_insideStatement h

/-- A local temporary table that is offered inside a statement was created in the batch of the
cursor. One that is offered between statements was created in that batch just if a statement has
been typed behind each separator line before the cursor. -/
theorem batch_of_mem_temps (d : Detector) (source : String) (p : Position) (t : TempTable)
    (h : t ∈ (d.detect source p).temps) (hlocal : t.kind = .batchLocal) :
    let cursor := (CursorSite.ofCursor source.toList p).position
    let separators := Batch.separators (maskComments source).toList
    ((d.detect source p).statement.isSome →
        t.batch = separators.countP (· < cursor.line)) ∧
      ((d.detect source p).statement = none →
        (t.batch = separators.countP (· < cursor.line) ↔
          ∀ line ∈ separators, line < cursor.line →
            ∃ s ∈ (d.read source).statements, s.range.start ≤ cursor ∧ line < s.startLine)) := by
  have hseparators : (maskComments source).toList = mask source.toList := by
    rw [maskComments, String.toList_ofList]
  rw [hseparators]
  have hstatement := statement_detectIn d source (d.read source)
    (.ofStatements d.resolver (d.read source).statements) p
  rw [detect, read] at h
  obtain ⟨hactive, hvisible⟩ := mem_visibleAt_of_detectIn h
  have hbatch := TempRegistry.batch_of_mem_visibleAt hvisible hlocal
  obtain ⟨s, hmem, hcreated⟩ := TempRegistry.batch_of_mem_tables
    (TempRegistry.mem_tables_of_mem_visibleAt hvisible)
  have hinside := fun s => @CursorSite.batch_of_statement? source p
    d.resolver.connection.database s hactive
  rw [hactive, if_neg Bool.false_ne_true] at hstatement
  rw [detect, hstatement]
  unfold read
  clear h hactive hvisible hstatement
  generalize CursorSite.ofCursor source.toList p = c at hbatch hinside ⊢
  cases hs : c.statement? (.parse source d.resolver.connection.database) with
  | some s =>
      rw [hs] at hbatch
      refine ⟨fun _ => ?_, fun hnone => absurd hnone (Option.some_ne_none s)⟩
      rw [hbatch]
      exact (hinside s hs).symm
  | none =>
      rw [hs, Option.elim_none] at hbatch
      dsimp only at hbatch
      refine ⟨fun hsome => absurd hsome Bool.false_ne_true, fun _ => ?_⟩
      rw [hbatch] at hcreated ⊢
      exact batchBetween_eq_iff ⟨s, hmem, hcreated⟩

/-- At the start of the line behind the separator. -/
theorem batch_of_mem_temps_behind_separator :
    let d : Detector := { resolver := { source := some (Catalog.source {}), maxDepth := 32 },
                          functions := ⟨[]⟩ }
    let source := "CREATE TABLE #t (id int)\nGO\n"
    let p : Position := ⟨3, 1⟩
    let cursor := (CursorSite.ofCursor source.toList p).position
    let separators := Batch.separators (maskComments source).toList
    ∃ t ∈ (d.detect source p).temps, t.kind = .batchLocal ∧
      ((d.detect source p).statement.isSome →
          t.batch = separators.countP (· < cursor.line)) ∧
        ((d.detect source p).statement = none →
          (t.batch = separators.countP (· < cursor.line) ↔
            ∀ line ∈ separators, line < cursor.line →
              ∃ s ∈ (d.read source).statements, s.range.start ≤ cursor ∧ line < s.startLine)) := by
  intro d source p cursor separators
  have hany : ((d.detect source p).temps.any fun t => t.kind = .batchLocal) = true := by
    decide +kernel
  obtain ⟨t, ht, hkind⟩ := List.any_eq_true.1 hany
  have hlocal : t.kind = .batchLocal := by simpa using hkind
  exact ⟨t, ht, hlocal, batch_of_mem_temps d source p t ht hlocal⟩

/-- Behind a separator with no statement behind it yet, a table of the batch in front is offered. -/
theorem temps_behind_separator :
    let d : Detector := { resolver := { source := some (Catalog.source {}), maxDepth := 32 },
                          functions := ⟨[]⟩ }
    let source := "CREATE TABLE #t (id int)\nGO\n"
    let p : Position := ⟨3, 1⟩
    ∃ t ∈ (d.detect source p).temps, t.kind = .batchLocal ∧
      t.batch ≠ (Batch.separators (maskComments source).toList).countP
        (· < (CursorSite.ofCursor source.toList p).position.line) := by
  intro d source p
  have hany : ((d.detect source p).temps.any fun t =>
      t.kind = .batchLocal && t.batch != (Batch.separators (maskComments source).toList).countP
        (· < (CursorSite.ofCursor source.toList p).position.line)) = true := by
    decide +kernel
  obtain ⟨t, ht, hkind⟩ := List.any_eq_true.1 hany
  rw [Bool.and_eq_true, decide_eq_true_eq, bne_iff_ne] at hkind
  exact ⟨t, ht, hkind⟩

end Detector

end Tsql
