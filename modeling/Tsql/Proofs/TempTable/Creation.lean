import Tsql.Proofs.Buffer.Order
import Tsql.Proofs.Statement.Dropped
import Tsql.TempTable.Registry

/-!
Where the statements of a buffer create their temporary tables.

A table is created on the line of its name, which is a line of the statement that names it
(`exists_mem_of_tempTable`). The statements of a buffer ascend in lines and batches, so a table is
created neither before its own statement begins (`place_le_of_tempTable`) nor behind the place of a
later one (`pairwise_place`).
-/

namespace Tsql

/-! ### Places -/

namespace Place

instance : LT Place :=
  ⟨fun p q => p.batch < q.batch ∨ p.batch = q.batch ∧ p.line < q.line⟩

theorem lt_def {p q : Place} :
    p < q ↔ p.batch < q.batch ∨ p.batch = q.batch ∧ p.line < q.line :=
  Iff.rfl

instance (p q : Place) : Decidable (p < q) :=
  inferInstanceAs (Decidable (p.batch < q.batch ∨ p.batch = q.batch ∧ p.line < q.line))

variable {p q r : Place}

theorem le_of_lt (h : p < q) : p ≤ q := by
  rw [lt_def] at h
  rw [le_def]
  omega

theorem lt_of_lt_of_le (h₁ : p < q) (h₂ : q ≤ r) : p < r := by
  rw [lt_def] at *
  rw [le_def] at h₂
  omega

theorem lt_of_le_of_lt (h₁ : p ≤ q) (h₂ : q < r) : p < r := by
  rw [lt_def] at *
  rw [le_def] at h₁
  omega

theorem le_trans (h₁ : p ≤ q) (h₂ : q ≤ r) : p ≤ r := by
  rw [le_def] at *
  omega

theorem not_le : ¬ p ≤ q ↔ q < p := by
  rw [lt_def, le_def]
  omega

theorem not_lt : ¬ p < q ↔ q ≤ p := by
  rw [lt_def, le_def]
  omega

end Place

/-! ### The name of a table -/

/-- A table name begins where its first token does. -/
theorem exists_mem_of_tableName {ts : List Token} {table : TableRef}
    (h : (tableName ts).1 = some table) : ∃ u ∈ ts, table.range.start = u.start := by
  unfold tableName at h
  split at h
  · contradiction
  · next t ts =>
    split at h
    · obtain ⟨parts, -, rfl⟩ := Option.map_eq_some_iff.1 h
      have hlength : (t :: ts).length - (nameTail ts).2.length =
          ts.length - (nameTail ts).2.length + 1 := by
        have := length_nameTail_le ts
        rw [List.length_cons]
        omega
      refine ⟨t, List.mem_cons_self, ?_⟩
      rw [TableRef.range_ofParts, Range.taken, hlength, List.take_succ_cons, Range.ofTokens_cons]
    · contradiction

/-! ### The table of a statement -/

/-- The table of `SELECT INTO` is named in a region and has the columns of the result. -/
theorem Region.exists_of_selectedInto {columns : List ColumnRef} {rs : List Region}
    {t : TempTable} (h : selectedInto columns rs = some t) :
    ∃ r ∈ rs, ∃ table, (tableName r.tail).1 = some table ∧
      t.line = table.range.start.line ∧ t.columns = columns := by
  obtain ⟨r, hr, ht⟩ := List.mem_filterMap.1 (List.mem_of_getLast? h)
  split at ht
  · obtain ⟨table, hname, ht⟩ := Option.bind_eq_some_iff.1 ht
    obtain ⟨kind, -, ht⟩ := Option.bind_eq_some_iff.1 ht
    obtain rfl := Option.some.inj ht
    exact ⟨r, hr, table, hname, rfl, rfl⟩
  · contradiction

/-- The table of a `CREATE TABLE` is named in the statement and has the columns of the group behind
the name. -/
theorem ObjectHead.exists_of_tempTable {kind : StatementKind} {body : List Token}
    {t : TempTable} (h : (ofBody kind body).tempTable = some t) :
    ∃ ts table opening definitions, ts <:+ body ∧
      tableName ts = (some table, opening :: definitions) ∧
      t.line = table.range.start.line ∧
      t.columns = columnDefinitions (Group.after definitions).inner := by
  cases kind with
  | createTable =>
      rw [ofBody] at h
      unfold ofCreate at h
      split at h
      · contradiction
      · next word ts hdrop =>
        have hsuffix : ts <:+ body := (List.suffix_cons word ts).trans
          (hdrop ▸ List.dropWhile_suffix (l := body) fun t => !t.isKeyword .TABLE)
        split at h
        · contradiction
        · next table rest hname =>
          split at h
          · contradiction
          · next opening definitions =>
            split at h
            · obtain ⟨kind, -, rfl⟩ := Option.map_eq_some_iff.1 h
              exact ⟨ts, table, opening, definitions, hsuffix, hname, rfl, rfl⟩
            · contradiction
  | truncate => rw [ofBody, tempTable_ofNamed] at h; contradiction
  | drop => rw [ofBody, tempTable_ofNamed] at h; contradiction
  | alter => rw [ofBody, tempTable_ofNamed] at h; contradiction
  | _ => contradiction

namespace Statement

theorem exists_mem_of_tempTable_build {nested : List Token → Statement} {ts : List Token}
    {t : TempTable} (h : (build nested ts).tempTable = some t) :
    ∃ u ∈ ts, t.line = u.start.line := by
  cases ts with
  | nil => contradiction
  | cons first rest =>
      rcases Option.or_eq_some_iff.1 h with h | ⟨-, h⟩
      · obtain ⟨r, hr, table, hname, hline, -⟩ := Region.exists_of_selectedInto h
        obtain ⟨u, hu, hstart⟩ := exists_mem_of_tableName hname
        have hin : r.tokens <:+: first :: rest := @isInfix_of_mem_regions nested _ r hr
        exact ⟨u, hin.subset (List.mem_cons_of_mem r.head hu),
          hline.trans (congrArg Position.line hstart)⟩
      · obtain ⟨ts, table, opening, definitions, hts, hname, hline, -⟩ :=
          ObjectHead.exists_of_tempTable h
        obtain ⟨u, hu, hstart⟩ := exists_mem_of_tableName (congrArg Prod.fst hname)
        have hbody := (skips_heading nested (first :: rest)).suffix
        exact ⟨u, (hts.trans hbody).subset hu, hline.trans (congrArg Position.line hstart)⟩

theorem tempTable_inBatch (batch : Nat) (s : Statement) :
    (s.inBatch batch).tempTable = s.tempTable.map fun t => { t with batch := batch } := by
  rw [inBatch]

end Statement

namespace Buffer

variable {source : String} {database : Option String} {s : Statement} {ts : List Token}
  {t : TempTable}

/-- A table is created on a line of the statement, that of a token of it. -/
theorem exists_mem_of_tempTable (h : IsReadFrom s ts) (ht : t ∈ s.tempTable) :
    t.batch = s.batch ∧ ∃ u ∈ ts, t.line = u.start.line := by
  refine ⟨(batch_of_mem_all h s s.mem_all_self).2 t ht, ?_⟩
  have hread : s.tempTable =
      (Statement.parse ts).tempTable.map fun t => { t with batch := s.batch } :=
    (congrArg Statement.tempTable h).trans (Statement.tempTable_inBatch _ _)
  rw [hread] at ht
  obtain ⟨u, hu, rfl⟩ := Option.map_eq_some_iff.1 ht
  have hbuild : (Statement.build (.ofQuery Statement.maxNesting) ts).tempTable = some u := by
    rwa [Statement.parse, Statement.markedIn] at hu
  obtain ⟨v, hv, hline⟩ := Statement.exists_mem_of_tempTable_build hbuild
  exact ⟨v, hv, hline⟩

/-- A table is not created before its statement begins. -/
theorem place_le_of_tempTable (h : s ∈ (parse source database).statements)
    (ht : t ∈ s.tempTable) : s.place ≤ t.place := by
  obtain ⟨i, hi⟩ := List.getElem?_of_mem h
  obtain ⟨ts, -, hts⟩ := exists_reads hi
  obtain ⟨hbatch, u, hu, hline⟩ := exists_mem_of_tempTable hts.isReadFrom ht
  have hle := (range_of_mem hts.isReadFrom hts.mem hu).1
  rw [Position.le_def] at hle
  rw [Place.le_def, Statement.place, TempTable.place, hbatch, hline, startLine_eq h]
  dsimp only
  omega

/-- A table is not created behind the place of a later statement. -/
theorem pairwise_place (source : String) (database : Option String) :
    (parse source database).statements.Pairwise fun s s' =>
      s.place ≤ s'.place ∧ ∀ t ∈ s.tempTable, t.place ≤ s'.place := by
  have hboth := (pairwise_batch source database).and (pairwise_statements source database)
  refine hboth.imp_of_mem fun {s s'} hs hs' ⟨⟨hline, hbatch⟩, hle⟩ => ⟨?_, fun t ht => ?_⟩
  · rw [Place.le_def, Statement.place, Statement.place]
    dsimp only
    omega
  · obtain ⟨i, hi⟩ := List.getElem?_of_mem hs
    obtain ⟨ts, -, hts⟩ := exists_reads hi
    obtain ⟨hcreated, u, hu, huline⟩ := exists_mem_of_tempTable hts.isReadFrom ht
    have hstop := (range_of_mem hts.isReadFrom hts.mem hu).2
    have hstart := (isOrdered_of_mem hts.mem).start_lt_stop u hu
    have hbehind := Position.lt_of_lt_of_le hstart (Position.le_trans hstop hle)
    rw [Position.lt_def] at hbehind
    rw [Place.le_def, TempTable.place, Statement.place, hcreated, huline, startLine_eq hs']
    dsimp only
    omega

end Buffer

end Tsql
