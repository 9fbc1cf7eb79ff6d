import Tsql.Proofs.Buffer.Numbering
import Tsql.TempTable.Registry

/-!
The tables of a registry and their batches.

Replaying a statement adds at most the table that it creates, with the batch that it was given, and
dropping changes no table (`exists_of_mem_tables`). Of the local ones only those of its own batch are
visible at a place (`batch_of_mem_visibleAt`).
-/

namespace Tsql

namespace TempRegistry

theorem mem_of_mem_latest {es : List TempEntry} {e : TempEntry} (h : e ∈ latest es) : e ∈ es := by
  induction es with
  | nil => exact h
  | cons f es ih =>
      rw [latest] at h
      split at h
      · exact List.mem_cons_of_mem f (ih h)
      · rcases List.mem_cons.1 h with rfl | h
        · exact List.mem_cons_self
        · exact List.mem_cons_of_mem f (ih h)

theorem exists_entry_of_mem_visibleAt {r : TempRegistry} {p : Place} {t : TempTable}
    (h : t ∈ r.visibleAt p) : ∃ e ∈ r.entries, e.table = t ∧ e.isVisibleAt p := by
  obtain ⟨e, he, rfl⟩ := List.mem_map.1 h
  obtain ⟨hmem, hvisible⟩ := List.mem_filter.1 (mem_of_mem_latest he)
  exact ⟨e, hmem, rfl, hvisible⟩

theorem mem_tables_of_mem_visibleAt {r : TempRegistry} {p : Place} {t : TempTable}
    (h : t ∈ r.visibleAt p) : t ∈ r.tables := by
  obtain ⟨e, he, rfl, -⟩ := exists_entry_of_mem_visibleAt h
  exact List.mem_map_of_mem he

/-- A local table is visible in its own batch only. -/
theorem batch_of_mem_visibleAt {r : TempRegistry} {p : Place} {t : TempTable}
    (h : t ∈ r.visibleAt p) (hlocal : t.kind = .batchLocal) : t.batch = p.batch := by
  obtain ⟨e, -, rfl, hvisible⟩ := exists_entry_of_mem_visibleAt h
  rw [TempEntry.isVisibleAt, Bool.and_eq_true, Bool.and_eq_true] at hvisible
  obtain ⟨⟨-, hbatch⟩, -⟩ := hvisible
  simpa [hlocal] using hbatch

theorem map_table_of_dropIn? {name : String} {p : Place} {es es' : List TempEntry}
    (h : dropIn? name p es = some es') : es'.map TempEntry.table = es.map TempEntry.table := by
  induction es generalizing es' with
  | nil => contradiction
  | cons e es ih =>
      rw [dropIn?] at h
      split at h
      · next hdrop =>
        obtain rfl := Option.some.inj h
        rw [List.map_cons, List.map_cons, ih hdrop]
      · split at h
        · obtain rfl := Option.some.inj h
          rfl
        · cases h

theorem tables_drop (r : TempRegistry) (name : String) (p : Place) :
    (r.drop name p).tables = r.tables := by
  rw [tables, drop]
  cases h : dropIn? name p r.entries with
  | none => rfl
  | some es => exact map_table_of_dropIn? h

theorem tables_foldl_drop (r : TempRegistry) (p : Place) (dropped : List TableRef) :
    (dropped.foldl (fun r t => r.drop t.name p) r).tables = r.tables := by
  induction dropped generalizing r with
  | nil => rfl
  | cons t dropped ih => rw [List.foldl_cons, ih, tables_drop]

theorem batch_created (r : TempRegistry) (resolver : Resolver) (s : Statement) (t : TempTable) :
    (r.created resolver s t).batch = t.batch := by
  rw [created]
  split
  · split <;> rfl
  · rfl

theorem tables_step (resolver : Resolver) (r : TempRegistry) (s : Statement) :
    (step resolver r s).tables =
      r.tables ++ (s.tempTable.map fun t => r.created resolver s t).toList := by
  have hgrown : ∀ grown : TempRegistry,
      (if s.kind = .drop then
          (s.tables.filter TableRef.isTemp).foldl (fun r t => r.drop t.name s.place) grown
        else grown).tables = grown.tables := by
    intro grown
    split
    · exact tables_foldl_drop grown _ _
    · rfl
  rw [step, hgrown]
  cases s.tempTable with
  | none => exact (List.append_nil _).symm
  | some t => simp [tables]

/-- Every table of the registry is one that a statement creates, in its batch. -/
theorem exists_of_mem_tables {resolver : Resolver} {ss : List Statement} {t : TempTable}
    (h : t ∈ (ofStatements resolver ss).tables) :
    ∃ s ∈ ss, ∃ u ∈ s.tempTable, t.batch = u.batch := by
  suffices hfold : ∀ r : TempRegistry, t ∈ (ss.foldl (step resolver) r).tables →
      t ∈ r.tables ∨ ∃ s ∈ ss, ∃ u ∈ s.tempTable, t.batch = u.batch from
    (hfold {} h).resolve_left List.not_mem_nil
  clear h
  induction ss with
  | nil => exact fun r h => .inl h
  | cons s ss ih =>
      intro r h
      rcases ih _ h with h | ⟨s', hs', hu⟩
      · rw [tables_step] at h
        rcases List.mem_append.1 h with h | h
        · exact .inl h
        · obtain ⟨u, hu, rfl⟩ := Option.map_eq_some_iff.1 (Option.mem_toList.1 h)
          exact .inr ⟨s, List.mem_cons_self, u, hu, batch_created r resolver s u⟩
      · exact .inr ⟨s', List.mem_cons_of_mem s hs', hu⟩

theorem batch_of_mem_tables {source : String} {database : Option String} {resolver : Resolver}
    {t : TempTable}
    (h : t ∈ (ofStatements resolver (Buffer.parse source database).statements).tables) :
    ∃ s ∈ (Buffer.parse source database).statements, t.batch = s.batch := by
  obtain ⟨s, hs, u, hu, hbatch⟩ := exists_of_mem_tables h
  obtain ⟨i, hi⟩ := List.getElem?_of_mem hs
  obtain ⟨_, _, -, -, -, -, hread⟩ := Buffer.exists_of_getElem?_parse hi
  refine ⟨s, hs, ?_⟩
  rw [hbatch]
  exact (Buffer.batch_of_mem_all hread s (Statement.mem_all_self s)).2 u hu

end TempRegistry

end Tsql
