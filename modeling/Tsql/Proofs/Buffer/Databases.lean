import Tsql.Proofs.Buffer.Numbering
import Tsql.Proofs.Statement.Nested

/-!
The databases that are recorded on the statements of a buffer.

A statement of a buffer has the database of the last `USE` (`database_withDatabases`). The statements
nested in it are left as they were parsed, so they have none, unless one of them is itself a `USE`
(`database_of_nested`).
-/

namespace Tsql

namespace Statement

/-- The database that the statement selects itself. -/
def selected? (s : Statement) : Option String :=
  if s.kind = .use then s.database else none

theorem usedDatabase?_eq (kind : StatementKind) (body : List Token) :
    usedDatabase? kind body = if kind = .use then usedDatabase? kind body else none := by
  unfold usedDatabase?
  split
  · rfl
  · rfl

theorem database_build (nested : List Token → Statement) (ts : List Token) :
    (build nested ts).database = (build nested ts).selected? := by
  cases ts with
  | nil => rfl
  | cons first rest => exact usedDatabase?_eq _ _

theorem database_of_mem_all_parse (ts : List Token) :
    ∀ n ∈ (parse ts).all, n.database = n.selected? := by
  refine forall_all_parse database_build (fun _ => rfl) (fun s visible hs => ?_) ts
  rw [markedIn]
  exact hs

theorem database_of_mem_all_inBatch {s : Statement} (h : ∀ n ∈ s.all, n.database = n.selected?)
    (batch : Nat) : ∀ n ∈ (s.inBatch batch).all, n.database = n.selected? := by
  refine forall_all_of_related (R := fun n m => n = m.inBatch batch) ?_ ?_ rfl h
  · rintro _ m rfl n' hn'
    rw [nested_inBatch] at hn'
    obtain ⟨m', hm', rfl⟩ := List.mem_map.1 hn'
    exact ⟨m', hm', rfl⟩
  · rintro _ m rfl hm
    rw [inBatch]
    exact hm

end Statement

namespace Buffer

/-- Giving the statement a database leaves the statements nested in it without one. -/
theorem database_of_nested {s : Statement} {ts : List Token} (h : IsReadFrom s ts) :
    ∀ n ∈ s.nested.flatMap Statement.all, n.database = n.selected? := by
  have hall := Statement.database_of_mem_all_inBatch (Statement.database_of_mem_all_parse ts) s.batch
  rw [Statement.all_eq] at hall
  rw [IsReadFrom] at h
  rw [h]
  exact (List.forall_mem_cons.1 hall).2

/-- The database that is active behind statements: that of the last `USE`, or `database` before
any. -/
def activeDatabase (database : Option String) (ss : List Statement) : Option String :=
  (ss.filterMap Statement.selected?).getLast?.or database

theorem activeDatabase_cons (database : Option String) (s : Statement) (ss : List Statement) :
    activeDatabase database (s :: ss) = activeDatabase (s.selected?.or database) ss := by
  unfold activeDatabase
  cases hs : s.selected? with
  | none => rw [List.filterMap_cons_none hs, Option.none_or]
  | some name =>
      rw [List.filterMap_cons_some hs, List.getLast?_cons]
      cases (ss.filterMap Statement.selected?).getLast? with
      | none => rfl
      | some last => rfl

theorem eq_none_of_activeDatabase {database : Option String} {ss : List Statement}
    (h : activeDatabase database ss = none) : database = none :=
  (Option.or_eq_none_iff.1 h).2

/-- Each statement has the database that it selects, or else the one that is active in front of
it. -/
theorem database_withDatabases {database : Option String} {ss : List Statement} {i : Nat}
    {s : Statement} (h : (withDatabases database ss)[i]? = some s) :
    s.database = s.selected?.or (activeDatabase database ((withDatabases database ss).take i)) := by
  induction ss generalizing database i with
  | nil => simp [withDatabases] at h
  | cons s' ss ih =>
      unfold withDatabases at h ⊢
      split at h
      · next huse =>
        -- a `USE` keeps its database, which is active from there on
        obtain ⟨hkind, hsome⟩ : s'.kind = .use ∧ s'.database.isSome := by simpa using huse
        have hselected : s'.selected? = s'.database := if_pos hkind
        rw [if_pos huse]
        cases i with
        | zero =>
            obtain rfl := Option.some.inj h
            rw [hselected, Option.or_of_isSome hsome]
        | succ i =>
            rw [List.take_succ_cons, activeDatabase_cons, hselected, Option.or_of_isSome hsome]
            exact ih h
      · next huse =>
        -- any other statement gets the active database and leaves it active
        have hactive : ({ s' with database := database } : Statement).selected?.or database =
            database := by
          rw [Statement.selected?]
          split
          · exact Option.or_self
          · exact Option.none_or
        rw [if_neg huse]
        cases i with
        | zero =>
            obtain rfl := Option.some.inj h
            exact hactive.symm
        | succ i =>
            rw [List.take_succ_cons, activeDatabase_cons, hactive]
            exact ih h

/-- The first statement has the database that it selects, or else that of the buffer. -/
theorem database_of_statements_cons {source : String} {database : Option String} {s : Statement}
    {ss : List Statement} (h : (parse source database).statements = s :: ss) :
    s.database = s.selected?.or database := by
  have hfirst : (parse source database).statements[0]? = some s := by
    rw [h]
    rfl
  rw [statements_parse] at hfirst
  have hdatabase := database_withDatabases hfirst
  rw [List.take_zero] at hdatabase
  exact hdatabase

end Buffer

end Tsql
