import Tsql.Proofs.Buffer.Databases
import Tsql.Proofs.Resolve.Traced
import Tsql.Proofs.Scope.Paths

/-!
The statements whose tables are looked up.

A table is looked up for the statement that names it. Resolution goes from a statement to the bodies
of its subqueries and of the common table expressions that it sees, so whatever is asked about a
statement, the owner of each lookup is the statement or nested in it (`LooksUp.isIn`).

A statement of a buffer has its active database on record, so the tables that it names itself are
looked up there. The statements nested in it have no database on record, and their tables are looked
up in the database of the connection, whatever a `USE` has selected.
-/

namespace Tsql

namespace Statement

theorem body_mem_all_of_cte {s n : Statement} (hn : n ∈ s.all) {c : Cte} (hc : c ∈ n.ctes) :
    c.body ∈ s.all := by
  refine mem_all_trans hn (mem_all_of_nested ?_ (mem_all_self c.body))
  exact List.mem_append_left _ (List.mem_map.2 ⟨c, hc, rfl⟩)

theorem body_mem_all_of_subquery {s n : Statement} (hn : n ∈ s.all) {q : Subquery}
    (hq : q ∈ n.subqueries) : q.body ∈ s.all := by
  refine mem_all_trans hn (mem_all_of_nested ?_ (mem_all_self q.body))
  exact List.mem_append_right _ (List.mem_map.2 ⟨q, hq, rfl⟩)

end Statement

/-! ### Environments -/

namespace Environment

/-- The common table expressions are declared in the statement or in one nested in it. -/
def Within (s : Statement) (e : Environment) : Prop :=
  ∀ c ∈ e.ctes, c.body ∈ s.all

variable {s : Statement} {e : Environment}

theorem Within.without (h : e.Within s) (name : String) : (e.without name).Within s :=
  fun c hc => h c (List.mem_filter.1 hc).1

theorem Within.inside (h : e.Within s) {n : Statement} (hn : n ∈ s.all) :
    (e.inside n).Within s := by
  intro c hc
  rcases List.mem_append.1 hc with hc | hc
  · exact Statement.body_mem_all_of_cte hn hc
  · exact h c (List.mem_filter.1 hc).1

theorem Within.body_of_findCte? (h : e.Within s) {name : String} {c : Cte}
    (hc : e.findCte? name = some c) : c.body ∈ s.all :=
  h c (List.mem_of_find?_eq_some hc)

end Environment

/-! ### Lookups -/

/-- The lookup of a table for the statement or one nested in it. -/
def Lookup.IsIn (connection : Connection) (s : Statement) (l : Lookup) : Prop :=
  l.owner ∈ s.all ∧ l = .ofTable connection l.owner l.table

namespace Resolver

open Traced

variable {s : Statement} (r : Resolver)

theorem allLookups_tracedLookup {owner : Statement} (ho : owner ∈ s.all) (t : TableRef) :
    AllLookups (Lookup.IsIn r.connection s) (r.tracedLookup owner t) := by
  unfold tracedLookup
  split
  · exact .free _
  · intro l hl
    obtain rfl := List.mem_singleton.1 hl
    exact ⟨ho, rfl⟩

/-- Going on to the query behind a table keeps to the statement. -/
theorem allLookups_tracedColumnsWith
    {output : Statement → Environment → Traced (List ColumnRef)}
    (houtput : ∀ n ∈ s.all, ∀ e : Environment, e.Within s →
      AllLookups (Lookup.IsIn r.connection s) (output n e))
    {owner : Statement} (ho : owner ∈ s.all) {e : Environment} (he : e.Within s) (t : TableRef) :
    AllLookups (Lookup.IsIn r.connection s) (r.tracedColumnsWith output owner e t) := by
  unfold tracedColumnsWith
  split
  · -- a derived table has its query in the owner
    cases hq : t.subqueryIndex.bind fun i => owner.subqueries[i]? with
    | none => exact .free _
    | some q =>
        obtain ⟨i, -, hi⟩ := Option.bind_eq_some_iff.1 hq
        have hbody := Statement.body_mem_all_of_subquery ho (List.mem_of_getElem? hi)
        exact (houtput q.body hbody _ (he.inside hbody)).map _
  · -- a common table expression has its query in the environment
    cases hc : if t.isCte then e.findCte? t.name else none with
    | some c =>
        have hfind : e.findCte? t.name = some c := by
          split at hc
          · exact hc
          · contradiction
        have hbody := he.body_of_findCte? hfind
        exact (houtput c.body hbody _ ((he.without c.name).inside hbody)).map _
    | none =>
        refine AllLookups.map ?_ _
        split
        · exact .free _
        · split
          · exact .free _
          · exact r.allLookups_tracedLookup ho t

theorem allLookups_tracedOutputAt (levels : Nat) {n : Statement} (hn : n ∈ s.all)
    {e : Environment} (he : e.Within s) :
    AllLookups (Lookup.IsIn r.connection s) (r.tracedOutputAt levels n e) := by
  induction levels generalizing n e with
  | zero => exact .free _
  | succ levels ih =>
      have hcolumns : ∀ t, AllLookups (Lookup.IsIn r.connection s)
          (r.tracedColumnsWith (r.tracedOutputAt levels) n e t) :=
        r.allLookups_tracedColumnsWith (fun m hm e he => ih hm he) hn he
      exact (AllLookups.each fun c _ => .expand hcolumns n c).map _

theorem allLookups_tracedColumnsAt (levels : Nat) {owner : Statement} (ho : owner ∈ s.all)
    {e : Environment} (he : e.Within s) (t : TableRef) :
    AllLookups (Lookup.IsIn r.connection s) (r.tracedColumnsAt levels owner e t) := by
  cases levels with
  | zero => exact .free _
  | succ levels =>
      exact r.allLookups_tracedColumnsWith (fun m hm e he => r.allLookups_tracedOutputAt _ hm he)
        ho he t

end Resolver

/-! ### Scopes -/

namespace Scope

variable {s : Statement}

theorem within_declaredCtes {path : List Scope} (h : PathWithin s path) (horizon : Option Nat) :
    ∀ c ∈ declaredCtes horizon path, c.body ∈ s.all := by
  intro c hc
  obtain ⟨scope, hscope, hmem⟩ := exists_of_mem_declaredCtes hc
  exact Statement.body_mem_all_of_cte (h scope hscope) hmem

theorem distinctCtes_subset (cs : List Cte) : distinctCtes cs ⊆ cs := by
  induction cs with
  | nil => exact List.Subset.refl _
  | cons c cs ih =>
      refine List.cons_subset.2 ⟨List.mem_cons_self, fun d hd => ?_⟩
      exact List.mem_cons_of_mem c (ih (List.mem_filter.1 hd).1)

theorem PathWithin.ofPath {path : List Scope} (h : PathWithin s path) (temps : List TempTable) :
    (Environment.ofPath path temps).Within s :=
  fun c hc => within_declaredCtes h none c (distinctCtes_subset _ hc)

theorem PathWithin.of_mem_visibleTables {path : List Scope} (h : PathWithin s path)
    {v : ScopedTable} (hv : v ∈ visibleTables path) : PathWithin s (v.scope :: v.outer) := by
  induction path with
  | nil => exact absurd hv List.not_mem_nil
  | cons scope outer ih =>
      rcases List.mem_append.1 hv with hv | hv
      · obtain ⟨t, -, rfl⟩ := List.mem_map.1 hv
        exact h
      · split at hv
        · exact ih (List.forall_mem_cons.1 h).2 (List.mem_filter.1 hv).1
        · exact absurd hv List.not_mem_nil

end Scope

/-! ### What is looked up for a statement -/

namespace Resolver

/-- The lookup is made when the resolver is asked about the statement: for the output of a query in
it, for the columns of a table in one of its environments, or for all tables that one of its scopes
sees. -/
inductive LooksUp (r : Resolver) (s : Statement) : Lookup → Prop
  | output {levels : Nat} {n : Statement} {e : Environment} {l : Lookup} :
      n ∈ s.all → e.Within s → l ∈ (r.tracedOutputAt levels n e).lookups → LooksUp r s l
  | columns {levels : Nat} {n : Statement} {e : Environment} {t : TableRef} {l : Lookup} :
      n ∈ s.all → e.Within s → l ∈ (r.tracedColumnsAt levels n e t).lookups → LooksUp r s l
  | scope {maxDepth : Nat} {path : List Scope} {temps : List TempTable} {v : ScopedTable}
      {l : Lookup} :
      path ∈ (ScopeTree.build maxDepth s).paths → v ∈ Scope.visibleTables path →
      l ∈ (r.tracedColumnsAt (r.maxDepth + 1) v.scope.statement
        (.ofPath (v.scope :: v.outer) temps) v.table).lookups → LooksUp r s l

theorem LooksUp.isIn {r : Resolver} {s : Statement} {l : Lookup} (h : r.LooksUp s l) :
    l.IsIn r.connection s := by
  cases h with
  | output hn he hl => exact r.allLookups_tracedOutputAt _ hn he l hl
  | columns hn he hl => exact r.allLookups_tracedColumnsAt _ hn he _ l hl
  | scope hpath hv hl =>
      have hwithin := (ScopeTree.pathOf_of_mem_paths hpath).pathWithin.of_mem_visibleTables hv
      have hscope := hwithin _ List.mem_cons_self
      exact r.allLookups_tracedColumnsAt _ hscope (hwithin.ofPath _) _ l hl

end Resolver

/-! ### Databases -/

namespace Lookup

variable {connection : Connection} {s : Statement} {l : Lookup}

theorem IsIn.database (h : l.IsIn connection s) :
    l.connection.database = l.owner.database.or connection.database := by
  obtain ⟨-, heq⟩ := h
  rw [heq]
  rfl

theorem IsIn.owner (h : l.IsIn connection s) :
    l.owner = s ∨ l.owner ∈ s.nested.flatMap Statement.all := by
  have hall := h.1
  rw [Statement.all_eq] at hall
  exact List.mem_cons.1 hall

end Lookup

theorem or_eq_left_iff {α : Type} (a b : Option α) : a.or b = a ↔ a.isSome ∨ b = none := by
  cases a with
  | none => simp
  | some x => simp

/-- A statement has the database that it selects, or else that of the last `USE` in front of it. A
lookup is made there if the statement names the table itself, unless there is no such database but
the connection has one. A table that is named in a nested statement is looked up there only if it is
the database of the connection, or of a `USE` that is nested itself. -/
theorem database_of_looksUp (source : String) (database : Option String) (r : Resolver) (i : Nat)
    (s : Statement) (hs : (Buffer.parse source database).statements[i]? = some s) :
    s.database = s.selected?.or
        (Buffer.activeDatabase database ((Buffer.parse source database).statements.take i)) ∧
      ∀ l, r.LooksUp s l →
        (l.owner = s ∧
          (l.connection.database = s.database ↔
            s.database.isSome ∨ r.connection.database = none) ∧
          (r.connection.database = database → l.connection.database = s.database)) ∨
        (l.owner ∈ s.nested.flatMap Statement.all ∧
          (l.connection.database = s.database ↔
            l.owner.selected?.or r.connection.database = s.database)) := by
  have hactive : s.database = s.selected?.or
      (Buffer.activeDatabase database ((Buffer.parse source database).statements.take i)) := by
    rw [Buffer.statements_parse] at hs ⊢
    exact Buffer.database_withDatabases hs
  refine ⟨hactive, fun l hl => ?_⟩
  have hdatabase := hl.isIn.database
  rcases hl.isIn.owner with howner | howner
  · rw [howner] at hdatabase
    -- the statement names the table itself
    have hiff : l.connection.database = s.database ↔
        s.database.isSome ∨ r.connection.database = none := by
      rw [hdatabase]
      exact or_eq_left_iff _ _
    refine .inl ⟨howner, hiff, fun hdefault => hiff.2 ?_⟩
    cases hs : s.database with
    | some name => exact .inl rfl
    | none =>
        rw [hs] at hactive
        have hnone := (Option.or_eq_none_iff.1 hactive.symm).2
        exact .inr (hdefault.trans (Buffer.eq_none_of_activeDatabase hnone))
  · -- a nested statement names it, and has kept what it was parsed with
    obtain ⟨ts, us, -, -, -, -, hread⟩ := Buffer.exists_of_getElem?_parse hs
    refine .inr ⟨howner, ?_⟩
    rw [hdatabase, Buffer.database_of_nested hread _ howner]

/-- The statement behind a `USE`. -/
theorem database_of_looksUp_behind_use :
    let statements := (Buffer.parse
      "USE Archive\nSELECT * FROM (SELECT * FROM OrdersHistory) h" none).statements
    let r : Resolver := { source := some (Catalog.source {}), maxDepth := 32 }
    ∃ s, statements[1]? = some s ∧
      s.database = s.selected?.or (Buffer.activeDatabase none (statements.take 1)) ∧
      ∀ l, r.LooksUp s l →
        (l.owner = s ∧
          (l.connection.database = s.database ↔
            s.database.isSome ∨ r.connection.database = none) ∧
          (r.connection.database = none → l.connection.database = s.database)) ∨
        (l.owner ∈ s.nested.flatMap Statement.all ∧
          (l.connection.database = s.database ↔
            l.owner.selected?.or r.connection.database = s.database)) := by
  intro statements r
  have hlength : 1 < statements.length := by decide +kernel
  have hs : statements[1]? = some statements[1] := List.getElem?_eq_getElem hlength
  exact ⟨statements[1], hs, database_of_looksUp _ none r 1 _ hs⟩

/-- In the derived table behind the `USE`, the database that it selects is not used. -/
theorem looksUp_outside_active_database :
    let statements := (Buffer.parse
      "USE Archive\nSELECT * FROM (SELECT * FROM OrdersHistory) h" none).statements
    let r : Resolver := { source := some (Catalog.source {}), maxDepth := 32 }
    ∃ s ∈ statements, ∃ l, r.LooksUp s l ∧ s.database = some "Archive" ∧
      l.connection.database = none := by
  intro statements r
  have hfound : statements[1]?.any fun s => s.database = some "Archive" &&
      (r.tracedOutputAt 2 s ⟨[], []⟩).lookups.any fun l => l.connection.database = none := by
    decide +kernel
  obtain ⟨s, hs, hfacts⟩ := (Option.any_eq_true _ _).1 hfound
  obtain ⟨hdatabase, hlookup⟩ := Bool.and_eq_true_iff.1 hfacts
  obtain ⟨l, hl, hnone⟩ := List.any_eq_true.1 hlookup
  have hempty : Environment.Within s ⟨[], []⟩ := fun c hc => absurd hc List.not_mem_nil
  exact ⟨s, List.mem_of_getElem? hs, l, .output s.mem_all_self hempty hl,
    of_decide_eq_true hdatabase, of_decide_eq_true hnone⟩

end Tsql
