import Tsql.Proofs.Statement.Nested
import Tsql.Proofs.Statement.Readers
import Tsql.Proofs.Statement.Regions

/-!
The statement that the tokens of a query form.

A query that starts with `SELECT` has the columns of its first select list and the tables of all its
regions, and a derived table finds the query at its place (`isQueryOf_build`).
-/

namespace Tsql

/-! ### Queries by their place -/

theorem find?_mergeSort {α : Type} {le : α → α → Bool}
    (htrans : ∀ a b c, le a b → le b c → le a c) (htotal : ∀ a b, le a b || le b a)
    {p : α → Bool} (hp : ∀ a b, p a → p b → le a b) (l : List α) :
    (l.mergeSort le).find? p = l.find? p := by
  have hsorted : (l.filter p).Pairwise fun a b => le a b := by
    refine List.pairwise_of_forall_mem_list fun a ha b hb => ?_
    exact hp a b (List.mem_filter.1 ha).2 (List.mem_filter.1 hb).2
  -- the sort is stable, so it keeps the order of the elements with the property
  have hsub : ((l.filter p).filter p).Sublist ((l.mergeSort le).filter p) :=
    (List.sublist_mergeSort htrans htotal hsorted List.filter_sublist).filter p
  rw [List.filter_filter] at hsub
  have hlength := ((List.mergeSort_perm l le).filter p).length_eq
  rw [← List.head?_filter, ← List.head?_filter, ← hsub.eq_of_length (by simpa using hlength.symm)]
  simp

/-- The query of the derived table at a place. -/
def Subquery.isDerivedAt (p : Position) (q : Subquery) : Bool :=
  q.kind = .derived ∧ q.range.start = p

/-- Queries in other places than that of a derived table, and their order, do not matter for it. -/
theorem Subquery.find?_isDerivedAt (p : Position) (found : List Subquery)
    {expressions : List Subquery} (h : ∀ q ∈ expressions, q.kind = .expression) :
    ((found ++ expressions).mergeSort fun a b => a.range.start ≤ b.range.start).find?
      (isDerivedAt p) = found.find? (isDerivedAt p) := by
  have hnone : expressions.find? (isDerivedAt p) = none := by
    refine List.find?_eq_none.2 fun q hq => ?_
    simp [isDerivedAt, h q hq]
  rw [find?_mergeSort, List.find?_append, hnone, Option.or_none]
  · intro a b c hab hbc
    exact decide_eq_true (Position.le_trans (of_decide_eq_true hab) (of_decide_eq_true hbc))
  · intro a b
    simpa using Position.le_total a.range.start b.range.start
  · intro a b ha hb
    simp only [isDerivedAt, decide_eq_true_eq] at ha hb ⊢
    rw [ha.2, hb.2]
    exact Position.le_refl p

/-- The table with the index of its query, if it is a derived table. -/
def TableRef.linkedIn (subqueries : List Subquery) (t : TableRef) : TableRef :=
  if t.isDerived then
    { t with subqueryIndex := subqueries.findIdx? (Subquery.isDerivedAt t.range.start) }
  else t

theorem linkDerived_eq (subqueries : List Subquery) (tables : List TableRef) :
    linkDerived subqueries tables = tables.map (TableRef.linkedIn subqueries) := rfl

namespace TableRef

variable (subqueries : List Subquery) (t : TableRef)

theorem linkedIn_of_not_isDerived {t : TableRef} (h : t.isDerived = false) :
    t.linkedIn subqueries = t := by
  simp [linkedIn, h]

@[simp] theorem name_linkedIn : (t.linkedIn subqueries).name = t.name := by
  unfold linkedIn; split <;> rfl

@[simp] theorem aliasName_linkedIn : (t.linkedIn subqueries).aliasName = t.aliasName := by
  unfold linkedIn; split <;> rfl

@[simp] theorem isDerived_linkedIn : (t.linkedIn subqueries).isDerived = t.isDerived := by
  unfold linkedIn; split <;> rfl

@[simp] theorem columns_linkedIn : (t.linkedIn subqueries).columns = t.columns := by
  unfold linkedIn; split <;> rfl

@[simp] theorem range_linkedIn : (t.linkedIn subqueries).range = t.range := by
  unfold linkedIn; split <;> rfl

@[simp] theorem displayName_linkedIn : (t.linkedIn subqueries).displayName = t.displayName := by
  simp [displayName]

@[simp] theorem linkedIn_linkedIn (others : List Subquery) :
    (t.linkedIn others).linkedIn subqueries = t.linkedIn subqueries := by
  unfold linkedIn; split <;> simp_all

end TableRef

theorem linkDerived_append (subqueries : List Subquery) (ts us : List TableRef) :
    linkDerived subqueries (ts ++ us) = linkDerived subqueries ts ++ linkDerived subqueries us :=
  List.map_append

theorem linkDerived_linkDerived (subqueries others : List Subquery) (tables : List TableRef) :
    linkDerived subqueries (linkDerived others tables) = linkDerived subqueries tables := by
  simp only [linkDerived_eq, List.map_map]
  exact List.map_congr_left fun t _ => TableRef.linkedIn_linkedIn subqueries t others

/-- The query of a derived table of the statement. -/
def Statement.queryOf? (s : Statement) (t : TableRef) : Option Subquery :=
  t.subqueryIndex.bind fun i => s.subqueries[i]?

theorem Statement.queryOf?_linkedIn (s : Statement) {t : TableRef} (h : t.isDerived) :
    s.queryOf? (t.linkedIn s.subqueries) =
      s.subqueries.find? (Subquery.isDerivedAt t.range.start) := by
  simp [queryOf?, TableRef.linkedIn, h, List.find?_eq_bind_findIdx?_getElem?]

/-! ### The tables of regions -/

namespace Sources

variable (nested : List Token → Statement)

/-- An earlier `SELECT` only changes which issues are found. -/
theorem ofRegions_seen (seen seen' : Bool) (rs : List Region) :
    (ofRegions nested seen rs).tables = (ofRegions nested seen' rs).tables ∧
      (ofRegions nested seen rs).subqueries = (ofRegions nested seen' rs).subqueries := by
  induction rs generalizing seen seen' with
  | nil => exact ⟨rfl, rfl⟩
  | cons r rs ih =>
      obtain ⟨htables, hsubqueries⟩ := ih (seen || r.clause = .select) (seen' || r.clause = .select)
      simp only [ofRegions_cons, tables_append, subqueries_append, tables_inFrontOf,
        subqueries_inFrontOf, htables, hsubqueries, ofRegion]
      cases r.clause <;> cases seen <;> cases seen' <;> exact ⟨rfl, rfl⟩

theorem tables_ofRegions_append (seen : Bool) (rs rs' : List Region) :
    (ofRegions nested seen (rs ++ rs')).tables =
      (ofRegions nested seen rs).tables ++ (ofRegions nested false rs').tables := by
  induction rs generalizing seen with
  | nil => exact (ofRegions_seen nested seen false rs').1
  | cons r rs ih =>
      simp only [List.cons_append, ofRegions_cons, tables_append, tables_inFrontOf, ih,
        List.append_assoc]

theorem subqueries_ofRegions_append (seen : Bool) (rs rs' : List Region) :
    (ofRegions nested seen (rs ++ rs')).subqueries =
      (ofRegions nested seen rs).subqueries ++ (ofRegions nested false rs').subqueries := by
  induction rs generalizing seen with
  | nil => exact (ofRegions_seen nested seen false rs').2
  | cons r rs ih =>
      simp only [List.cons_append, ofRegions_cons, subqueries_append, subqueries_inFrontOf, ih,
        List.append_assoc]

end Sources

/-! ### What a query gives -/

theorem startsSelect_append {ts : List Token} (h : startsSelect ts) (us : List Token) :
    startsSelect (ts ++ us) := by
  cases ts with
  | nil => simp [startsSelect] at h
  | cons t ts => exact h

namespace Region

theorem outputColumns_append {rs : List Region} (h : (first? .select rs).isSome)
    (rs' : List Region) : outputColumns (rs ++ rs') = outputColumns rs := by
  unfold outputColumns first? at *
  rw [List.find?_append, Option.or_of_isSome h]

theorem first?_cut_isSome {ts : List Token} (h : startsSelect ts) :
    (first? .select (cut .select {} ts).2).isSome := by
  obtain ⟨r, rs, hr, hcut⟩ := exists_cut_startsSelect h
  rw [hcut]
  simp [first?, hr]

end Region

theorem kind_expressionQueries (nested : List Token → Statement) (claimed : List Token → Bool)
    (clause : Option Clause) (ts : List Token) :
    ∀ q ∈ expressionQueries nested claimed clause ts, q.kind = .expression := by
  fun_induction expressionQueries nested claimed clause ts with
  | case1 => simp
  | case2 t rest group _ ih => exact ih
  | case3 t rest group _ _ ih => exact List.forall_mem_cons.2 ⟨rfl, ih⟩
  | case4 t rest group _ _ ih => exact ih

theorem Layout.kind_of_mem_expressionQueries {nested : List Token → Statement} {claimed : List Nat}
    {pieces : List (Option Clause × List Token)} {q : Subquery}
    (h : q ∈ expressionQueries nested claimed pieces) : q.kind = .expression := by
  obtain ⟨piece, -, isClaimed, hq⟩ := exists_of_mem_expressionQueries h
  exact kind_expressionQueries nested isClaimed piece.1 piece.2 q hq

namespace Statement

/-- The statement is a query with the given columns and what its lists of tables hold. -/
structure IsQueryOf (s : Statement) (columns : List ColumnRef) (found : Sources) : Prop where
  columns : s.columns = columns
  ctes : s.ctes = []
  database : s.database = none
  tables : s.tables = linkDerived s.subqueries found.tables
  query : ∀ p, s.subqueries.find? (Subquery.isDerivedAt p) =
    found.subqueries.find? (Subquery.isDerivedAt p)

theorem kind_of_startsSelect {ts : List Token} (h : startsSelect ts) :
    StatementKind.ofTokens ts = .select := by
  cases ts with
  | nil => simp [startsSelect] at h
  | cons first rest =>
      have hfirst : first.kind = .keyword .SELECT := Token.kind_of_isKeyword h
      simp [StatementKind.ofTokens, hfirst, Keyword.dmlKind?]

theorem isQueryOf_build (nested : List Token → Statement) {ts : List Token} (h : startsSelect ts) :
    (build nested ts).IsQueryOf (Region.outputColumns (Region.cut .select {} ts).2)
      (Sources.ofRegions nested false (Region.cut .select {} ts).2) := by
  cases ts with
  | nil => simp [startsSelect] at h
  | cons first rest =>
      have hfirst := Token.kind_of_isKeyword h
      have hwith : first.isKeyword .WITH = false := by simp [Token.isKeyword, hfirst]
      have hkind := kind_of_startsSelect h
      have hlayout : (Layout.ofTokens .select [] (first :: rest)).regions =
          (Region.cut .select {} (first :: rest)).2 := by
        simp [Layout.ofTokens, StatementKind.isDml]
      have htarget : Region.target? nested (Region.cut .select {} (first :: rest)).2 = none := by
        have hnone : Region.first? .target (Region.cut .select {} (first :: rest)).2 = none := by
          simpa [Region.first?] using fun r => Region.clause_ne_target_of_mem_cut (r := r)
        simp [Region.target?, hnone]
      constructor
      · simp [build, hwith, hkind, hlayout]
      · simp [build, hwith]
      · simp [build, hwith, hkind, usedDatabase?]
      · simp [build, hwith, hkind, hlayout, htarget, placeTarget, ObjectHead.ofBody]
      · intro p
        simp only [build, hwith, hkind, Bool.false_eq_true, if_false, Nat.sub_self, List.take_zero,
          hlayout]
        exact Subquery.find?_isDerivedAt p _ fun q => Layout.kind_of_mem_expressionQueries

end Statement

/-! ### Marked references -/

namespace TableRef

variable (visible : List String) (t : TableRef)

@[simp] theorem isDerived_markedIn : (t.markedIn visible).isDerived = t.isDerived := by
  unfold markedIn; split <;> rfl

@[simp] theorem range_markedIn : (t.markedIn visible).range = t.range := by
  unfold markedIn; split <;> rfl

/-- Derived tables are linked and other references marked, so the order does not matter. -/
theorem markedIn_linkedIn (subqueries : List Subquery) :
    (t.linkedIn subqueries).markedIn visible = (t.markedIn visible).linkedIn subqueries := by
  cases hderived : t.isDerived with
  | false =>
      rw [linkedIn_of_not_isDerived _ hderived, linkedIn_of_not_isDerived]
      rwa [isDerived_markedIn]
  | true =>
      have hmark : ∀ u : TableRef, u.isDerived → u.markedIn visible = u := by
        intro u hu
        simp [markedIn, mayBeCte, hu]
      rw [hmark t hderived, hmark _ (by rwa [isDerived_linkedIn])]

end TableRef

def Subquery.markedIn (visible : List String) (q : Subquery) : Subquery :=
  { q with body := q.body.markedIn visible }

/-- What was found, with references to common table expressions marked. -/
def Sources.markedIn (visible : List String) (found : Sources) : Sources :=
  { found with
    tables := found.tables.map (TableRef.markedIn visible)
    subqueries := found.subqueries.map (Subquery.markedIn visible) }

namespace Statement

theorem subqueries_markedIn (visible : List String) (s : Statement) :
    (s.markedIn visible).subqueries =
      s.subqueries.map (Subquery.markedIn (visible ++ s.ctes.map Cte.name)) := by
  rw [markedIn]
  simp [Subquery.markedIn]

theorem issues_markedIn (visible : List String) (s : Statement) :
    (s.markedIn visible).issues = s.issues := by
  rw [markedIn]

theorem find?_isDerivedAt_markedIn (visible : List String) (p : Position) (qs : List Subquery) :
    (qs.map (Subquery.markedIn visible)).find? (Subquery.isDerivedAt p) =
      (qs.find? (Subquery.isDerivedAt p)).map (Subquery.markedIn visible) :=
  List.find?_map

theorem linkedIn_markedIn (visible : List String) (qs : List Subquery) (t : TableRef) :
    t.linkedIn (qs.map (Subquery.markedIn visible)) = t.linkedIn qs := by
  simp only [TableRef.linkedIn, List.findIdx?_map]
  rfl

theorem IsQueryOf.markedIn {s : Statement} {columns : List ColumnRef} {found : Sources}
    (h : s.IsQueryOf columns found) (visible : List String) :
    (s.markedIn visible).IsQueryOf columns (found.markedIn visible) := by
  have hsubqueries := s.subqueries_markedIn visible
  simp only [h.ctes, List.map_nil, List.append_nil] at hsubqueries
  constructor
  · rw [Statement.markedIn]
    exact h.columns
  · rw [Statement.markedIn]
    simp [h.ctes, Cte.markedIn]
  · rw [Statement.markedIn]
    exact h.database
  · rw [hsubqueries, Statement.markedIn]
    simp only [h.tables, h.ctes, linkDerived_eq, Sources.markedIn, List.map_nil, List.append_nil,
      List.map_map]
    refine List.map_congr_left fun t _ => ?_
    simp only [Function.comp_apply, linkedIn_markedIn, TableRef.markedIn_linkedIn]
  · intro p
    rw [hsubqueries, find?_isDerivedAt_markedIn, h.query p]
    exact (find?_isDerivedAt_markedIn visible p found.subqueries).symm

end Statement

end Tsql
