import Mathlib.Data.List.TakeWhile
import Tsql.Proofs.Statement.Layout
import Tsql.Proofs.Statement.Query
import Tsql.Scope.Tree

/-!
Statements without parentheses.

Such a statement has no subqueries, and unless it begins with a `WITH` no common table expressions
either (`subqueries_build`), so its scope is the only one in it (`pathAt_of_nested`). Its regions are
its tokens, and a `WHERE` clause begins at a `WHERE` among them (`exists_where_of_clauseAt?`).
-/

namespace Tsql

/-- No token opens or closes a group. -/
def IsFlat (ts : List Token) : Prop :=
  ∀ t ∈ ts, t.isOpen = false ∧ t.isClose = false

namespace IsFlat

variable {t : Token} {ts us : List Token}

theorem mono (h : IsFlat ts) (hsub : us ⊆ ts) : IsFlat us :=
  fun t ht => h t (hsub ht)

theorem tail (h : IsFlat (t :: ts)) : IsFlat ts :=
  h.mono (List.subset_cons_self t ts)

theorem isBalanced (h : IsFlat ts) : isBalanced ts := by
  have hfold : ∀ depth, ts.foldlM (fun depth t => t.openAfter? depth) depth = some depth := by
    induction ts with
    | nil => exact fun depth => rfl
    | cons t ts ih =>
        intro depth
        obtain ⟨hopen, hclose⟩ := h t List.mem_cons_self
        rw [List.foldlM_cons, Token.openAfter?, hopen, hclose]
        exact ih h.tail depth
  rw [Tsql.isBalanced, openGroups?_eq, hfold 0]
  rfl

/-- A group without groups in it ends at the first closing parenthesis. -/
theorem after_append (h : IsFlat ts) (ht : t.isClose) (us : List Token) :
    Group.after (ts ++ t :: us) = ⟨ts, some t, us⟩ :=
  Group.after_balanced h.isBalanced ht us

end IsFlat

/-! ### Regions -/

/-- A `WHERE` clause begins at a `WHERE`. -/
theorem Layout.isKeyword_of_filter {kind : StatementKind} {ctes body : List Token} {r : Region}
    (h : r ∈ (ofTokens kind ctes body).regions) (hr : r.clause = .filter) :
    r.head.isKeyword .WHERE := by
  rcases of_mem_regions h with ⟨_, -, hctes, -⟩ | ⟨-, ⟨s, hcut⟩ | ⟨htarget, -⟩⟩
  · simp [hr] at hctes
  · exact Region.isKeyword_of_filter hcut hr
  · simp [hr] at htarget

/-! ### Statements -/

namespace Statement

/-- Without parentheses there are no subqueries. -/
theorem subqueries_build (nested : List Token → Statement) {ts : List Token} (h : IsFlat ts) :
    (build nested ts).subqueries = [] := by
  refine List.eq_nil_iff_forall_not_mem.2 fun q hq => ?_
  obtain ⟨span, hin, front, t, us, hopen, rfl, -⟩ := exists_reads_of_mem_subqueries hq
  have hflat := (h t (hin.subset (by simp))).1
  exact absurd hopen (by simp [hflat])

section

variable (nested : List Token → Statement) {first : Token} {rest : List Token}
  (hwith : first.isKeyword .WITH = false)

include hwith

theorem kind_build :
    (build nested (first :: rest)).kind = .ofTokens (first :: rest) := by
  simp [build, hwith]

theorem layout_of_not_with :
    layout nested (first :: rest) =
      Layout.ofTokens (.ofTokens (first :: rest)) [] (first :: rest) := by
  simp [layout, heading, hwith]

theorem ctes_of_not_with : (build nested (first :: rest)).ctes = [] := by
  simp [ctes_build, heading, hwith]

theorem issues_build (h : IsFlat (first :: rest)) :
    (build nested (first :: rest)).issues =
      duplicateFroms false
          (Layout.ofTokens (.ofTokens (first :: rest)) [] (first :: rest)).regions ++
        (Sources.ofRegions nested false
          (Layout.ofTokens (.ofTokens (first :: rest)) [] (first :: rest)).regions).issues := by
  simp [build, hwith, h.isBalanced, CteList.forwardReferences]

/-- Behind the start of its last token the clause of a statement is that of its last region. -/
theorem clauseAt?_build {p : Position} (h : ∀ t ∈ first :: rest, t.start ≤ p) :
    (build nested (first :: rest)).clauseAt? p =
      (Layout.ofTokens (.ofTokens (first :: rest)) [] (first :: rest)).regions.getLast?.map
        Region.clause := by
  have hmap := map_clauseRanges (Range.ofTokens (first :: rest)).stop
    (layout nested (first :: rest)).regions
  rw [← clauses_build] at hmap
  have hall : ∀ c ∈ (build nested (first :: rest)).clauses, decide (c.range.start ≤ p) := by
    intro c hc
    rw [clauses_build] at hc
    obtain ⟨r, hr, -, hstart⟩ := exists_region_of_mem hc
    rw [hstart]
    exact decide_eq_true (h _ (head_mem_of_mem_regions hr))
  have hlast := congrArg (fun l => l.getLast?.map Prod.fst) hmap
  simp only [List.getLast?_map, Option.map_map] at hlast
  rw [clauseAt?, List.takeWhile_eq_self_iff.2 hall, ← layout_of_not_with nested hwith]
  exact hlast

end

/-- A `WHERE` clause begins at a `WHERE`. -/
theorem exists_where_of_clauseAt? {nested : List Token → Statement} {ts : List Token} {p : Position}
    (h : (build nested ts).clauseAt? p = some .filter) : ∃ t ∈ ts, t.isKeyword .WHERE := by
  obtain ⟨c, hc, hclause⟩ := Option.map_eq_some_iff.1 h
  have hmem := (List.takeWhile_sublist _).subset (List.mem_of_getLast? hc)
  rw [clauses_build] at hmem
  obtain ⟨r, hr, hfilter, -⟩ := exists_region_of_mem hmem
  refine ⟨r.head, head_mem_of_mem_regions hr, ?_⟩
  exact Layout.isKeyword_of_filter hr (hfilter.symm.trans hclause)

end Statement

/-- A statement with nothing nested in it is its only scope. -/
theorem ScopeTree.pathAt_of_nested {s : Statement} (hctes : s.ctes = [])
    (hsubqueries : s.subqueries = []) (maxDepth : Nat) (p : Position) :
    (build maxDepth s).pathAt p = [.ofStatement s] := by
  have hinner : (Scope.ofStatement s).inner = [] := by
    simp [Scope.inner, Scope.ofStatement, hctes, hsubqueries]
  rw [build, pathAt]
  cases maxDepth with
  | zero => rfl
  | succ levels =>
      rw [grow, hinner]
      rfl

end Tsql
