import Tsql.Scope.Tree

/-!
The scopes of a statement, each with the scopes around it.

`Scope.PathOf` says of a list of scopes that each is directly inside the next one and that the last is
the statement. Every node of a scope tree stands at the end of such a path, whatever the limit on the
depth (`pathOf_of_mem_paths`), so what a step into a scope keeps holds in the whole tree.
-/

namespace Tsql

namespace Statement

theorem mem_all_trans {s n q : Statement} (hn : n ∈ s.all) (hq : q ∈ n.all) : q ∈ s.all := by
  induction s using Statement.induction with
  | step s ih =>
      rw [all_eq] at hn
      rcases List.mem_cons.1 hn with rfl | hn
      · exact hq
      · obtain ⟨m, hm, hn⟩ := List.mem_flatMap.1 hn
        exact mem_all_of_nested hm (ih m hm hn)

end Statement

namespace Scope

/-- The scopes lead from one in the statement out to the statement itself. -/
inductive PathOf (s : Statement) : List Scope → Prop
  | statement : PathOf s [.ofStatement s]
  | inside {scope inner : Scope} {outer : List Scope} (h : PathOf s (scope :: outer))
      (hinner : inner ∈ scope.inner) (id : Nat) : PathOf s ({ inner with id := id } :: scope :: outer)

/-- The scope of the body of a common table expression that is number `i` in its `WITH`. -/
def ofCte (s : Scope) (i : Nat) (c : Cte) : Scope :=
  { id := 0
    kind := .cte
    statement := c.body
    name := some c.name
    range := c.range
    clause := some .ctes
    depth := s.depth + 1
    horizon := some (if c.isRecursive then i + 1 else i)
    isOpen := c.range.stop ≤ c.body.range.stop }

/-- The scope of a query in parentheses. -/
def ofSubquery (s : Scope) (q : Subquery) : Scope :=
  { id := 0
    kind := if q.kind = .derived then .derived else .subquery
    statement := q.body
    name := q.aliasName
    range := q.range
    clause := q.clause
    depth := s.depth + 1
    horizon := none
    isOpen := q.range.stop ≤ q.body.range.stop }

theorem inner_eq (s : Scope) :
    s.inner = (s.statement.ctes.zipIdx.map fun c => s.ofCte c.2 c.1) ++
      s.statement.subqueries.map s.ofSubquery := rfl

theorem mem_inner {s inner : Scope} :
    inner ∈ s.inner ↔
      (∃ i c, s.statement.ctes[i]? = some c ∧ inner = s.ofCte i c) ∨
        ∃ q ∈ s.statement.subqueries, inner = s.ofSubquery q := by
  rw [inner_eq, List.mem_append, List.mem_map, List.mem_map]
  apply or_congr
  · constructor
    · rintro ⟨⟨c, i⟩, hc, rfl⟩
      exact ⟨i, c, List.mem_zipIdx_iff_getElem?.1 hc, rfl⟩
    · rintro ⟨i, c, hc, rfl⟩
      exact ⟨(c, i), List.mem_zipIdx_iff_getElem?.2 hc, rfl⟩
  · constructor
    · rintro ⟨q, hq, rfl⟩
      exact ⟨q, hq, rfl⟩
    · rintro ⟨q, hq, rfl⟩
      exact ⟨q, hq, rfl⟩

theorem statement_mem_nested {s inner : Scope} (h : inner ∈ s.inner) :
    inner.statement ∈ s.statement.nested := by
  rcases mem_inner.1 h with ⟨i, c, hc, rfl⟩ | ⟨q, hq, rfl⟩
  · exact List.mem_append_left _ (List.mem_map.2 ⟨c, List.mem_of_getElem? hc, rfl⟩)
  · exact List.mem_append_right _ (List.mem_map.2 ⟨q, hq, rfl⟩)

/-- What is declared on a path is declared by the statement of one of its scopes. -/
theorem exists_of_mem_declaredCtes {horizon : Option Nat} {path : List Scope} {c : Cte}
    (h : c ∈ declaredCtes horizon path) : ∃ scope ∈ path, c ∈ scope.statement.ctes := by
  induction path generalizing horizon with
  | nil => simp [declaredCtes] at h
  | cons scope outer ih =>
      rcases List.mem_append.1 h with hown | houter
      · refine ⟨scope, List.mem_cons_self, ?_⟩
        cases horizon with
        | none => exact hown
        | some i => exact List.mem_of_mem_take hown
      · obtain ⟨o, ho, hc⟩ := ih houter
        exact ⟨o, List.mem_cons_of_mem scope ho, hc⟩

/-- The scopes are those of the statement and of statements nested in it. -/
def PathWithin (s : Statement) (path : List Scope) : Prop :=
  ∀ scope ∈ path, scope.statement ∈ s.all

namespace PathOf

variable {s : Statement} {outer path : List Scope}

/-- The scopes on a path are those of the statement and of statements nested in it. -/
theorem pathWithin (h : PathOf s path) : PathWithin s path := by
  induction h with
  | statement =>
      intro scope hscope
      obtain rfl := List.mem_singleton.1 hscope
      exact s.mem_all_self
  | inside h hinner id ih =>
      have hin := Statement.mem_all_of_nested (statement_mem_nested hinner) (Statement.mem_all_self _)
      exact List.forall_mem_cons.2 ⟨Statement.mem_all_trans (ih _ List.mem_cons_self) hin, ih⟩

/-- The statement of a scope is nested in those of the scopes around it. -/
theorem exists_nested {scope : Scope} (h : PathOf s (scope :: outer)) :
    ∀ o ∈ outer, ∃ n ∈ o.statement.nested, scope.statement ∈ n.all := by
  generalize hpath : scope :: outer = path at h
  induction h generalizing scope outer with
  | statement =>
      obtain ⟨rfl, rfl⟩ := List.cons.inj hpath
      exact fun o ho => absurd ho List.not_mem_nil
  | inside h hinner id ih =>
      obtain ⟨rfl, rfl⟩ := List.cons.inj hpath
      have hnested := statement_mem_nested hinner
      refine List.forall_mem_cons.2 ⟨⟨_, hnested, Statement.mem_all_self _⟩, fun o ho => ?_⟩
      obtain ⟨n, hn, hscope⟩ := ih rfl o ho
      have hin := Statement.mem_all_of_nested hnested (Statement.mem_all_self _)
      exact ⟨n, hn, Statement.mem_all_trans hscope hin⟩

theorem ne_nil (h : PathOf s path) : path ≠ [] := by
  cases h with
  | statement => exact List.cons_ne_nil _ _
  | inside h hinner id => exact List.cons_ne_nil _ _

/-- From a scope on the way the rest of the way is a path again. -/
theorem of_suffix (h : PathOf s path) (hsuffix : outer <:+ path) (hne : outer ≠ []) :
    PathOf s outer := by
  induction h with
  | statement =>
      rcases List.suffix_cons_iff.1 hsuffix with rfl | hnil
      · exact .statement
      · exact absurd (List.suffix_nil.1 hnil) hne
  | inside h hinner id ih =>
      rcases List.suffix_cons_iff.1 hsuffix with rfl | hsuffix
      · exact .inside h hinner id
      · exact ih hsuffix

end PathOf

end Scope

namespace ScopeTree

theorem pathsUnderAll_eq (outer : List Scope) (ts : List ScopeTree) :
    pathsUnderAll outer ts = ts.flatMap (pathsUnder outer) := by
  induction ts with
  | nil => rfl
  | cons t ts ih => rw [pathsUnderAll, ih, List.flatMap_cons]

theorem exists_of_mem_growAll {make : Scope → ScopeTree} {next : Nat} {ss : List Scope}
    {t : ScopeTree} (h : t ∈ growAll make next ss) :
    ∃ scope ∈ ss, ∃ id, t = make { scope with id := id } := by
  induction ss generalizing next with
  | nil => exact absurd h List.not_mem_nil
  | cons scope ss ih =>
      rcases List.mem_cons.1 h with rfl | h
      · exact ⟨scope, List.mem_cons_self, next, rfl⟩
      · obtain ⟨scope', hmem, hid⟩ := ih h
        exact ⟨scope', List.mem_cons_of_mem _ hmem, hid⟩

theorem pathOf_of_mem_pathsUnder {s : Statement} {levels : Nat} {scope : Scope}
    {outer path : List Scope} (h : Scope.PathOf s (scope :: outer))
    (hpath : path ∈ pathsUnder outer (grow levels scope)) : Scope.PathOf s path := by
  induction levels generalizing scope outer with
  | zero =>
      rw [grow, pathsUnder, pathsUnderAll] at hpath
      obtain rfl := List.mem_singleton.1 hpath
      exact h
  | succ levels ih =>
      rw [grow, pathsUnder, pathsUnderAll_eq] at hpath
      rcases List.mem_cons.1 hpath with rfl | hpath
      · exact h
      · obtain ⟨t, ht, hpath⟩ := List.mem_flatMap.1 hpath
        obtain ⟨inner, hinner, id, rfl⟩ := exists_of_mem_growAll ht
        exact ih (.inside h hinner id) hpath

theorem pathOf_of_mem_paths {s : Statement} {maxDepth : Nat} {path : List Scope}
    (h : path ∈ (build maxDepth s).paths) : Scope.PathOf s path :=
  pathOf_of_mem_pathsUnder .statement h

theorem mem_paths_of_path {tree : ScopeTree} {id : Nat} {path : List Scope}
    (h : tree.path id = .ok path) : path ∈ tree.paths := by
  unfold ScopeTree.path at h
  split at h
  · next hget =>
    obtain rfl := Except.ok.inj h
    exact List.mem_of_getElem? hget
  · contradiction

end ScopeTree

end Tsql
