import Tsql.Proofs.Scope.Paths
import Tsql.Proofs.Statement.Marks
import Tsql.Token.Lexer

/-!
Which references mean common table expressions.

A statement is marked from the outside in, with a growing list of names; the expressions that a scope
sees are gathered from the inside out, with a limit for the bodies of one `WITH`. Both come to the same
names (`PathOf.isMarked`), so a reference is marked if and only if it may mean an expression and
its scope sees one of its name (`isCte_iff_visibleCtes`).
-/

namespace Tsql

theorem TableRef.mayBeCte_iff {t : TableRef} :
    t.mayBeCte ↔
      t.schema = none ∧ t.database = none ∧ t.isDerived = false ∧ t.isFunction = false := by
  simp [mayBeCte, and_assoc]

namespace Scope

/-- Leaving out elements without the property does not change which one has it first. -/
theorem find?_filter_of_imp {α : Type} {p q : α → Bool} (h : ∀ a, q a → p a) (as : List α) :
    (as.filter p).find? q = as.find? q := by
  have hkept : (fun a => decide (p a = true ∧ q a = true)) = q := by
    funext a
    cases hq : q a with
    | false => simp
    | true => simp [h a hq]
  rw [List.find?_filter, hkept]

/-- Leaving out expressions of an earlier name does not change which one a name finds. -/
theorem find?_distinctCtes (name : String) (cs : List Cte) :
    ((distinctCtes cs).find? fun c => Ident.same c.name name) =
      cs.find? fun c => Ident.same c.name name := by
  induction cs with
  | nil => rfl
  | cons c cs ih =>
      rw [distinctCtes, List.find?_cons, List.find?_cons]
      by_cases hc : Ident.same c.name name
      · rw [hc]
      · simp only [hc]
        rw [find?_filter_of_imp, ih]
        intro d hd
        have hcd : ¬ Ident.same c.name d.name := fun h => hc (Ident.same_trans h hd)
        simpa using hcd

/-- The expression of a name that a scope sees is the first one that is declared around it. -/
theorem find?_visibleCtes (name : String) (path : List Scope) :
    ((visibleCtes path).find? fun c => Ident.same c.name name) =
      (declaredCtes none path).find? fun c => Ident.same c.name name :=
  find?_distinctCtes name _

theorem exists_mem_visibleCtes {name : String} {path : List Scope} :
    (∃ c ∈ visibleCtes path, Ident.same c.name name) ↔
      ∃ c ∈ declaredCtes none path, Ident.same c.name name := by
  have hfind := congrArg Option.isSome (find?_visibleCtes name path)
  rw [Bool.eq_iff_iff, List.find?_isSome, List.find?_isSome] at hfind
  exact hfind

/-- The statement of the scope is marked with the names of the expressions declared around it. -/
def IsMarked (scope : Scope) (outer : List Scope) : Prop :=
  ∃ (s : Statement) (names : List String),
    scope.statement = s.markedIn names ∧
      (∀ n ∈ s.all, ∀ t ∈ n.tables, t.isCte = false) ∧
        ∀ name, name ∈ names ↔ name ∈ (declaredCtes scope.horizon outer).map Cte.name

/-- The names that a body is marked with are those of the expressions up to its horizon. -/
theorem mem_namesInBody {cs : List Cte} {c : Cte} {i : Nat} (h : cs[i]? = some c)
    (names : List String) (name : String) :
    name ∈ c.namesInBody (names ++ (cs.take i).map Cte.name) ↔
      name ∈ (cs.take (if c.isRecursive then i + 1 else i)).map Cte.name ∨ name ∈ names := by
  unfold Cte.namesInBody
  split
  · have htake : cs.take (i + 1) = cs.take i ++ [c] := by
      rw [List.take_add_one, h]
      rfl
    rw [htake, List.map_append, List.mem_append, List.mem_append, List.mem_append]
    exact or_assoc.trans or_comm
  · rw [List.mem_append]
    exact or_comm

theorem IsMarked.inside {scope inner : Scope} {outer : List Scope} (h : scope.IsMarked outer)
    (hinner : inner ∈ scope.inner) (id : Nat) :
    IsMarked { inner with id := id } (scope :: outer) := by
  obtain ⟨s, names, hscope, hplain, hnames⟩ := h
  have hctes : scope.statement.ctes = Cte.markedIn names s.ctes := by
    rw [hscope, Statement.ctes_markedIn]
  rcases mem_inner.1 hinner with ⟨i, c, hc, rfl⟩ | ⟨q, hq, rfl⟩
  · -- a body sees its own list up to its horizon
    rw [hctes, Cte.getElem?_markedIn] at hc
    obtain ⟨d, hd, rfl⟩ := Option.map_eq_some_iff.1 hc
    have hbody : d.body ∈ s.nested :=
      List.mem_append_left _ (List.mem_map_of_mem (List.mem_of_getElem? hd))
    refine ⟨d.body, _, rfl, fun n hn => hplain n (Statement.mem_all_of_nested hbody hn), ?_⟩
    intro name
    rw [mem_namesInBody hd, hnames]
    simp only [ofCte, declaredCtes, Option.elim_some, hctes, List.map_append, List.map_take,
      Cte.map_name_markedIn, List.mem_append]
  · -- a query in parentheses sees all of it
    rw [hscope, Statement.subqueries_markedIn] at hq
    obtain ⟨p, hp, rfl⟩ := List.mem_map.1 hq
    have hbody : p.body ∈ s.nested := List.mem_append_right _ (List.mem_map_of_mem hp)
    refine ⟨p.body, _, rfl, fun n hn => hplain n (Statement.mem_all_of_nested hbody hn), ?_⟩
    intro name
    simp only [ofSubquery, declaredCtes, Option.elim_none, hctes, List.map_append,
      Cte.map_name_markedIn, List.mem_append, hnames]
    exact or_comm

/-- Every scope of a parsed statement is marked. -/
theorem PathOf.isMarked {ts : List Token} {scope : Scope} {outer : List Scope}
    (h : PathOf (Statement.parse ts) (scope :: outer)) : scope.IsMarked outer := by
  generalize hpath : scope :: outer = path at h
  induction h generalizing scope outer with
  | statement =>
      obtain ⟨rfl, rfl⟩ := List.cons.inj hpath
      refine ⟨_, [], rfl, ?_, fun name => Iff.rfl⟩
      exact Statement.isCte_of_mem_all_ofQuery Statement.maxNesting ts
  | inside h hinner id ih =>
      obtain ⟨rfl, rfl⟩ := List.cons.inj hpath
      exact (ih rfl).inside hinner id

theorem IsMarked.isCte_iff {scope : Scope} {outer : List Scope} (h : scope.IsMarked outer) :
    ∀ t ∈ scope.statement.tables, t.isCte ↔
      t.mayBeCte ∧ ∃ c ∈ visibleCtes (scope :: outer), Ident.same c.name t.name := by
  obtain ⟨s, names, hscope, hplain, hnames⟩ := h
  intro t ht
  rw [hscope, Statement.tables_markedIn] at ht
  obtain ⟨u, hu, rfl⟩ := List.mem_map.1 ht
  have hctes : scope.statement.ctes.map Cte.name = s.ctes.map Cte.name := by
    rw [hscope, Statement.ctes_markedIn, Cte.map_name_markedIn]
  have hdeclared : ∀ name, name ∈ names ++ s.ctes.map Cte.name ↔
      name ∈ (declaredCtes none (scope :: outer)).map Cte.name := by
    intro name
    rw [declaredCtes, List.map_append, List.mem_append, List.mem_append, hnames, Option.elim_none,
      hctes]
    exact or_comm
  rw [TableRef.isCte_markedIn _ (hplain s s.mem_all_self u hu), TableRef.mayBeCte_markedIn,
    TableRef.name_markedIn, exists_mem_visibleCtes]
  refine and_congr_right fun _ => ?_
  constructor
  · rintro ⟨name, hname, hsame⟩
    obtain ⟨c, hc, rfl⟩ := List.mem_map.1 ((hdeclared name).1 hname)
    exact ⟨c, hc, hsame⟩
  · rintro ⟨c, hc, hsame⟩
    exact ⟨c.name, (hdeclared _).2 (List.mem_map_of_mem hc), hsame⟩

/-- A name of a visible expression is looked up without an error. -/
theorem exists_resolveCte {name : String} {path : List Scope}
    (h : ∃ c ∈ visibleCtes path, Ident.same c.name name) :
    ∃ c, resolveCte name path = .ok (some c) := by
  obtain ⟨c, hc⟩ := Option.isSome_iff_exists.1 (List.find?_isSome.2 h)
  refine ⟨c, ?_⟩
  unfold resolveCte
  rw [hc]

/-- In a parsed statement exactly those references are marked that may mean a common table expression
and have the name of one that their scope sees; and each of them finds one. -/
theorem isCte_iff_visibleCtes {ts : List Token} {maxDepth id : Nat} {scope : Scope}
    {outer : List Scope}
    (h : (ScopeTree.build maxDepth (Statement.parse ts)).path id = .ok (scope :: outer)) :
    ∀ t ∈ scope.statement.tables,
      (t.isCte ↔ t.schema = none ∧ t.database = none ∧ t.isDerived = false ∧
        t.isFunction = false ∧ ∃ c ∈ visibleCtes (scope :: outer), Ident.same c.name t.name) ∧
      (t.isCte → ∃ c, resolveCte t.name (scope :: outer) = .ok (some c)) := by
  have hpath := ScopeTree.pathOf_of_mem_paths (ScopeTree.mem_paths_of_path h)
  intro t ht
  have hiff := hpath.isMarked.isCte_iff t ht
  refine ⟨?_, fun hcte => exists_resolveCte (hiff.1 hcte).2⟩
  rw [hiff, TableRef.mayBeCte_iff]
  simp only [and_assoc]

/-- In the second of two bodies the reference to the first one is marked. -/
theorem isCte_iff_visibleCtes_chained :
    let tree := ScopeTree.build ScopeTree.defaultDepth (Statement.parse (tokenize
      "WITH a AS (SELECT 1 AS x), b AS (SELECT * FROM a JOIN dbo.a c ON 1 = 1) SELECT * FROM b"))
    ∃ scope outer, tree.path 2 = .ok (scope :: outer) ∧ scope.name = some "b" ∧
      (∃ t ∈ scope.statement.tables, t.isCte) ∧
      ∀ t ∈ scope.statement.tables,
        (t.isCte ↔ t.schema = none ∧ t.database = none ∧ t.isDerived = false ∧
          t.isFunction = false ∧ ∃ c ∈ visibleCtes (scope :: outer), Ident.same c.name t.name) ∧
        (t.isCte → ∃ c, resolveCte t.name (scope :: outer) = .ok (some c)) := by
  intro tree
  have hfound : tree.paths[2]?.any fun path => path.head?.any fun scope =>
      scope.name = some "b" && scope.statement.tables.any TableRef.isCte := by
    decide +kernel
  obtain ⟨path, hpath, hhead⟩ := (Option.any_eq_true _ _).1 hfound
  obtain ⟨scope, hscope, hfacts⟩ := (Option.any_eq_true _ _).1 hhead
  obtain ⟨hname, hmarked⟩ := Bool.and_eq_true_iff.1 hfacts
  obtain ⟨outer, rfl⟩ := List.head?_eq_some_iff.1 hscope
  have hid : tree.path 2 = .ok (scope :: outer) := by rw [ScopeTree.path, hpath]
  exact ⟨scope, outer, hid, of_decide_eq_true hname, List.any_eq_true.1 hmarked,
    isCte_iff_visibleCtes hid⟩

end Scope

end Tsql
