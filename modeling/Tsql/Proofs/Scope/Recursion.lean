import Tsql.Proofs.Scope.Frames
import Tsql.Proofs.Statement.Issues

/-!
Common table expressions that refer to themselves.

An expression is flagged as recursive by a search for its name in its body, before any reference is
marked. The search asks less than a mark does: it passes over a database in front of the name, over
calls of functions, and over a `WITH` in the body that declares the name again. `isRecursive_iff` gives
both sides: what is found by the search, and which references in the body are bound to the expression.
-/

namespace Tsql

/-! ### The search for a name -/

/-- What the search for references to a name asks of a table. -/
def TableRef.Resembles (t : TableRef) (name : String) : Prop :=
  t.schema = none ∧ t.isDerived = false ∧ Ident.same t.name name

theorem TableRef.resembles_markedIn {t : TableRef} {name : String} (visible : List String) :
    (t.markedIn visible).Resembles name ↔ t.Resembles name := by
  unfold Resembles markedIn
  split <;> rfl

namespace Statement

variable {s : Statement} {name : String}

theorem refersTo_iff :
    s.refersTo name ↔ ∃ n ∈ s.all, ∃ t ∈ n.tables, t.Resembles name := by
  simp [refersTo, TableRef.Resembles, and_assoc]

/-- Marking keeps what is nested in a statement. -/
theorem exists_markedIn_mem_nested (visible : List String) {n : Statement} (h : n ∈ s.nested) :
    ∃ names, n.markedIn names ∈ (s.markedIn visible).nested := by
  rcases List.mem_append.1 h with h | h
  · obtain ⟨c, hc, rfl⟩ := List.mem_map.1 h
    obtain ⟨i, hi⟩ := List.mem_iff_getElem?.1 hc
    have hmarked := Cte.getElem?_markedIn visible s.ctes i
    rw [hi, Option.map_some, ← ctes_markedIn] at hmarked
    exact ⟨_, List.mem_append_left _ (List.mem_map.2 ⟨_, List.mem_of_getElem? hmarked, rfl⟩)⟩
  · obtain ⟨q, hq, rfl⟩ := List.mem_map.1 h
    have hmarked := List.mem_map_of_mem (f := Subquery.markedIn (visible ++ s.ctes.map Cte.name)) hq
    rw [← subqueries_markedIn] at hmarked
    exact ⟨_, List.mem_append_right _ (List.mem_map.2 ⟨_, hmarked, rfl⟩)⟩

theorem refersTo_markedIn (visible : List String) (s : Statement) (name : String) :
    (s.markedIn visible).refersTo name = s.refersTo name := by
  have hkeeps : ∀ (n : Statement) names, (∀ t ∈ (n.markedIn names).tables, ¬ t.Resembles name) ↔
      ∀ t ∈ n.tables, ¬ t.Resembles name := by
    intro n names
    rw [tables_markedIn, List.forall_mem_map]
    simp only [TableRef.resembles_markedIn]
  have hiff : (∀ n ∈ (s.markedIn visible).all, ∀ t ∈ n.tables, ¬ t.Resembles name) ↔
      ∀ n ∈ s.all, ∀ t ∈ n.tables, ¬ t.Resembles name := by
    constructor
    · refine forall_all_of_related (R := fun n m => ∃ names, n.markedIn names = m) ?_ ?_ ⟨_, rfl⟩
      · rintro n _ ⟨names, rfl⟩ n' hn'
        obtain ⟨names', hmem⟩ := exists_markedIn_mem_nested names hn'
        exact ⟨_, hmem, names', rfl⟩
      · rintro n _ ⟨names, rfl⟩ h
        exact (hkeeps n names).1 h
    · refine forall_all_of_related (R := fun n m => ∃ names, n = m.markedIn names) ?_ ?_ ⟨_, rfl⟩
      · rintro _ m ⟨names, rfl⟩ n' hn'
        obtain ⟨m', hmem, names', heq⟩ := exists_of_mem_nested_markedIn hn'
        exact ⟨m', hmem, names', heq⟩
      · rintro _ m ⟨names, rfl⟩ h
        exact (hkeeps m names).2 h
  rw [Bool.eq_iff_iff, refersTo_iff, refersTo_iff]
  simpa using not_congr hiff

/-- The expressions of the statement are flagged by a search for their names. -/
def FlagsRecursion (s : Statement) : Prop :=
  ∀ c ∈ s.ctes, c.isRecursive = c.body.refersTo c.name

theorem refersTo_empty (name : String) : refersTo name {} = false := by
  simp [refersTo, all_eq, nested]

theorem flagsRecursion_build (nested : List Token → Statement) (ts : List Token) :
    (build nested ts).FlagsRecursion := by
  have hone : ∀ name us, ∀ c ∈ (CteList.one nested name us).ctes,
      c.isRecursive = c.body.refersTo c.name := by
    intro name us c hc
    rcases CteList.one_cases nested name us with ⟨t, vs, -, -, -, heq⟩ | ⟨vs, -, heq⟩
    · obtain rfl := List.mem_singleton.1 (heq ▸ hc)
      rfl
    · obtain rfl := List.mem_singleton.1 (heq ▸ hc)
      exact (refersTo_empty _).symm
  have hlist : ∀ us, ∀ c ∈ (CteList.ofTokens nested us).ctes,
      c.isRecursive = c.body.refersTo c.name := by
    intro us
    fun_induction CteList.ofTokens nested us with
    | case1 => exact fun c hc => absurd hc List.not_mem_nil
    | case2 name rest hname first comma more heq hcomma ih =>
        exact fun c hc => (List.mem_append.1 hc).elim (hone name rest c) (ih c)
    | case3 name rest hname => exact hone name rest
    | case4 name rest hname => exact hone name rest
    | case5 => exact fun c hc => absurd hc List.not_mem_nil
  intro c hc
  rw [ctes_build] at hc
  unfold heading at hc
  split at hc
  · exact absurd hc List.not_mem_nil
  · split at hc
    · exact hlist _ c hc
    · exact absurd hc List.not_mem_nil

theorem FlagsRecursion.markedIn (h : s.FlagsRecursion) (visible : List String) :
    (s.markedIn visible).FlagsRecursion := by
  intro c hc
  rw [ctes_markedIn] at hc
  obtain ⟨i, hi⟩ := List.mem_iff_getElem?.1 hc
  rw [Cte.getElem?_markedIn] at hi
  obtain ⟨d, hd, rfl⟩ := Option.map_eq_some_iff.1 hi
  exact (h d (List.mem_of_getElem? hd)).trans (refersTo_markedIn _ _ _).symm

theorem flagsRecursion_parse (ts : List Token) : ∀ n ∈ (parse ts).all, n.FlagsRecursion :=
  forall_all_parse flagsRecursion_build (fun _ _ hc => absurd hc List.not_mem_nil)
    (fun _ visible h => h.markedIn visible) ts

/-- Below the statement a recursive expression without `UNION ALL` is reported for an expression of the
statement itself. -/
theorem exists_isRecursive_of_mem_issues (ts : List Token) :
    ∀ n ∈ (parse ts).all, ∀ name r, ⟨.recursiveCteWithoutUnionAll name, r⟩ ∈ n.issues →
      ∃ c ∈ n.ctes, c.name = name ∧ c.range.start = r.start ∧ c.isRecursive := by
  refine forall_all_parse (fun nested us name r h => exists_of_recursiveCteWithoutUnionAll h)
    (fun _ _ _ h => absurd h List.not_mem_nil) (fun s visible h name r hissue => ?_) ts
  rw [Statement.markedIn] at hissue
  obtain ⟨c, hc, hname, hstart, hrecursive⟩ := h name r hissue
  obtain ⟨i, hi⟩ := List.mem_iff_getElem?.1 hc
  have hmarked := Cte.getElem?_markedIn visible s.ctes i
  rw [hi, Option.map_some, ← ctes_markedIn] at hmarked
  exact ⟨_, List.mem_of_getElem? hmarked, hname, hstart, hrecursive⟩

end Statement

theorem Statement.sizeOf_le_of_mem_all {s n : Statement} (h : n ∈ s.all) : sizeOf n ≤ sizeOf s := by
  induction s using Statement.induction with
  | step s ih =>
      rw [all_eq] at h
      rcases List.mem_cons.1 h with rfl | h
      · exact Nat.le_refl _
      · obtain ⟨m, hm, h⟩ := List.mem_flatMap.1 h
        exact Nat.le_trans (ih m hm h) (Nat.le_of_lt (sizeOf_nested_lt hm))

/-! ### Places in a body -/

namespace Scope

theorem exists_mem_inner_of_mem_nested {scope : Scope} {n : Statement}
    (h : n ∈ scope.statement.nested) : ∃ inner ∈ scope.inner, inner.statement = n := by
  rcases List.mem_append.1 h with h | h
  · obtain ⟨c, hc, rfl⟩ := List.mem_map.1 h
    obtain ⟨i, hi⟩ := List.mem_iff_getElem?.1 hc
    exact ⟨_, mem_inner.2 (.inl ⟨i, c, hi, rfl⟩), rfl⟩
  · obtain ⟨q, hq, rfl⟩ := List.mem_map.1 h
    exact ⟨_, mem_inner.2 (.inr ⟨q, hq, rfl⟩), rfl⟩

/-- Where a kind of places includes the scopes inside each, it includes one for every statement that is
nested in the statement of such a place. -/
theorem exists_of_mem_all {P : List Scope → Prop}
    (hinside : ∀ {here inner : Scope} {around : List Scope}, P (here :: around) →
      inner ∈ here.inner → P (inner :: here :: around))
    {here : Scope} {around : List Scope} (h : P (here :: around)) {n : Statement}
    (hn : n ∈ here.statement.all) : ∃ here' around', P (here' :: around') ∧ here'.statement = n := by
  generalize hs : here.statement = m at hn
  induction m using Statement.induction generalizing here around with
  | step m ih =>
      subst hs
      rw [Statement.all_eq] at hn
      rcases List.mem_cons.1 hn with rfl | hn
      · exact ⟨here, around, h, rfl⟩
      · obtain ⟨m, hm, hn⟩ := List.mem_flatMap.1 hn
        obtain ⟨inner, hinner, rfl⟩ := exists_mem_inner_of_mem_nested hm
        exact ih _ hm (hinside h hinner) rfl hn

/-- The scopes from a place in the body of an expression out to the body, where the expression is
number `i` in the `WITH` of the scope. -/
inductive BodyPath (scope : Scope) (i : Nat) (c : Cte) : List Scope → Prop
  | body (id : Nat) : BodyPath scope i c [{ scope.ofCte i c with id := id }]
  | inside {here inner : Scope} {around : List Scope} (h : BodyPath scope i c (here :: around))
      (hinner : inner ∈ here.inner) (id : Nat) :
      BodyPath scope i c ({ inner with id := id } :: here :: around)

namespace BodyPath

variable {scope here : Scope} {i : Nat} {c : Cte} {path around outer : List Scope} {s : Statement}

theorem pathOf (h : BodyPath scope i c path) (hscope : PathOf s (scope :: outer))
    (hc : scope.statement.ctes[i]? = some c) : PathOf s (path ++ scope :: outer) := by
  induction h with
  | body id => exact hscope.inside (mem_inner.2 (.inl ⟨i, c, hc, rfl⟩)) id
  | inside h hinner id ih => exact .inside ih hinner id

theorem statement_mem (h : BodyPath scope i c path) : ∀ p ∈ path, p.statement ∈ c.body.all := by
  induction h with
  | body id =>
      intro p hp
      obtain rfl := List.mem_singleton.1 hp
      exact c.body.mem_all_self
  | inside h hinner id ih =>
      have hin := Statement.mem_all_of_nested (statement_mem_nested hinner) (Statement.mem_all_self _)
      exact List.forall_mem_cons.2 ⟨Statement.mem_all_trans (ih _ List.mem_cons_self) hin, ih⟩

/-- Seen from a place in the body, what is declared in it comes before what the body sees. -/
theorem declaredCtes_append (h : BodyPath scope i c path) (horizon : Option Nat)
    (outer : List Scope) :
    declaredCtes horizon (path ++ scope :: outer) =
      declaredCtes horizon path ++
        declaredCtes (some (if c.isRecursive then i + 1 else i)) (scope :: outer) := by
  induction h generalizing horizon with
  | body id => simp [declaredCtes, ofCte]
  | inside h hinner id ih =>
      rw [List.cons_append, declaredCtes, declaredCtes, ih, List.append_assoc]

/-- What is declared in the body is not the expression itself. -/
theorem not_mem_declaredCtes (h : BodyPath scope i c path) (horizon : Option Nat) :
    c ∉ declaredCtes horizon path := by
  intro hc
  obtain ⟨p, hp, hmem⟩ := exists_of_mem_declaredCtes hc
  have hlt := Statement.sizeOf_cte_lt hmem
  have hle := Statement.sizeOf_le_of_mem_all (h.statement_mem p hp)
  omega

end BodyPath

/-! ### References that are bound to an expression -/

variable {ts : List Token} {scope here : Scope} {i : Nat} {c : Cte} {around outer : List Scope}

/-- The reference is marked, and its name means the expression where it stands. -/
def Binds (t : TableRef) (path : List Scope) (c : Cte) : Prop :=
  t.isCte ∧ resolveCte t.name path = .ok (some c)

theorem binds_iff {t : TableRef} {path : List Scope} :
    Binds t path c ↔
      t.isCte ∧ (declaredCtes none path).find? (fun d => Ident.same d.name t.name) = some c := by
  refine and_congr_right fun _ => ?_
  rw [← find?_visibleCtes, resolveCte]
  cases (visibleCtes path).find? fun d => Ident.same d.name t.name with
  | some d => simp
  | none =>
      simp only [reduceCtorEq, iff_false]
      split <;> simp

/-- The flag stands for the references that the search finds. -/
theorem isRecursive_iff_resembles (hscope : PathOf (Statement.parse ts) (scope :: outer))
    (hc : scope.statement.ctes[i]? = some c) :
    c.isRecursive ↔ ∃ here around, BodyPath scope i c (here :: around) ∧
      ∃ t ∈ here.statement.tables, t.Resembles c.name := by
  have hmem := hscope.pathWithin scope List.mem_cons_self
  rw [Statement.flagsRecursion_parse ts _ hmem c (List.mem_of_getElem? hc), Statement.refersTo_iff]
  constructor
  · rintro ⟨n, hn, t, ht, hresembles⟩
    obtain ⟨here, around, hpath, rfl⟩ := exists_of_mem_all (P := BodyPath scope i c)
      (fun h hinner => h.inside hinner _) (.body 0) hn
    exact ⟨here, around, hpath, t, ht, hresembles⟩
  · rintro ⟨here, around, hpath, t, ht, hresembles⟩
    exact ⟨_, hpath.statement_mem here List.mem_cons_self, t, ht, hresembles⟩

/-- The reference may mean an expression, and the name is not declared between it and the `WITH` of the
expression, which declares this one as the first of the name. -/
structure Reaches (t : TableRef) (path : List Scope) (scope : Scope) (c : Cte) : Prop where
  mayBeCte : t.mayBeCte
  free : ∀ d ∈ declaredCtes none path, ¬ Ident.same d.name t.name
  first : (scope.statement.ctes.find? fun d => Ident.same d.name t.name) = some c

theorem Reaches.resembles {t : TableRef} {path : List Scope} (h : Reaches t path scope c) :
    t.Resembles c.name := by
  obtain ⟨hschema, -, hderived, -⟩ := TableRef.mayBeCte_iff.1 h.mayBeCte
  have hname := List.find?_some h.first
  exact ⟨hschema, hderived, (Ident.same_comm t.name c.name).trans hname⟩

/-- Up to its own number a list has the first expression of a name already. -/
theorem find?_take {name : String} (hc : scope.statement.ctes[i]? = some c)
    (hname : Ident.same c.name name) :
    ((scope.statement.ctes.take (i + 1)).find? fun d => Ident.same d.name name) =
      scope.statement.ctes.find? fun d => Ident.same d.name name := by
  have hmem : c ∈ scope.statement.ctes.take (i + 1) :=
    List.mem_of_getElem? (i := i) (by rw [List.getElem?_take_of_lt (Nat.lt_succ_self i), hc])
  have hsome : ((scope.statement.ctes.take (i + 1)).find? fun d => Ident.same d.name name).isSome :=
    List.find?_isSome.2 ⟨c, hmem, hname⟩
  obtain ⟨d, hd⟩ := Option.isSome_iff_exists.1 hsome
  have hsplit : (scope.statement.ctes.take (i + 1) ++ scope.statement.ctes.drop (i + 1)).find?
      (fun d => Ident.same d.name name) = _ := List.find?_append
  rw [List.take_append_drop, hd, Option.some_or] at hsplit
  rw [hd, hsplit]

/-- In the body of a recursive expression a name that is not declared there means the first expression
of its `WITH`, if this one has the name too. -/
theorem BodyPath.find?_declaredCtes {path : List Scope} (h : BodyPath scope i c path)
    (hc : scope.statement.ctes[i]? = some c) (hrecursive : c.isRecursive) {name : String}
    (hname : Ident.same c.name name) :
    (declaredCtes none (path ++ scope :: outer)).find? (fun d => Ident.same d.name name) =
      ((declaredCtes none path).find? fun d => Ident.same d.name name).or
        (scope.statement.ctes.find? fun d => Ident.same d.name name) := by
  have hsome : (scope.statement.ctes.find? fun d => Ident.same d.name name).isSome :=
    List.find?_isSome.2 ⟨c, List.mem_of_getElem? hc, hname⟩
  obtain ⟨d, hd⟩ := Option.isSome_iff_exists.1 hsome
  rw [h.declaredCtes_append, List.find?_append, declaredCtes, List.find?_append, Option.elim_some,
    if_pos hrecursive, find?_take hc hname, hd, Option.some_or]

/-- Which references in the body of an expression are bound to it. -/
theorem BodyPath.binds_iff (h : BodyPath scope i c (here :: around))
    (hscope : PathOf (Statement.parse ts) (scope :: outer))
    (hc : scope.statement.ctes[i]? = some c) {t : TableRef} (ht : t ∈ here.statement.tables) :
    Binds t (here :: around ++ scope :: outer) c ↔ Reaches t (here :: around) scope c := by
  have hmarked := (h.pathOf hscope hc).isMarked.isCte_iff t ht
  have hrecursive : t.Resembles c.name → c.isRecursive := fun hresembles =>
    (isRecursive_iff_resembles hscope hc).2 ⟨here, around, h, t, ht, hresembles⟩
  rw [Scope.binds_iff]
  constructor
  · rintro ⟨hmark, hfind⟩
    have hname := List.find?_some hfind
    have hmayBe := (hmarked.1 hmark).1
    obtain ⟨hschema, -, hderived, -⟩ := TableRef.mayBeCte_iff.1 hmayBe
    have hself := hrecursive ⟨hschema, hderived, (Ident.same_comm t.name c.name).trans hname⟩
    rw [h.find?_declaredCtes hc hself hname] at hfind
    rcases Option.or_eq_some_iff.1 hfind with hinner | ⟨hfree, hfirst⟩
    · exact absurd (List.mem_of_find?_eq_some hinner) (h.not_mem_declaredCtes none)
    · exact ⟨hmayBe, List.find?_eq_none.1 hfree, hfirst⟩
  · intro hreaches
    have hname := List.find?_some hreaches.first
    have hself := hrecursive hreaches.resembles
    have hfind : (declaredCtes none (here :: around ++ scope :: outer)).find?
        (fun d => Ident.same d.name t.name) = some c := by
      rw [h.find?_declaredCtes hc hself hname, List.find?_eq_none.2 hreaches.free, Option.none_or,
        hreaches.first]
    refine ⟨hmarked.2 ⟨hreaches.mayBeCte, ?_⟩, hfind⟩
    exact exists_mem_visibleCtes.2 ⟨c, List.mem_of_find?_eq_some hfind, hname⟩

/-- In every statement of a parsed statement, wherever it stands, an expression is flagged if and only if
its name, without a schema, is that of a table in its body. A reference in the body is bound to the
expression under stricter conditions, so an expression with such a reference is flagged, but not only
such an expression; and only flagged expressions are reported to lack `UNION ALL`. -/
theorem isRecursive_iff (ts : List Token) {n : Statement} (hn : n ∈ (Statement.parse ts).all) :
    (∃ scope outer, PathOf (Statement.parse ts) (scope :: outer) ∧ scope.statement = n) ∧
    (∀ scope outer, PathOf (Statement.parse ts) (scope :: outer) → scope.statement = n →
      ∀ i c, n.ctes[i]? = some c →
        (c.isRecursive ↔ ∃ here around, BodyPath scope i c (here :: around) ∧
          ∃ t ∈ here.statement.tables, t.Resembles c.name) ∧
        (∀ here around, BodyPath scope i c (here :: around) → ∀ t ∈ here.statement.tables,
          (Binds t (here :: around ++ scope :: outer) c ↔ Reaches t (here :: around) scope c) ∧
            (Binds t (here :: around ++ scope :: outer) c → c.isRecursive))) ∧
    ∀ name r, ⟨.recursiveCteWithoutUnionAll name, r⟩ ∈ n.issues →
      ∃ c ∈ n.ctes, c.name = name ∧ c.range.start = r.start ∧ c.isRecursive := by
  refine ⟨?_, ?_, Statement.exists_isRecursive_of_mem_issues ts n hn⟩
  · exact exists_of_mem_all (P := PathOf (Statement.parse ts)) (fun h hinner => .inside h hinner _)
      .statement hn
  · rintro scope outer hscope rfl i c hc
    have hflag := isRecursive_iff_resembles hscope hc
    refine ⟨hflag, fun here around h t ht => ?_⟩
    have hbinds := h.binds_iff hscope hc ht
    exact ⟨hbinds, fun hb => hflag.2 ⟨here, around, h, t, ht, (hbinds.1 hb).resembles⟩⟩

/-- The second member of the body refers to the expression. -/
theorem isRecursive_iff_member :
    let s := Statement.parse (tokenize
      "WITH t AS (SELECT 1 AS x UNION ALL SELECT x FROM t) SELECT x FROM t")
    ∃ c ∈ s.ctes, c.isRecursive ∧ ∃ here, BodyPath (.ofStatement s) 0 c [here] ∧
      ∃ t ∈ here.statement.tables, Binds t [here, .ofStatement s] c := by
  intro s
  have hfound : s.ctes.length = 1 ∧ s.ctes.any fun c => c.body.tables.any fun t =>
      t.mayBeCte && c.body.ctes.isEmpty && Ident.same c.name t.name := by
    decide +kernel
  obtain ⟨c, hctes⟩ := List.length_eq_one_iff.1 hfound.1
  have hc : s.ctes[0]? = some c := by rw [hctes]; rfl
  obtain ⟨t, ht, ⟨hmayBe, hempty⟩, hname⟩ : ∃ t ∈ c.body.tables,
      (t.mayBeCte ∧ c.body.ctes = []) ∧ Ident.same c.name t.name := by
    simpa [hctes] using hfound.2
  have hreaches : Reaches t [{ Scope.ofCte (.ofStatement s) 0 c with id := 0 }] (.ofStatement s) c := by
    refine ⟨hmayBe, ?_, ?_⟩
    · simp [declaredCtes, ofCte, hempty]
    · simp [ofStatement, hctes, hname]
  obtain ⟨hflag, hrefs⟩ := (isRecursive_iff _ s.mem_all_self).2.1 _ _ .statement rfl 0 c hc
  obtain ⟨hbinds, hrecursive⟩ := hrefs _ _ (.body 0) t ht
  have hbound := hbinds.2 hreaches
  exact ⟨c, List.mem_of_getElem? hc, hrecursive hbound, _, .body 0, t, ht, hbound⟩

/-- A table of another database in the body has the name of the expression, which is flagged and
reported, though no reference in the body is marked. -/
theorem isRecursive_of_other_database :
    let s := Statement.parse (tokenize "WITH t AS (SELECT a FROM db..t) SELECT a FROM t")
    ∃ c ∈ s.ctes, c.isRecursive ∧ (∀ n ∈ c.body.all, ∀ t ∈ n.tables, t.isCte = false) ∧
      ⟨.recursiveCteWithoutUnionAll "t", ⟨⟨1, 6⟩, ⟨1, 7⟩⟩⟩ ∈ s.issues := by
  decide +kernel

end Scope

end Tsql
