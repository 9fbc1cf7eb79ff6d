import Tsql.Proofs.Statement.Kind
import Tsql.Statement.Region

/-!
The regions of a query with a set operator in it.

A set operator outside groups begins a region of its own, and a `SELECT` behind it begins the next
one. What is in front of the operator is cut as if nothing followed (`cut_append`), and in a query
what is behind it as if nothing came before (`cut_setOperation`).
-/

namespace Tsql

/-- The tokens start a query without common table expressions. -/
def startsSelect (ts : List Token) : Bool :=
  ts.head?.any fun t => t.isKeyword .SELECT

/-- The first word of a set operator. -/
def Token.isSetOperator (t : Token) : Bool :=
  t.isAnyKeyword [.UNION, .EXCEPT, .INTERSECT]

/-- The tokens are a set operator. -/
def isSetOperator : List Token → Bool
  | [t] => t.isSetOperator
  | [t, u] => t.isKeyword .UNION && u.isKeyword .ALL
  | _ => false

theorem Token.kind_of_isKeyword {t : Token} {word : Keyword} (h : t.isKeyword word) :
    t.kind = .keyword word :=
  of_decide_eq_true h

theorem Token.isAnyKeyword_of_ne {t : Token} (h : ∀ word, t.kind ≠ .keyword word)
    (words : List Keyword) : t.isAnyKeyword words = false := by
  unfold isAnyKeyword
  split
  · next word heq => exact absurd heq (h word)
  · rfl

/-- The token goes on with any clause: it opens no group, and the only keyword that it may be is
`AS`. -/
def Token.Continues (t : Token) : Prop :=
  t.isOpen = false ∧ ∀ word, t.kind = .keyword word → word = .AS

theorem Token.continues_of_ne {t : Token} (hopen : t.isOpen = false)
    (h : ∀ word, t.kind ≠ .keyword word) : t.Continues :=
  ⟨hopen, fun word heq => absurd heq (h word)⟩

theorem Token.exists_kind_of_isAnyKeyword {t : Token} {words : List Keyword}
    (h : t.isAnyKeyword words) :
    ∃ word ∈ words, t.kind = .keyword word := by
  unfold Token.isAnyKeyword at h
  split at h
  · next word heq => exact ⟨word, by simpa using h, heq⟩
  · contradiction

theorem Token.kind_of_isSetOperator {t : Token} (h : t.isSetOperator) :
    t.kind = .keyword .UNION ∨ t.kind = .keyword .EXCEPT ∨ t.kind = .keyword .INTERSECT := by
  unfold Token.isSetOperator Token.isAnyKeyword at h
  split at h
  · simpa [*] using h
  · contradiction

theorem Token.exists_kind_of_isSetOperator {t : Token} (h : t.isSetOperator) :
    ∃ word, t.kind = .keyword word := by
  rcases kind_of_isSetOperator h with hkind | hkind | hkind <;> exact ⟨_, hkind⟩

theorem isSetOperator_cons {t : Token} {ts : List Token} (h : isSetOperator (t :: ts)) :
    t.isSetOperator ∧ (ts = [] ∨ ∃ u, ts = [u] ∧ u.isKeyword .ALL) := by
  match ts, h with
  | [], ht => exact ⟨ht, .inl rfl⟩
  | [u], h =>
      obtain ⟨hunion, hall⟩ := Bool.and_eq_true_iff.1 h
      refine ⟨?_, .inr ⟨u, rfl, hall⟩⟩
      simp [Token.isSetOperator, Token.isAnyKeyword, Token.kind_of_isKeyword hunion]

namespace Region

/-! ### Clauses that keywords begin -/

theorem startsJoin_of_kind {t : Token} {word : Keyword} (h : t.kind = .keyword word)
    (hword : word ∉ joinWords) (following : List Token) : startsJoin t following = false := by
  simp [startsJoin, Token.isAnyKeyword, h, hword]

/-- No clause begins at the verb of a statement that changes a table. -/
theorem State.clause?_of_verb {s : State} {kind : StatementKind} {t : Token} {word : Keyword}
    {following : List Token} (hkind : t.kind = .keyword word) (hword : word ∈ Keyword.dmlWords) :
    s.clause? kind t word following = none := by
  simp only [Keyword.dmlWords, List.mem_cons, List.not_mem_nil, or_false] at hword
  unfold clause?
  rw [if_neg]
  · rcases hword with rfl | rfl | rfl | rfl | rfl <;> rfl
  · rw [startsJoin_of_kind hkind (by rcases hword with rfl | rfl | rfl | rfl | rfl <;> decide)]
    exact Bool.false_ne_true

/-- A set operator behind the tokens that follow a keyword changes nothing for it. -/
theorem State.clause?_append (s : State) (kind : StatementKind) (t : Token) (word : Keyword)
    (ts : List Token) {u : Token} (hu : u.isSetOperator) (more : List Token) :
    s.clause? kind t word (ts ++ u :: more) = s.clause? kind t word ts := by
  cases ts with
  | nil =>
      rcases Token.kind_of_isSetOperator hu with hkind | hkind | hkind <;>
        simp [clause?, startsJoin, startsOpen, Token.isOpen, Token.isKeyword, hkind]
  | cons t' ts => rfl

theorem State.clause?_of_isSetOperator (s : State) (kind : StatementKind) {t : Token}
    {word : Keyword} (h : t.isSetOperator) (hword : t.kind = .keyword word)
    (following : List Token) : s.clause? kind t word following = some .setOperation := by
  rcases Token.kind_of_isSetOperator h with hkind | hkind | hkind <;>
  · obtain rfl := TokenKind.keyword.inj (hword.symm.trans hkind)
    have hjoin := startsJoin_of_kind hkind (by decide) following
    simp [clause?, hjoin]

/-! ### Cutting -/

section

variable {kind : StatementKind} {s : State} {t : Token} {ts : List Token}

theorem cut_columnList (hopen : t.isOpen) (hlist : s.isColumnList kind (Group.after ts).inner) :
    cut kind s (t :: ts) =
      let group := Group.after ts
      let later := cut kind
        { last := some .insertColumns, cases := s.cases, previous := group.tokens.getLast? }
        group.rest
      ([], ⟨.insertColumns, t, group.tokens ++ later.1⟩ :: later.2) := by
  rw [cut]
  simp [hopen, hlist]

theorem cut_group (hopen : t.isOpen)
    (hlist : ¬ s.isColumnList kind (Group.after ts).inner) :
    cut kind s (t :: ts) =
      let group := Group.after ts
      let later := cut kind
        { s with
          named := s.named || group.tokens.any Token.isName
          previous := group.tokens.getLast? } group.rest
      (t :: group.tokens ++ later.1, later.2) := by
  rw [cut]
  simp [hopen, hlist]

theorem cut_clause {word : Keyword} {c : Clause} (hkind : t.kind = .keyword word)
    (hc : s.clause? kind t word ts = some c) :
    cut kind s (t :: ts) =
      let later := cut kind (s.behind t word (some c)) ts
      ([], ⟨c, t, later.1⟩ :: later.2) := by
  have hopen : t.isOpen = false := by simp [Token.isOpen, hkind]
  rw [cut]
  simp [hopen, hkind, hc]

theorem cut_keyword {word : Keyword} (hkind : t.kind = .keyword word)
    (hc : s.clause? kind t word ts = none) :
    cut kind s (t :: ts) =
      let later := cut kind (s.behind t word none) ts
      (t :: later.1, later.2) := by
  have hopen : t.isOpen = false := by simp [Token.isOpen, hkind]
  rw [cut]
  simp [hopen, hkind, hc]

theorem cut_other (hopen : ¬ t.isOpen) (hkind : ∀ word, t.kind ≠ .keyword word) :
    cut kind s (t :: ts) =
      let later := cut kind { s with named := s.named || t.isName, previous := some t } ts
      (t :: later.1, later.2) := by
  rw [cut]
  split
  · contradiction
  · split
    · next word heq => exact absurd heq (hkind word)
    · rfl

end

theorem cut_continues {us : List Token} (h : ∀ t ∈ us, t.Continues) (kind : StatementKind)
    (s : State) (ts : List Token) :
    ∃ s' : State, s'.last = s.last ∧
      cut kind s (us ++ ts) = (us ++ (cut kind s' ts).1, (cut kind s' ts).2) := by
  induction us generalizing s with
  | nil => exact ⟨s, rfl, rfl⟩
  | cons u us ih =>
      obtain ⟨⟨hopen, hword⟩, hus⟩ := List.forall_mem_cons.1 h
      by_cases has : u.kind = .keyword .AS
      · have hnone : s.clause? kind u .AS (us ++ ts) = none := by
          simp [State.clause?, startsJoin_of_kind has (by decide)]
        obtain ⟨s', hlast, hcut⟩ := ih hus (s.behind u .AS none)
        refine ⟨s', hlast, ?_⟩
        rw [List.cons_append, cut_keyword has hnone, hcut]
        rfl
      · have hother : ∀ word, u.kind ≠ .keyword word := by
          intro word heq
          exact has (hword word heq ▸ heq)
        obtain ⟨s', hlast, hcut⟩ := ih hus { s with named := s.named || u.isName, previous := some u }
        refine ⟨s', hlast, ?_⟩
        rw [List.cons_append, cut_other (by simp [hopen]) hother, hcut]
        rfl

/-- Behind `SELECT` with its items and `FROM` stands a list of tables. -/
theorem exists_cut_select {select sources : Token} {items : List Token}
    (hselect : select.kind = .keyword .SELECT) (hitems : ∀ t ∈ items, t.Continues)
    (hsources : sources.kind = .keyword .FROM) (ts : List Token) :
    ∃ s : State, s.last = some .sources ∧
      cut .select {} (select :: (items ++ sources :: ts)) =
        ([], ⟨.select, select, items⟩ :: ⟨.sources, sources, (cut .select s ts).1⟩ ::
          (cut .select s ts).2) := by
  have hclause : ∀ (s : State) (following : List Token),
      s.clause? .select select .SELECT following = some .select ∧
        s.clause? .select sources .FROM following = some .sources := by
    intro s following
    have hselect := startsJoin_of_kind hselect (by decide) following
    have hsources := startsJoin_of_kind hsources (by decide) following
    simp [State.clause?, hselect, hsources]
  obtain ⟨s, -, hcut⟩ := cut_continues hitems .select
    (State.behind {} select .SELECT (some .select)) (sources :: ts)
  refine ⟨s.behind sources .FROM (some .sources), rfl, ?_⟩
  rw [cut_clause hselect (hclause _ _).1, hcut, cut_clause hsources (hclause _ _).2]
  simp

/-- What begins with `SELECT * FROM` goes on with a list of tables. -/
theorem exists_cut_selectFrom {select star sources : Token} (hselect : select.kind = .keyword .SELECT)
    (hstar : star.kind = .operator) (hsources : sources.kind = .keyword .FROM) (ts : List Token) :
    ∃ s : State, s.last = some .sources ∧
      cut .select {} (select :: star :: sources :: ts) =
        ([], ⟨.select, select, [star]⟩ :: ⟨.sources, sources, (cut .select s ts).1⟩ ::
          (cut .select s ts).2) := by
  have hcontinues : star.Continues :=
    Token.continues_of_ne (by simp [Token.isOpen, hstar]) (by simp [hstar])
  exact exists_cut_select hselect (List.forall_mem_singleton.2 hcontinues) hsources ts

/-- In front of a set operator closed tokens are cut as if nothing followed. -/
theorem cut_append (kind : StatementKind) (s : State) {ts : List Token}
    (hclosed : depthAfter 0 ts = 0) {u : Token} (hu : u.isSetOperator) (more : List Token) :
    ∃ s', cut kind s (ts ++ u :: more) =
      ((cut kind s ts).1, (cut kind s ts).2 ++ (cut kind s' (u :: more)).2) := by
  fun_induction cut kind s ts with
  | case1 s =>
      obtain ⟨word, hkind⟩ := Token.exists_kind_of_isSetOperator hu
      have hcut := cut_clause hkind (s.clause?_of_isSetOperator kind hu hkind more)
      exact ⟨s, by simp [hcut]⟩
  | case2 s t ts inGroup hopen hlist later ih =>
      rw [depthAfter_cons_of_isOpen hopen] at hclosed
      obtain ⟨s', hs'⟩ := ih (Group.depthAfter_rest hclosed)
      refine ⟨s', ?_⟩
      rw [List.cons_append, cut_columnList hopen (by rwa [Group.inner_append hclosed])]
      simp only [Group.tokens_append hclosed, Group.rest_append hclosed]
      simp only [inGroup, later] at hs' ⊢
      rw [hs', List.cons_append]
  | case3 s t ts inGroup hopen hlist later ih =>
      rw [depthAfter_cons_of_isOpen hopen] at hclosed
      obtain ⟨s', hs'⟩ := ih (Group.depthAfter_rest hclosed)
      refine ⟨s', ?_⟩
      rw [List.cons_append, cut_group hopen (by rwa [Group.inner_append hclosed])]
      simp only [Group.tokens_append hclosed, Group.rest_append hclosed]
      simp only [inGroup, later] at hs' ⊢
      rw [hs']
  | case4 s t ts hopen word hkind clause later c hc ih =>
      obtain ⟨s', hs'⟩ := ih (by rwa [depthAfter_cons, Token.depthAfter_of_keyword hkind] at hclosed)
      refine ⟨s', ?_⟩
      have hclause : s.clause? kind t word (ts ++ u :: more) = clause :=
        State.clause?_append s kind t word ts hu more
      rw [List.cons_append, cut_clause hkind (hclause.trans hc)]
      simp only [later, hc] at hs' ⊢
      simp [hs']
  | case5 s t ts hopen word hkind clause later hc ih =>
      obtain ⟨s', hs'⟩ := ih (by rwa [depthAfter_cons, Token.depthAfter_of_keyword hkind] at hclosed)
      refine ⟨s', ?_⟩
      have hclause : s.clause? kind t word (ts ++ u :: more) = clause :=
        State.clause?_append s kind t word ts hu more
      rw [List.cons_append, cut_keyword hkind (hclause.trans hc)]
      simp only [later, hc] at hs' ⊢
      simp [hs']
  | case6 s t ts hopen later hkind ih =>
      have hdepth : t.depthAfter 0 = 0 := by simp [Token.depthAfter, hopen]
      obtain ⟨s', hs'⟩ := ih (by rwa [depthAfter_cons, hdepth] at hclosed)
      refine ⟨s', ?_⟩
      rw [List.cons_append, cut_other hopen hkind]
      simp only [later] at hs' ⊢
      simp [hs']

/-! ### Queries -/

theorem State.isColumnList_select (s : State) (inner : List Token) :
    s.isColumnList .select inner = false := by
  simp [isColumnList]

theorem State.clause?_select_cases (s : State) (cases : Nat) (t : Token) (word : Keyword)
    (following : List Token) :
    State.clause? { s with cases := cases } .select t word following =
      s.clause? .select t word following := by
  simp [clause?]

theorem State.exists_behind_cases (s : State) (cases : Nat) (t : Token) (word : Keyword)
    (clause : Option Clause) :
    ∃ cases', State.behind { s with cases := cases } t word clause =
      { s.behind t word clause with cases := cases' } := by
  cases clause <;> exact ⟨_, rfl⟩

/-- In a query the regions do not depend on the number of open `CASE` expressions. -/
theorem cut_select_cases (s : State) (cases : Nat) (ts : List Token) :
    cut .select { s with cases := cases } ts = cut .select s ts := by
  fun_induction cut .select s ts generalizing cases with
  | case1 => rw [cut]
  | case2 s t ts inGroup hopen hlist later => simp [State.isColumnList_select] at hlist
  | case3 s t ts inGroup hopen hlist later ih =>
      rw [cut_group hopen (by simp [State.isColumnList_select])]
      simp only [later, ← ih cases, inGroup]
  | case4 s t ts hopen word hkind clause later c hc ih =>
      obtain ⟨cases', hbehind⟩ := s.exists_behind_cases cases t word clause
      have hclause := (s.clause?_select_cases cases t word ts).trans hc
      rw [cut_clause hkind hclause, ← hc, hbehind]
      simp only [later, ih cases']
  | case5 s t ts hopen word hkind clause later hc ih =>
      obtain ⟨cases', hbehind⟩ := s.exists_behind_cases cases t word clause
      have hclause := (s.clause?_select_cases cases t word ts).trans hc
      rw [cut_keyword hkind hclause, ← hc, hbehind]
      simp only [later, ih cases']
  | case6 s t ts hopen later hkind ih =>
      rw [cut_other hopen hkind]
      simp only [later, ← ih cases]

/-- A query is cut as if nothing came before, and its first region is that of its `SELECT`. -/
theorem exists_cut_startsSelect {ts : List Token} (h : startsSelect ts) :
    ∃ r rs, r.clause = .select ∧ ∀ s : State, cut .select s ts = ([], r :: rs) := by
  cases ts with
  | nil => simp [startsSelect] at h
  | cons t ts =>
      have hkind := Token.kind_of_isKeyword h
      have hclause : ∀ s : State, s.clause? .select t .SELECT ts = some .select := by
        simp [State.clause?, startsJoin_of_kind hkind (by decide) ts]
      refine ⟨⟨.select, t, (cut .select (State.behind {} t .SELECT (some .select)) ts).1⟩,
        (cut .select (State.behind {} t .SELECT (some .select)) ts).2, rfl, fun s => ?_⟩
      have hcut := cut_select_cases (State.behind {} t .SELECT (some .select)) s.cases ts
      simp only [State.behind] at hcut
      rw [cut_clause hkind (hclause s)]
      simp [State.behind, hcut]

/-- A set operator is a region of its own, and the query behind it is cut as if nothing came
before. -/
theorem cut_setOperator (s : State) {u : Token} {us ts : List Token}
    (hops : isSetOperator (u :: us)) (hts : startsSelect ts) :
    (cut .select s (u :: (us ++ ts))).2 = ⟨.setOperation, u, us⟩ :: (cut .select {} ts).2 := by
  obtain ⟨hu, hus⟩ := isSetOperator_cons hops
  obtain ⟨word, hkind⟩ := Token.exists_kind_of_isSetOperator hu
  obtain ⟨r, rs, -, hcut⟩ := exists_cut_startsSelect hts
  rw [cut_clause hkind (s.clause?_of_isSetOperator .select hu hkind _)]
  rcases hus with rfl | ⟨all, rfl, hall⟩
  · simp [hcut]
  · have hkind := Token.kind_of_isKeyword hall
    have hclause : ∀ s : State, s.clause? .select all .ALL ts = none := by
      simp [State.clause?, startsJoin_of_kind hkind (by decide) ts]
    simp [cut_keyword hkind (hclause _), hcut]

/-- The regions of two queries with a set operator between them. -/
theorem cut_setOperation {ts us ops : List Token} (hclosed : depthAfter 0 ts = 0)
    (hops : isSetOperator ops) (hus : startsSelect us) :
    ∃ r : Region, r.clause = .setOperation ∧
      (cut .select {} (ts ++ ops ++ us)).2 = (cut .select {} ts).2 ++ r :: (cut .select {} us).2 := by
  cases ops with
  | nil => simp [isSetOperator] at hops
  | cons u ops =>
      have hu := (isSetOperator_cons hops).1
      obtain ⟨s', hcut⟩ := cut_append .select {} hclosed hu (ops ++ us)
      refine ⟨⟨.setOperation, u, ops⟩, rfl, ?_⟩
      rw [List.append_assoc, List.cons_append, hcut, cut_setOperator s' hops hus]

/-- A region begins at a column list or at the keyword of its clause. -/
theorem of_mem_cut {kind : StatementKind} {s : State} {ts : List Token} {r : Region}
    (h : r ∈ (cut kind s ts).2) :
    r.clause = .insertColumns ∨ ∃ s' word following, r.head.kind = .keyword word ∧
      State.clause? s' kind r.head word following = some r.clause := by
  fun_induction cut kind s ts with
  | case1 => exact absurd h List.not_mem_nil
  | case2 s t ts inGroup hopen hlist later ih =>
      rcases List.mem_cons.1 h with rfl | h
      · exact .inl rfl
      · exact ih h
  | case3 s t ts inGroup hopen hlist later ih => exact ih h
  | case4 s t ts hopen word hkind clause later c hc ih =>
      rcases List.mem_cons.1 h with rfl | h
      · exact .inr ⟨s, word, ts, hkind, hc⟩
      · exact ih h
  | case5 s t ts hopen word hkind clause later hc ih => exact ih h
  | case6 s t ts hopen later hkind ih => exact ih h

theorem isOpen_of_mem_cut {kind : StatementKind} {s : State} {ts : List Token} {r : Region}
    (h : r ∈ (cut kind s ts).2) (hne : r.clause ≠ .insertColumns) : r.head.isOpen = false := by
  obtain ⟨_, _, _, hkind, -⟩ := (of_mem_cut h).resolve_left hne
  simp [Token.isOpen, hkind]

theorem State.clause?_ne_target {s : State} {kind : StatementKind} {t : Token} {word : Keyword}
    {following : List Token} : s.clause? kind t word following ≠ some .target := by
  unfold clause?
  split
  · simp
  · split <;> simp

/-- Only the kind of a statement gives it a target, not its keywords. -/
theorem clause_ne_target_of_mem_cut {kind : StatementKind} {s : State} {ts : List Token}
    {r : Region} (h : r ∈ (cut kind s ts).2) : r.clause ≠ .target := by
  intro htarget
  rcases of_mem_cut h with hlist | ⟨s', word, following, -, hc⟩
  · rw [htarget] at hlist
    contradiction
  · exact State.clause?_ne_target (hc.trans (congrArg some htarget))

theorem State.eq_where_of_clause? {s : State} {kind : StatementKind} {t : Token} {word : Keyword}
    {following : List Token} (h : s.clause? kind t word following = some .filter) :
    word = .WHERE := by
  unfold clause? at h
  split at h
  · simp at h
  · split at h
    all_goals first | rfl | simp at h

/-- A `WHERE` clause begins at a `WHERE`. -/
theorem isKeyword_of_filter {kind : StatementKind} {s : State} {ts : List Token} {r : Region}
    (h : r ∈ (cut kind s ts).2) (hr : r.clause = .filter) : r.head.isKeyword .WHERE := by
  rcases of_mem_cut h with hlist | ⟨s', word, following, hkind, hc⟩
  · rw [hr] at hlist
    contradiction
  · obtain rfl := State.eq_where_of_clause? (hc.trans (congrArg some hr))
    exact decide_eq_true hkind

end Region

end Tsql
