import Tsql.Proofs.Elements.Typed
import Tsql.Proofs.Statement.Flat
import Tsql.Proofs.Statement.Kind
import Tsql.Proofs.Statement.Restart

/-!
A query whose `WHERE` clause is still being typed.

Behind its head stand plain tokens, and perhaps a keyword that has just been typed. A keyword that
opens a statement is a statement of its own (`map_splitStatements_keyword`), and one that begins a
clause ends the `WHERE` clause (`exists_regions_keyword`); with any other keyword the statement stays
the query of its one table (`isFilterQuery_build`).
-/

namespace Tsql

/-! ### Plain tokens -/

namespace Token.IsPlain

variable {t : Token} (h : t.IsPlain)

include h

theorem ne_keyword (word : Keyword) : t.kind ≠ .keyword word := by
  rcases h with h | h | h | h <;> simp [h]

theorem isKeyword_eq_false (word : Keyword) : t.isKeyword word = false :=
  decide_eq_false (h.ne_keyword word)

theorem isAnyKeyword_eq_false (words : List Keyword) : t.isAnyKeyword words = false :=
  isAnyKeyword_of_ne h.ne_keyword words

theorem flat : t.isOpen = false ∧ t.isClose = false := by
  rcases h with h | h | h | h <;> simp [isOpen, isClose, h]

end Token.IsPlain

theorem isFlat_of_isPlain {ts : List Token} (h : ∀ t ∈ ts, t.IsPlain) : IsFlat ts :=
  fun t ht => (h t ht).flat

/-! ### Reading a statement -/

namespace Split

variable {kind : StatementKind} {last t : Token} {ts : List Token}

theorem step_isPlain (h : t.IsPlain) (following : List Token) :
    (reading kind last).step t following = (.continues, reading kind t) := by
  have hsemicolon : t.kind ≠ .semicolon := by
    rcases h with h | h | h | h <;> simp [h]
  exact step_other hsemicolon h.ne_keyword h.flat

/-- What a keyword does that is typed behind plain tokens of a query. -/
def Mark.ofTyped (word : Keyword) : Mark :=
  if word ∈ [.END, .ELSE, .BEGIN] then .delimits
  else if word ∈ openers ∧ word ≠ .WITH then .opens
  else .continues

theorem meets?_typed {r : Reading} (hkind : r.kind = .select) (hbody : r.awaitsBody = false)
    (hlast : r.last.IsPlain) {word : Keyword} (h : word ∈ openers) :
    r.meets? word [] = if word = .WITH then some r else none := by
  simp only [openers, List.mem_cons, List.not_mem_nil, or_false] at h
  rcases h with rfl | rfl | rfl | rfl | rfl | rfl | rfl | rfl | rfl | rfl | rfl | rfl | rfl | rfl |
    rfl | rfl | rfl | rfl <;>
  simp [Reading.meets?, openers, hkind, hbody, hlast.isAnyKeyword_eq_false,
    hlast.isKeyword_eq_false, headsCte]

theorem mark_typed {word : Keyword} (h : t.kind = .keyword word) (hlast : last.IsPlain) :
    ((reading .select last).step t []).1 = .ofTyped word := by
  by_cases hblock : word ∈ blockWords
  · simp only [blockWords, List.mem_cons, List.not_mem_nil, or_false] at hblock
    rcases hblock with rfl | rfl | rfl | rfl <;>
    simp [State.step, State.meet, State.take, reading, Reading.meets?, h, Mark.ofTyped, openers,
      opensBlock]
  · rw [step_keyword h hblock [] _ rfl rfl, Mark.ofTyped, if_neg]
    · by_cases hopens : word ∈ openers
      · have hmeets := meets?_typed (r := { kind := .select, awaitsBody := false, last := last })
          rfl rfl hlast hopens
        by_cases hwith : word = .WITH
        · subst hwith
          rw [if_pos rfl] at hmeets
          simp [State.meet, State.take, reading, hmeets]
        · simp [State.meet, State.take, reading, hmeets, hwith, hopens]
      · simp [State.meet, State.take, reading, Reading.meets?, hopens]
    · intro hmem
      refine hblock ?_
      simp only [blockWords, List.mem_cons, List.not_mem_nil, or_false] at hmem ⊢
      exact .inr hmem

/-! ### Gathering -/

variable (kind last ts) in
theorem reads_isPlain {us : List Token} (h : ∀ t ∈ us, t.IsPlain) :
    Reads ts (reading kind last) us
      (reading kind ((last :: us).getLast (List.cons_ne_nil last us))) := by
  induction us generalizing last with
  | nil => exact .nil _
  | cons u us ih =>
      obtain ⟨hu, hus⟩ := List.forall_mem_cons.1 h
      rw [List.getLast_cons (List.cons_ne_nil u us)]
      exact .cons (step_isPlain hu (us ++ ts)) (ih u hus)

theorem gather_typed {word : Keyword} (h : t.kind = .keyword word) (hlast : last.IsPlain)
    (index : Nat) :
    gather index ((marks (reading .select last) [t]).zip [t]) =
      match Mark.ofTyped word with
      | .continues => ([t], [])
      | .opens => ([], [⟨index, [t]⟩])
      | .delimits => ([], []) := by
  rw [marks, mark_typed h hlast]
  cases Mark.ofTyped word <;> rfl

end Split

/-! ### Cutting at clauses -/

namespace Region

theorem cut_isPlain {us : List Token} (h : ∀ t ∈ us, t.IsPlain) (kind : StatementKind) (s : State)
    (ts : List Token) :
    ∃ s' : State, s'.last = s.last ∧
      cut kind s (us ++ ts) = (us ++ (cut kind s' ts).1, (cut kind s' ts).2) :=
  cut_continues (fun t ht => Token.continues_of_ne (h t ht).flat.1 (h t ht).ne_keyword) kind s ts

/-- Keywords that end a `WHERE` clause without a word behind them. -/
def clauseWords : List Keyword :=
  [.SELECT, .FROM, .ON, .HAVING, .UNION, .EXCEPT, .INTERSECT]

theorem clause?_typed {s : State} (hlast : s.last = some .filter) {t : Token} {word : Keyword}
    (h : t.kind = .keyword word) :
    (∃ c, s.clause? .select t word [] = some c ∧ c ≠ .filter) ↔ word ∈ clauseWords := by
  simp only [clauseWords, List.mem_cons, List.not_mem_nil, or_false]
  constructor
  · rintro ⟨c, hc, hne⟩
    unfold State.clause? at hc
    split at hc
    · simp [hlast] at hc
    · split at hc
      all_goals simp_all [StatementKind.isDml]
  · rintro (rfl | rfl | rfl | rfl | rfl | rfl | rfl) <;>
    simp [State.clause?, startsJoin_of_kind h (by decide)]

end Region

/-! ### The query -/

/-- The tokens of `SELECT * FROM t a WHERE`. -/
structure FilterHead (t a : String) where
  select : Token
  star : Token
  sources : Token
  table : Token
  label : Token
  filter : Token
  select_kind : select.kind = .keyword .SELECT
  star_kind : star.kind = .operator
  sources_kind : sources.kind = .keyword .FROM
  table_kind : table.kind = .identifier
  table_text : table.text = t
  label_kind : label.kind = .identifier
  label_text : label.text = a
  filter_kind : filter.kind = .keyword .WHERE

namespace FilterHead

variable {t a : String} (q : FilterHead t a)

def tokens : List Token :=
  [q.select, q.star, q.sources, q.table, q.label, q.filter]

theorem isPlain_star : q.star.IsPlain :=
  .inr (.inr (.inl q.star_kind))

theorem isPlain_table : q.table.IsPlain :=
  .inr (.inl q.table_kind)

theorem isPlain_label : q.label.IsPlain :=
  .inr (.inl q.label_kind)

theorem isFlat_tokens : IsFlat q.tokens := by
  intro t ht
  simp only [tokens, List.mem_cons, List.not_mem_nil, or_false] at ht
  rcases ht with rfl | rfl | rfl | rfl | rfl | rfl
  · exact Token.flat_of_keyword q.select_kind
  · exact q.isPlain_star.flat
  · exact Token.flat_of_keyword q.sources_kind
  · exact q.isPlain_table.flat
  · exact q.isPlain_label.flat
  · exact Token.flat_of_keyword q.filter_kind

/-- The first statement begins at the `SELECT` and goes on behind the `WHERE`. -/
theorem gather_tokens (ts : List Token) :
    ∃ index, splitStatements (q.tokens ++ ts) =
      let later := Split.gather index
        ((Split.marks (Split.reading .select q.filter) ts).zip ts)
      ⟨0, q.tokens ++ later.1⟩ :: later.2 := by
  have hopens := Split.step_begins q.select_kind (by decide) (by decide)
    (StatementKind.ofTokens_of_dmlKind? q.select_kind rfl
      ([q.star, q.sources, q.table, q.label, q.filter] ++ ts))
  have hsources := @Split.step_word q.sources .select q.star .FROM q.sources_kind (by decide)
    (by decide)
  have hfilter := @Split.step_word q.filter .select q.label .WHERE q.filter_kind (by decide)
    (by decide)
  exact ⟨6, splitStatements_of_reads hopens (.cons (Split.step_isPlain q.isPlain_star _)
    (.cons (hsources _) (.cons (Split.step_isPlain q.isPlain_table _)
      (.cons (Split.step_isPlain q.isPlain_label _) (.cons (hfilter _) (.nil _))))))⟩

theorem map_splitStatements {ts : List Token} (h : ∀ t ∈ ts, t.IsPlain) :
    (splitStatements (q.tokens ++ ts)).map Split.Segment.tokens = [q.tokens ++ ts] := by
  obtain ⟨index, hsplit⟩ := q.gather_tokens ts
  have hgather := (Split.reads_isPlain .select q.filter [] h).gather index
  rw [List.append_nil] at hgather
  rw [hsplit, hgather]
  simp [Split.gather, Split.marks]

/-- The statements of the query when a keyword has been typed behind plain tokens. -/
theorem map_splitStatements_keyword {ts : List Token} (h : ∀ t ∈ ts, t.IsPlain) (hne : ts ≠ [])
    {w : Token} {word : Keyword} (hw : w.kind = .keyword word) :
    (splitStatements (q.tokens ++ (ts ++ [w]))).map Split.Segment.tokens =
      match Split.Mark.ofTyped word with
      | .continues => [q.tokens ++ (ts ++ [w])]
      | .opens => [q.tokens ++ ts, [w]]
      | .delimits => [q.tokens ++ ts] := by
  obtain ⟨index, hsplit⟩ := q.gather_tokens (ts ++ [w])
  have hgather := (Split.reads_isPlain .select q.filter [w] h).gather index
  have hlast : ((q.filter :: ts).getLast (List.cons_ne_nil q.filter ts)).IsPlain := by
    rw [List.getLast_cons hne]
    exact h _ (List.getLast_mem hne)
  rw [hsplit, hgather, Split.gather_typed hw hlast]
  cases Split.Mark.ofTyped word <;> simp

/-! ### Its regions -/

/-- The regions of the query, with the given tokens behind the `WHERE`. -/
def regions (tail : List Token) : List Region :=
  [⟨.select, q.select, [q.star]⟩, ⟨.sources, q.sources, [q.table, q.label]⟩,
    ⟨.filter, q.filter, tail⟩]

theorem exists_cut (ts : List Token) :
    ∃ s : Region.State, s.last = some .filter ∧
      Region.cut .select {} (q.tokens ++ ts) =
        ([], q.regions (Region.cut .select s ts).1 ++ (Region.cut .select s ts).2) := by
  obtain ⟨s₁, -, hcut₁⟩ := Region.exists_cut_selectFrom q.select_kind q.star_kind q.sources_kind
    ([q.table, q.label] ++ q.filter :: ts)
  have hplain : ∀ t ∈ [q.table, q.label], t.IsPlain := by
    simp [q.isPlain_table, q.isPlain_label]
  obtain ⟨s₂, -, hcut₂⟩ := Region.cut_isPlain hplain .select s₁ (q.filter :: ts)
  have hclause : s₂.clause? .select q.filter .WHERE ts = some .filter := by
    simp [Region.State.clause?, Region.startsJoin_of_kind q.filter_kind (by decide)]
  rw [Region.cut_clause q.filter_kind hclause] at hcut₂
  rw [hcut₂] at hcut₁
  exact ⟨s₂.behind q.filter .WHERE (some .filter), rfl, hcut₁⟩

theorem exists_regions {ts : List Token} (h : ∀ t ∈ ts, t.IsPlain) :
    ∃ tail, (Region.cut .select {} (q.tokens ++ ts)).2 = q.regions tail := by
  obtain ⟨s, -, hcut⟩ := q.exists_cut ts
  obtain ⟨s', -, hplain⟩ := Region.cut_isPlain h .select s []
  rw [List.append_nil] at hplain
  refine ⟨ts ++ [], ?_⟩
  rw [hcut, hplain, Region.cut]
  simp

/-- The regions when a keyword has been typed behind plain tokens. -/
theorem exists_regions_keyword {ts : List Token} (h : ∀ t ∈ ts, t.IsPlain) {w : Token}
    {word : Keyword} (hw : w.kind = .keyword word) :
    ∃ tail later, (Region.cut .select {} (q.tokens ++ (ts ++ [w]))).2 = q.regions tail ++ later ∧
      (word ∉ Region.clauseWords → ∀ r ∈ later, r.clause = .filter) ∧
        (word ∈ Region.clauseWords → ∃ c, c ≠ .filter ∧ later = [⟨c, w, []⟩]) := by
  obtain ⟨s, hlast, hcut⟩ := q.exists_cut (ts ++ [w])
  obtain ⟨s', hlast', hplain⟩ := Region.cut_isPlain h .select s [w]
  have htyped := Region.clause?_typed (hlast'.trans hlast) hw
  refine ⟨ts ++ (Region.cut .select s' [w]).1, (Region.cut .select s' [w]).2, ?_, ?_⟩
  · rw [hcut, hplain]
  · cases hc : s'.clause? .select w word [] with
    | none =>
        rw [Region.cut_keyword hw hc, Region.cut]
        refine ⟨fun _ => List.forall_mem_nil _, fun hmem => ?_⟩
        obtain ⟨c, hsome, -⟩ := htyped.2 hmem
        rw [hc] at hsome
        contradiction
    | some c =>
        rw [Region.cut_clause hw hc, Region.cut]
        refine ⟨fun hmem => ?_, fun hmem => ?_⟩
        · refine List.forall_mem_singleton.2 (Classical.not_not.1 fun hne => ?_)
          exact hmem (htyped.1 ⟨c, hc, hne⟩)
        · obtain ⟨c', hsome, hne⟩ := htyped.2 hmem
          obtain rfl := Option.some.inj (hc.symm.trans hsome)
          exact ⟨c, hne, rfl⟩

/-! ### Its table -/

theorem tableName_table (us : List Token) :
    tableName (q.table :: q.label :: us) =
      (some (.ofParts [t] (.taken (q.table :: q.label :: us) (q.label :: us))), q.label :: us) := by
  have htail : nameTail (q.label :: us) = (some [], q.label :: us) := by
    rw [nameTail.eq_def]
    exact if_neg (by simp [q.label_kind])
  simp [tableName, htail, Token.isName, q.table_kind, q.table_text]

/-- The one table of the query. -/
theorem tableList_table (nested : List Token → Statement) :
    ∃ range, tableList nested .sources [q.table, q.label] =
      { tables := [{ name := t, aliasName := some a, range := range }] } := by
  have htable : q.table.isName := by simp [Token.isName, q.table_kind]
  have hlabel : q.label.isName := by simp [Token.isName, q.label_kind]
  have hskip : skipHints [q.label] = [q.label] := by
    simp [skipHints, q.isPlain_label.isKeyword_eq_false, q.isPlain_label.flat]
  have hcall : callArguments [q.label] = none := by simp [callArguments, q.isPlain_label.flat]
  have halias : tableAlias [q.label] = (some a, []) := by
    simp [tableAlias, q.isPlain_label.isKeyword_eq_false, hlabel, q.label_text]
  have hnil : skipHints [] = [] := by rw [skipHints]
  have hnamed : ∃ range, namedTable [q.table, q.label] =
      (some { name := t, aliasName := some a, range := range }, []) := by
    rw [namedTable, q.tableName_table]
    simp [hcall, hskip, halias, hnil, TableRef.ofParts]
  obtain ⟨range, hnamed⟩ := hnamed
  refine ⟨range, ?_⟩
  rw [tableList]
  simp only [q.isPlain_table.isKeyword_eq_false, q.isPlain_table.isAnyKeyword_eq_false,
    q.isPlain_table.flat, htable, hnamed, Bool.false_eq_true, if_false, dif_pos]
  rw [tableList]
  rfl

end FilterHead

/-- A list of regions that names no tables. -/
theorem Sources.ofRegions_filter (nested : List Token → Statement) (seen : Bool) {rs : List Region}
    (h : ∀ r ∈ rs, r.clause = .filter) : ofRegions nested seen rs = {} := by
  induction rs generalizing seen with
  | nil => rfl
  | cons r rs ih =>
      obtain ⟨hr, hrs⟩ := List.forall_mem_cons.1 h
      simp only [ofRegions, hr, ih _ hrs]
      rfl

theorem duplicateFroms_filter (seen : Bool) {rs : List Region} (h : ∀ r ∈ rs, r.clause = .filter) :
    duplicateFroms seen rs = [] := by
  induction rs generalizing seen with
  | nil => rfl
  | cons r rs ih =>
      obtain ⟨hr, hrs⟩ := List.forall_mem_cons.1 h
      rw [duplicateFroms, hr]
      exact ih seen hrs

/-- The statement is a query of one table with an alias. -/
structure Statement.IsFilterQuery (s : Statement) (t a : String) : Prop where
  kind : s.kind = .select
  ctes : s.ctes = []
  subqueries : s.subqueries = []
  issues : s.issues = []
  tables : ∃ range, s.tables = [{ name := t, aliasName := some a, range := range }]

namespace FilterHead

variable {t a : String} (q : FilterHead t a) {ts tail : List Token} {later : List Region}

theorem kind_tokens (ts : List Token) : StatementKind.ofTokens (q.tokens ++ ts) = .select := by
  simp [tokens, StatementKind.ofTokens, q.select_kind, Keyword.dmlKind?]

theorem ofRegions_regions (nested : List Token → Statement) (tail : List Token)
    (hlater : ∀ r ∈ later, r.clause = .filter) :
    ∃ range, Sources.ofRegions nested false (q.regions tail ++ later) =
      { tables := [{ name := t, aliasName := some a, range := range }] } := by
  obtain ⟨range, hlist⟩ := q.tableList_table nested
  have hitems : selectIssues (selectItems [q.star]) = [] := by
    simp [selectItems, skipSelectWords, q.isPlain_star.isKeyword_eq_false,
      q.isPlain_star.isAnyKeyword_eq_false, splitTop, q.star_kind, selectIssues]
  have hstarts : (Region.mk .sources q.sources [q.table, q.label]).startsFrom := by
    simp [Region.startsFrom, Token.isKeyword, q.sources_kind]
  refine ⟨range, ?_⟩
  simp only [regions, List.cons_append, List.nil_append, Sources.ofRegions, hstarts, if_true, hlist,
    hitems, Sources.ofRegions_filter nested _ hlater]
  rfl

theorem duplicateFroms_regions (hlater : ∀ r ∈ later, r.clause = .filter) :
    duplicateFroms false (q.regions tail ++ later) = [] := by
  have hstarts : (Region.mk .sources q.sources [q.table, q.label]).startsFrom := by
    simp [Region.startsFrom, Token.isKeyword, q.sources_kind]
  simp [regions, duplicateFroms, hstarts, duplicateFroms_filter _ hlater]

theorem not_with : q.select.isKeyword .WITH = false := by
  simp [Token.isKeyword, q.select_kind]

theorem nested_build (nested : List Token → Statement) (hflat : IsFlat (q.tokens ++ ts)) :
    (Statement.build nested (q.tokens ++ ts)).ctes = [] ∧
      (Statement.build nested (q.tokens ++ ts)).subqueries = [] :=
  ⟨Statement.ctes_of_not_with nested q.not_with, Statement.subqueries_build nested hflat⟩

/-- Behind all tokens the clause is that of the last region. -/
theorem clauseAt?_build (nested : List Token → Statement) {p : Position}
    (h : ∀ u ∈ q.tokens ++ ts, u.start ≤ p) :
    (Statement.build nested (q.tokens ++ ts)).clauseAt? p =
      (Region.cut .select {} (q.tokens ++ ts)).2.getLast?.map Region.clause := by
  refine (Statement.clauseAt?_build nested q.not_with h).trans ?_
  show (Layout.ofTokens (.ofTokens (q.tokens ++ ts)) [] (q.tokens ++ ts)).regions.getLast?.map _ = _
  rw [q.kind_tokens]
  rfl

theorem getLast?_regions (hlater : ∀ r ∈ later, r.clause = .filter) :
    (q.regions tail ++ later).getLast?.map Region.clause = some .filter := by
  have hall : ∀ r ∈ Region.mk .filter q.filter tail :: later, r.clause = .filter :=
    List.forall_mem_cons.2 ⟨rfl, hlater⟩
  have hlast : (q.regions tail ++ later).getLast? =
      (Region.mk .filter q.filter tail :: later).getLast? :=
    List.getLast?_append_of_ne_nil
      [⟨.select, q.select, [q.star]⟩, ⟨.sources, q.sources, [q.table, q.label]⟩]
      (List.cons_ne_nil _ later)
  rw [hlast, List.getLast?_eq_some_getLast (List.cons_ne_nil _ later), Option.map_some,
    hall _ (List.getLast_mem _)]

theorem isFilterQuery_build (nested : List Token → Statement) (hflat : IsFlat (q.tokens ++ ts))
    (hcut : (Region.cut .select {} (q.tokens ++ ts)).2 = q.regions tail ++ later)
    (hlater : ∀ r ∈ later, r.clause = .filter) :
    (Statement.build nested (q.tokens ++ ts)).IsFilterQuery t a := by
  have hselect : startsSelect (q.tokens ++ ts) := by
    simp [startsSelect, tokens, Token.isKeyword, q.select_kind]
  have hlayout : (Layout.ofTokens .select [] (q.tokens ++ ts)).regions =
      q.regions tail ++ later := hcut
  have hkind := q.kind_tokens ts
  have hquery := Statement.isQueryOf_build nested hselect
  obtain ⟨range, hfound⟩ := q.ofRegions_regions nested tail hlater
  rw [hcut, hfound] at hquery
  constructor
  · exact (Statement.kind_build nested q.not_with).trans hkind
  · exact (q.nested_build nested hflat).1
  · exact (q.nested_build nested hflat).2
  · refine (Statement.issues_build nested q.not_with hflat).trans ?_
    show duplicateFroms false
        (Layout.ofTokens (.ofTokens (q.tokens ++ ts)) [] (q.tokens ++ ts)).regions ++
      (Sources.ofRegions nested false
        (Layout.ofTokens (.ofTokens (q.tokens ++ ts)) [] (q.tokens ++ ts)).regions).issues = []
    rw [hkind, hlayout, hfound, q.duplicateFroms_regions hlater]
    rfl
  · refine ⟨range, hquery.tables.trans ?_⟩
    rfl

end FilterHead

end Tsql
