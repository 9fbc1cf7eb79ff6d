import Mathlib.Data.List.Basic
import Tsql.Proofs.Statement.Derived
import Tsql.Proofs.Statement.Marks

/-!
What a `DROP TABLE` drops.

The statement is read for one name, the first of its list (`DropsTables.table_ofNamed`). A clause
behind the list may name further tables, but without a `FROM` or an `ON` there is none
(`Region.clause_of_mem_cut_drop`). So of the temporary tables in the list only the first is dropped
(`Statement.droppedNames_parse`).
-/

namespace Tsql

/-! ### Lists of names as they are written -/

/-- The tokens are the name of a table, possibly behind those of its schema, database and server. -/
inductive NamesTable : List Token → String → Prop
  | bare {t : Token} (isName : t.isName) : NamesTable [t] t.text
  | qualified {t dot : Token} {dots ts : List Token} {name : String} (isName : t.isName)
      (isDots : ∀ u ∈ dot :: dots, u.kind = .dot) (inner : NamesTable ts name) :
      NamesTable (t :: dot :: (dots ++ ts)) name

/-- The tokens are names of tables, separated by commas. -/
inductive ListsTables : List Token → List String → Prop
  | one {ts : List Token} {name : String} (first : NamesTable ts name) : ListsTables ts [name]
  | cons {ts us : List Token} {comma : Token} {name : String} {names : List String}
      (first : NamesTable ts name) (isComma : comma.kind = .comma) (rest : ListsTables us names) :
      ListsTables (ts ++ comma :: us) (name :: names)

/-- The tokens are a `DROP TABLE`, with or without `IF EXISTS`, a list of names, and `behind`. -/
inductive DropsTables : List Token → List String → List Token → Prop
  | plain {drop table : Token} {list behind : List Token} {names : List String}
      (isDrop : drop.isKeyword .DROP) (isTable : table.isKeyword .TABLE)
      (lists : ListsTables list names) (stop : ∀ t ∈ behind.head?, t.kind ≠ .dot) :
      DropsTables (drop :: table :: (list ++ behind)) names behind
  | ifExists {drop table a b : Token} {list behind : List Token} {names : List String}
      (isDrop : drop.isKeyword .DROP) (isTable : table.isKeyword .TABLE) (isIf : a.isKeyword .IF)
      (isExists : b.isKeyword .EXISTS) (lists : ListsTables list names)
      (stop : ∀ t ∈ behind.head?, t.kind ≠ .dot) :
      DropsTables (drop :: table :: a :: b :: (list ++ behind)) names behind

theorem ListsTables.pair {t comma u : Token} (ht : t.isName) (isComma : comma.kind = .comma)
    (hu : u.isName) : ListsTables [t, comma, u] [t.text, u.text] :=
  .cons (.bare ht) isComma (.one (.bare hu))

theorem DropsTables.of_listsTables {drop table : Token} {list : List Token} {names : List String}
    (isDrop : drop.isKeyword .DROP) (isTable : table.isKeyword .TABLE)
    (lists : ListsTables list names) : DropsTables (drop :: table :: list) names [] := by
  rw [← List.append_nil list]
  exact .plain isDrop isTable lists nofun

/-! ### Reading the first name -/

theorem TableRef.name_ofParts {parts : List String} {name : String}
    (h : parts.getLast? = some name) (range : Range) : (ofParts parts range).name = name := by
  obtain ⟨front, rfl⟩ := List.getLast?_eq_some_iff.1 h
  simp [ofParts]

section

variable {ts us : List Token} {name : String}

theorem NamesTable.exists_cons (h : NamesTable ts name) :
    ∃ t rest, ts = t :: rest ∧ t.isName := by
  cases h with
  | bare isName => exact ⟨_, _, rfl, isName⟩
  | qualified isName _ _ => exact ⟨_, _, rfl, isName⟩

/-- Dots in a row leave empty parts between them. -/
theorem exists_nameTail_dots {dot t : Token} {dots rest : List Token} {parts : List String}
    (isDots : ∀ u ∈ dot :: dots, u.kind = .dot) (isName : t.isName)
    (hparts : nameTail rest = (some parts, us)) :
    ∃ empty, nameTail (dot :: (dots ++ t :: rest)) = (some (empty ++ t.text :: parts), us) := by
  induction dots generalizing dot with
  | nil =>
      have hdot := isDots dot List.mem_cons_self
      refine ⟨[], ?_⟩
      rw [List.nil_append, nameTail.eq_def]
      simp only [hdot, isName, if_true, hparts]
      rfl
  | cons dot' dots ih =>
      obtain ⟨hdot, hdots⟩ := List.forall_mem_cons.1 isDots
      have hdot' := hdots dot' List.mem_cons_self
      have hname : dot'.isName = false := by simp [Token.isName, hdot']
      obtain ⟨empty, htail⟩ := ih hdots
      refine ⟨"" :: empty, ?_⟩
      rw [List.cons_append, nameTail.eq_def]
      simp only [hdot, hdot', hname, if_true, Bool.false_eq_true, if_false, htail]
      rfl

/-- What stands behind a name is left, and the last part is the name. -/
theorem exists_nameTail_of_namesTable (h : NamesTable ts name)
    (stop : ∀ t ∈ us.head?, t.kind ≠ .dot) :
    ∃ t rest parts, ts = t :: rest ∧ t.isName ∧ nameTail (rest ++ us) = (some parts, us) ∧
      (t.text :: parts).getLast? = some name := by
  induction h with
  | @bare t isName =>
      refine ⟨t, [], [], rfl, isName, ?_, rfl⟩
      cases us with
      | nil => rfl
      | cons u us =>
          rw [List.nil_append, nameTail.eq_def]
          exact if_neg (stop u rfl)
  | @qualified t dot dots ts name isName isDots inner ih =>
      obtain ⟨t', rest, parts, rfl, isName', hparts, hlast⟩ := ih
      obtain ⟨empty, htail⟩ := exists_nameTail_dots isDots isName' hparts
      refine ⟨t, _, empty ++ t'.text :: parts, rfl, isName, ?_, ?_⟩
      · rwa [List.cons_append, List.append_assoc, List.cons_append]
      · rw [← List.cons_append, List.getLast?_append_of_ne_nil _ (List.cons_ne_nil _ _), hlast]

theorem exists_tableName_of_namesTable (h : NamesTable ts name)
    (stop : ∀ t ∈ us.head?, t.kind ≠ .dot) :
    ∃ table, (tableName (ts ++ us)).1 = some table ∧ table.name = name := by
  obtain ⟨t, rest, parts, rfl, isName, htail, hlast⟩ := exists_nameTail_of_namesTable h stop
  refine ⟨_, ?_, TableRef.name_ofParts hlast (.taken (t :: (rest ++ us)) us)⟩
  rw [List.cons_append, tableName, if_pos isName, htail]
  rfl

/-- Only the first name of a list is read. -/
theorem exists_tableName_of_listsTables {names : List String} (h : ListsTables ts names)
    (stop : ∀ t ∈ us.head?, t.kind ≠ .dot) :
    ∃ table, (tableName (ts ++ us)).1 = some table ∧ some table.name = names.head? := by
  cases h with
  | one first =>
      obtain ⟨table, htable, hname⟩ := exists_tableName_of_namesTable first stop
      exact ⟨table, htable, congrArg some hname⟩
  | @cons ts vs comma name names first isComma rest =>
      have hstop : ∀ t ∈ (comma :: (vs ++ us)).head?, t.kind ≠ .dot := by simp [isComma]
      obtain ⟨table, htable, hname⟩ := exists_tableName_of_namesTable first hstop
      exact ⟨table, by simpa using htable, congrArg some hname⟩

theorem ListsTables.exists_cons {names : List String} (h : ListsTables ts names) :
    ∃ t rest, ts = t :: rest ∧ t.isName := by
  cases h with
  | one first => exact first.exists_cons
  | cons first isComma rest =>
      obtain ⟨t, tail, rfl, isName⟩ := first.exists_cons
      exact ⟨t, _, rfl, isName⟩

/-- The statement about an object names the first table of the list. -/
theorem DropsTables.table_ofNamed {names : List String} (h : DropsTables ts names us) :
    StatementKind.ofTokens ts = .drop ∧
      ∃ table, (ObjectHead.ofNamed ts).table = some table ∧ some table.name = names.head? := by
  cases h with
  | @plain drop table list behind names isDrop isTable lists stop =>
      refine ⟨by simp [StatementKind.ofTokens, Token.kind_of_isKeyword isDrop], ?_⟩
      obtain ⟨ref, href, hname⟩ := exists_tableName_of_listsTables lists stop
      refine ⟨ref, ?_, hname⟩
      obtain ⟨t, rest, rfl, isName⟩ := lists.exists_cons
      have hnot : t.isKeyword .IF = false := by
        rcases Bool.or_eq_true_iff.1 isName with hkind | hkind <;>
          simp [Token.isKeyword, of_decide_eq_true hkind]
      rw [← href, List.cons_append]
      cases rest ++ us <;> simp [ObjectHead.ofNamed, isTable, hnot]
  | @ifExists drop table a b list behind names isDrop isTable isIf isExists lists stop =>
      refine ⟨by simp [StatementKind.ofTokens, Token.kind_of_isKeyword isDrop], ?_⟩
      obtain ⟨ref, href, hname⟩ := exists_tableName_of_listsTables lists stop
      refine ⟨ref, ?_, hname⟩
      rw [← href, ObjectHead.ofNamed]
      simp [isTable, isIf, isExists]

end

theorem ObjectHead.tempTable_ofNamed (ts : List Token) : (ofNamed ts).tempTable = none := by
  unfold ofNamed
  repeat' split
  all_goals rfl

/-! ### Tables in other clauses -/

/-- Whether a list of tables can begin at the token. -/
def Token.leadsToTables (t : Token) : Bool :=
  t.isAnyKeyword [.FROM, .ON]

theorem Token.leadsToTables_of_isName {t : Token} (h : t.isName) : t.leadsToTables = false := by
  rcases Bool.or_eq_true_iff.1 h with hkind | hkind <;>
    simp [leadsToTables, isAnyKeyword, of_decide_eq_true hkind]

namespace Region

theorem State.clause?_drop {s : State} {t : Token} {word : Keyword} {following : List Token}
    {c : Clause} (h : s.clause? .drop t word following = some c) :
    c ≠ .mergeSource ∧ c ≠ .into ∧
      (word ≠ .FROM → word ≠ .ON → s.last ≠ some .joinCondition →
        c ≠ .sources ∧ c ≠ .joinCondition) := by
  unfold clause? at h
  split at h
  · by_cases hlast : s.last = some .joinCondition
    · rw [hlast] at h
      obtain rfl := Option.some.inj h
      exact ⟨nofun, nofun, fun _ _ hne => absurd hlast hne⟩
    · simp [hlast] at h
  · split at h <;> simp_all [StatementKind.isDml] <;> grind

theorem clause_ne_into_of_mem_cut_drop {s : State} {ts : List Token} {r : Region}
    (h : r ∈ (cut .drop s ts).2) : r.clause ≠ .into := by
  rcases of_mem_cut h with hlist | ⟨s', word, following, -, hc⟩
  · rw [hlist]
    nofun
  · exact (State.clause?_drop hc).2.1

/-- Without a `FROM` or an `ON` no clause of the statement holds tables. -/
theorem clause_of_mem_cut_drop {s : State} {ts : List Token}
    (hlast : s.last ≠ some .joinCondition) (h : ∀ t ∈ ts, t.leadsToTables = false) {r : Region}
    (hr : r ∈ (cut .drop s ts).2) :
    r.clause ≠ .sources ∧ r.clause ≠ .mergeSource := by
  fun_induction cut .drop s ts with
  | case1 => exact absurd hr List.not_mem_nil
  | case2 s t ts inGroup hopen hlist later ih => simp [State.isColumnList] at hlist
  | case3 s t ts inGroup hopen hlist later ih =>
      have hrest := (Group.rest_suffix ts).subset
      exact ih hlast (fun u hu => h u (List.mem_cons_of_mem t (hrest hu))) hr
  | case4 s t ts hopen word hkind clause later c hc ih =>
      obtain ⟨ht, hts⟩ := List.forall_mem_cons.1 h
      have hword : word ≠ .FROM ∧ word ≠ .ON := by
        simpa [Token.leadsToTables, Token.isAnyKeyword, hkind] using ht
      obtain ⟨hmerge, -, hplain⟩ := State.clause?_drop hc
      obtain ⟨hsources, hcondition⟩ := hplain hword.1 hword.2 hlast
      rcases List.mem_cons.1 hr with rfl | hr
      · exact ⟨hsources, hmerge⟩
      · refine ih ?_ hts hr
        have hbehind : (s.behind t word clause).last = some c := by rw [hc]; rfl
        rw [hbehind]
        exact fun heq => hcondition (Option.some.inj heq)
  | case5 s t ts hopen word hkind clause later hc ih =>
      refine ih ?_ (List.forall_mem_cons.1 h).2 hr
      have hbehind : (s.behind t word clause).last = s.last := by rw [hc]; rfl
      rwa [hbehind]
  | case6 s t ts hopen later hkind ih => exact ih hlast (List.forall_mem_cons.1 h).2 hr

end Region

theorem Sources.tables_ofRegions_eq_nil (nested : List Token → Statement) (seen : Bool)
    {rs : List Region}
    (h : ∀ r ∈ rs, r.clause ≠ .target ∧ r.clause ≠ .sources ∧ r.clause ≠ .mergeSource) :
    (ofRegions nested seen rs).tables = [] := by
  induction rs generalizing seen with
  | nil => rfl
  | cons r rs ih =>
      obtain ⟨⟨htarget, hsources, hmerge⟩, hrest⟩ := List.forall_mem_cons.1 h
      have hfound : (ofRegion nested seen r).tables = [] := by
        unfold ofRegion
        split
        · contradiction
        · split <;> rfl
        · contradiction
        · contradiction
        · rfl
      rw [ofRegions_cons, tables_append, tables_inFrontOf, hfound, ih _ hrest, List.nil_append]

/-! ### The statement -/

/-- The names of the temporary tables that a `DROP` drops. -/
def Statement.droppedNames (s : Statement) : List String :=
  if s.kind = .drop then (s.tables.filter TableRef.isTemp).map TableRef.name else []

section

variable {ts us : List Token} {name : String} {names : List String}

theorem NamesTable.leadsToTables (h : NamesTable ts name) :
    ∀ t ∈ ts, t.leadsToTables = false := by
  induction h with
  | bare isName => simpa using Token.leadsToTables_of_isName isName
  | @qualified t dot dots ts name isName isDots inner ih =>
      have hdots : ∀ u ∈ dot :: dots, u.leadsToTables = false := fun u hu => by
        simp [Token.leadsToTables, Token.isAnyKeyword, isDots u hu]
      rw [← List.cons_append]
      refine List.forall_mem_cons.2 ⟨Token.leadsToTables_of_isName isName, ?_⟩
      exact List.forall_mem_append.2 ⟨hdots, ih⟩

theorem ListsTables.leadsToTables (h : ListsTables ts names) :
    ∀ t ∈ ts, t.leadsToTables = false := by
  induction h with
  | one first => exact first.leadsToTables
  | @cons ts us comma name names first isComma rest ih =>
      have hcomma : comma.leadsToTables = false := by
        simp [Token.leadsToTables, Token.isAnyKeyword, isComma]
      exact List.forall_mem_append.2
        ⟨first.leadsToTables, List.forall_mem_cons.2 ⟨hcomma, ih⟩⟩

theorem DropsTables.leadsToTables (h : DropsTables ts names us)
    (hus : ∀ t ∈ us, t.leadsToTables = false) : ∀ t ∈ ts, t.leadsToTables = false := by
  have hword : ∀ {t : Token} {word : Keyword}, t.isKeyword word →
      word ≠ .FROM ∧ word ≠ .ON → t.leadsToTables = false := fun ht hword => by
    simp [Token.leadsToTables, Token.isAnyKeyword, Token.kind_of_isKeyword ht, hword]
  cases h with
  | plain isDrop isTable lists stop =>
      simp only [List.forall_mem_cons, List.forall_mem_append]
      exact ⟨hword isDrop (by decide), hword isTable (by decide), lists.leadsToTables, hus⟩
  | ifExists isDrop isTable isIf isExists lists stop =>
      simp only [List.forall_mem_cons, List.forall_mem_append]
      exact ⟨hword isDrop (by decide), hword isTable (by decide), hword isIf (by decide),
        hword isExists (by decide), lists.leadsToTables, hus⟩

theorem DropsTables.exists_cons (h : DropsTables ts names us) :
    ∃ drop rest, ts = drop :: rest ∧ drop.isKeyword .DROP := by
  cases h with
  | plain isDrop _ _ _ => exact ⟨_, _, rfl, isDrop⟩
  | ifExists isDrop _ _ _ _ _ => exact ⟨_, _, rfl, isDrop⟩

namespace Statement

/-- The tables of the clauses, and the first one of the list. -/
theorem tables_build_drop (nested : List Token → Statement) (h : DropsTables ts names us) :
    (build nested ts).kind = .drop ∧ (build nested ts).tempTable = none ∧
      ∃ others, (build nested ts).tables.map TableRef.name = others ++ names.take 1 ∧
        ((∀ t ∈ us, t.leadsToTables = false) → others = []) := by
  obtain ⟨hkind, table, htable, hname⟩ := h.table_ofNamed
  obtain ⟨first, rest, hts, isDrop⟩ := h.exists_cons
  have hleads := h.leadsToTables
  clear h
  subst hts
  have hwith : first.isKeyword .WITH = false := by
    simp [Token.isKeyword, Token.kind_of_isKeyword isDrop]
  have hlayout : (Layout.ofTokens .drop [] (first :: rest)).regions =
      (Region.cut .drop {} (first :: rest)).2 := by
    simp [Layout.ofTokens, StatementKind.isDml]
  have htarget : Region.target? nested (Region.cut .drop {} (first :: rest)).2 = none := by
    have hnone : Region.first? .target (Region.cut .drop {} (first :: rest)).2 = none := by
      simpa [Region.first?] using fun r => Region.clause_ne_target_of_mem_cut (r := r)
    simp [Region.target?, hnone]
  have hinto : ∀ columns,
      Region.selectedInto columns (Region.cut .drop {} (first :: rest)).2 = none := by
    intro columns
    rw [Region.selectedInto, List.getLast?_eq_none_iff, List.filterMap_eq_nil_iff]
    exact fun r hr => if_neg (Region.clause_ne_into_of_mem_cut_drop hr)
  refine ⟨by simp [build, hwith, hkind], ?_, (Sources.ofRegions nested false
    (Region.cut .drop {} (first :: rest)).2).tables.map TableRef.name, ?_, fun hus => ?_⟩
  · simp [build, hwith, hkind, hlayout, hinto, ObjectHead.ofBody, ObjectHead.tempTable_ofNamed]
  · have hfirst : names.take 1 = [table.name] := by
      rw [List.take_one, ← hname, Option.toList_some]
    simp [build, hwith, hkind, hlayout, htarget, placeTarget, ObjectHead.ofBody, htable,
      linkDerived_eq, hfirst, Function.comp_def]
  · rw [Sources.tables_ofRegions_eq_nil, List.map_nil]
    exact fun r hr => ⟨Region.clause_ne_target_of_mem_cut hr,
      Region.clause_of_mem_cut_drop (by simp) (hleads hus) hr⟩

/-- Of the temporary tables in the list only the first is dropped. -/
theorem droppedNames_parse (h : DropsTables ts names us) :
    (parse ts).kind = .drop ∧ (parse ts).tempTable = none ∧
      ∃ others, (parse ts).droppedNames =
          others ++ (names.take 1).filter (fun n => (TempKind.ofName? n).isSome) ∧
        ((∀ t ∈ us, t.leadsToTables = false) → others = []) := by
  obtain ⟨hkind, htemp, others, htables, hothers⟩ := tables_build_drop (ofQuery maxNesting) h
  have hparse : (parse ts).kind = .drop := by rw [parse, markedIn]; exact hkind
  have hnames : (parse ts).tables.map TableRef.name = others ++ names.take 1 := by
    rw [parse, tables_markedIn, List.map_map, ← htables]
    exact List.map_congr_left fun t _ => TableRef.name_markedIn _ t
  have htempTable : (parse ts).tempTable = none := by rw [parse, markedIn]; exact htemp
  refine ⟨hparse, htempTable, others.filter fun n => (TempKind.ofName? n).isSome, ?_,
    fun hus => ?_⟩
  · rw [droppedNames, if_pos hparse, ← List.filter_append, ← hnames, List.filter_map]
    rfl
  · rw [hothers hus, List.filter_nil]

end Statement

end

end Tsql
