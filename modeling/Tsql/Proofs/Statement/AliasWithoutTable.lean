import Tsql.Proofs.Statement.Captured
import Tsql.Proofs.Statement.Flat
import Tsql.Proofs.Statement.Issues
import Tsql.Proofs.Statement.TableLists

/-!
Where an `AS` is reported to have no table in front of it.

The reader of a list of tables goes through the list table by table, and through what stands in
parentheses without a query as a list of its own (`TableList.Reads`). It reports each `AS` that it comes to
in place of a table. Behind a query in parentheses it takes the alias together with the query, so an `AS`
there is never come to; behind any other source in parentheses, such as a list of `VALUES`, it goes on
right behind the parenthesis and comes to the `AS` (`Statement.ReportsAs`).
-/

namespace Tsql

/-! ### Reading a list -/

/-- The tokens behind a query in place of a table and behind its alias. -/
def behindQuery (ts : List Token) : List Token :=
  let (name, behindAlias) := tableAlias (Group.after ts).rest
  if name.isSome then (columnNames behindAlias).2 else behindAlias

theorem derivedTable_rest (nested : List Token → Statement) (clause : Clause) (t : Token)
    (ts : List Token) : (derivedTable nested clause t ts).2.2 = behindQuery ts := by
  unfold derivedTable behindQuery
  dsimp only
  split <;> rfl

theorem behindQuery_suffix (ts : List Token) : behindQuery ts <:+ (Group.after ts).rest := by
  rw [← derivedTable_rest (fun _ => {}) .sources ⟨.comma, "", default, default⟩]
  exact (skips_derivedTable _ _ _ _).suffix

/-- An `AS` behind a query is taken together with the query. -/
theorem behindQuery_suffix_of_isKeyword {ts more : List Token} {a : Token}
    (h : (Group.after ts).rest = a :: more) (ha : a.isKeyword .AS) : behindQuery ts <:+ more := by
  have halias : (tableAlias (a :: more)).2 <:+ more := by
    simp only [tableAlias, ha, if_true]
    split
    · split
      · exact List.suffix_cons _ _
      · split
        · exact List.suffix_cons _ _
        · exact List.suffix_rfl
    · exact List.suffix_rfl
  unfold behindQuery
  rw [h]
  dsimp only
  split
  · exact (skips_columnNames _).suffix.trans halias
  · exact halias

namespace TableList

/-- The lists that the reader of a list goes on with behind what stands first. -/
def next : List Token → List (List Token)
  | [] => []
  | t :: rest =>
    if t.isKeyword .ON then [skipCondition rest]
    else if t.isKeyword .AS then [rest.tail]
    else if t.isAnyKeyword [.PIVOT, .UNPIVOT] then [behindPivot rest]
    else if t.isOpen then
      if startsQuery (Group.after rest).inner then [behindQuery rest]
      else [(Group.after rest).inner, (Group.after rest).rest]
    else if t.isName then [(namedTable (t :: rest)).2]
    else [rest]

section

variable {t : Token} {rest : List Token}

theorem next_of_query (ht : t.isOpen) (h : startsQuery (Group.after rest).inner) :
    next (t :: rest) = [behindQuery rest] := by
  have hkind : t.kind = .parenOpen := of_decide_eq_true ht
  simp [next, Token.isKeyword, Token.isAnyKeyword, hkind, ht, h]

theorem next_of_group (ht : t.isOpen) (h : ¬ startsQuery (Group.after rest).inner) :
    next (t :: rest) = [(Group.after rest).inner] ++ [(Group.after rest).rest] := by
  have hkind : t.kind = .parenOpen := of_decide_eq_true ht
  simp [next, Token.isKeyword, Token.isAnyKeyword, hkind, ht, h]

end

/-- A reader of the lists comes to the tokens and looks for a table there. -/
inductive Reads : List (List Token) → List Token → Prop
  | here {lists : List (List Token)} {ts : List Token} (h : ts ∈ lists) : Reads lists ts
  | behind {lists : List (List Token)} {ts us : List Token} (h : ts ∈ lists)
      (hus : Reads (next ts) us) : Reads lists us

/-- A reader of the lists comes to an `AS` with the range in place of a table. -/
def ComesToAs (lists : List (List Token)) (r : Range) : Prop :=
  ∃ a us, Reads lists (a :: us) ∧ a.isKeyword .AS ∧ a.range = r

variable {lists more : List (List Token)} {ts us rest : List Token} {t : Token} {r : Range}

theorem reads_iff : Reads lists us ↔ ∃ ts ∈ lists, ts = us ∨ Reads (next ts) us := by
  constructor
  · rintro (h | ⟨h, hus⟩)
    · exact ⟨us, h, .inl rfl⟩
    · exact ⟨_, h, .inr hus⟩
  · rintro ⟨ts, h, rfl | hus⟩
    · exact .here h
    · exact .behind h hus

theorem reads_append : Reads (lists ++ more) us ↔ Reads lists us ∨ Reads more us := by
  rw [reads_iff, reads_iff, reads_iff, ← exists_or]
  simp only [List.mem_append, or_and_right]

/-- Behind a group without a query the reader goes on right behind the parenthesis. -/
theorem Reads.behind_group (h : Reads lists (t :: rest)) (ht : t.isOpen)
    (hquery : ¬ startsQuery (Group.after rest).inner) (hrest : (Group.after rest).rest = us) :
    Reads lists us := by
  generalize hts : t :: rest = ts at h
  induction h with
  | here h =>
      subst hts
      refine .behind h ?_
      rw [next_of_group ht hquery, reads_append, hrest]
      exact .inr (.here (List.mem_singleton_self us))
  | behind h _ ih => exact .behind h (ih hts)

theorem comesToAs_append :
    ComesToAs (lists ++ more) r ↔ ComesToAs lists r ∨ ComesToAs more r := by
  simp only [ComesToAs, reads_append, or_and_right, exists_or]

theorem not_comesToAs_nil : ¬ ComesToAs [] r := by
  rintro ⟨a, us, hreads, -, -⟩
  obtain ⟨ts, hts, -⟩ := reads_iff.1 hreads
  exact List.not_mem_nil hts

theorem comesToAs_cons :
    ComesToAs [t :: rest] r ↔ t.isKeyword .AS ∧ t.range = r ∨ ComesToAs (next (t :: rest)) r := by
  unfold ComesToAs
  constructor
  · rintro ⟨a, us, hreads, ha, hr⟩
    obtain ⟨_, hts, heq | hbehind⟩ := reads_iff.1 hreads
    · obtain ⟨rfl, -⟩ := List.cons.inj (heq ▸ List.mem_singleton.1 hts)
      exact .inl ⟨ha, hr⟩
    · exact .inr ⟨a, us, List.mem_singleton.1 hts ▸ hbehind, ha, hr⟩
  · rintro (⟨ht, hr⟩ | ⟨a, us, hreads, ha, hr⟩)
    · exact ⟨t, rest, .here (List.mem_singleton_self _), ht, hr⟩
    · exact ⟨a, us, .behind (List.mem_singleton_self _) hreads, ha, hr⟩

theorem comesToAs_of_next (hnext : next (t :: rest) = lists) (ht : ¬ t.isKeyword .AS) :
    ComesToAs [t :: rest] r ↔ ComesToAs lists r := by
  rw [comesToAs_cons, hnext]
  exact or_iff_right fun h => ht h.1

/-- The issues of a list are those at the `AS` that its reader comes to. -/
theorem mem_issues_tableList {nested : List Token → Statement} (clause : Clause) (ts : List Token) :
    ⟨.aliasWithoutTable, r⟩ ∈ (tableList nested clause ts).issues ↔ ComesToAs [ts] r := by
  fun_induction tableList nested clause ts with
  | case1 =>
      refine iff_of_false List.not_mem_nil ?_
      rintro ⟨a, us, hreads, -, -⟩
      obtain ⟨_, hts, heq | hbehind⟩ := reads_iff.1 hreads
      · exact List.cons_ne_nil a us (heq ▸ List.mem_singleton.1 hts)
      · obtain rfl := List.mem_singleton.1 hts
        obtain ⟨_, hts, -⟩ := reads_iff.1 hbehind
        exact List.not_mem_nil hts
  | case2 t rest hon ih =>
      have hnext : next (t :: rest) = [skipCondition rest] := by simp [next, hon]
      have has : ¬ t.isKeyword .AS := by simp [Token.isKeyword, Token.kind_of_isKeyword hon]
      rw [ih, comesToAs_of_next hnext has]
  | case3 t rest hon has ih =>
      have hnext : next (t :: rest) = [rest.tail] := by simp [next, hon, has]
      rw [Sources.issues_append, List.mem_append, ih, comesToAs_cons, hnext]
      refine or_congr_left ?_
      simp [has, eq_comm]
  | case4 t rest hon has hpivot ih =>
      have hnext : next (t :: rest) = [behindPivot rest] := by simp [next, hon, has, hpivot]
      rw [ih, comesToAs_of_next hnext has]
  | case5 t rest hon has hpivot hopen group hquery derived ih =>
      have hbehind : derived.2.2 = behindQuery rest := derivedTable_rest nested clause t rest
      rw [comesToAs_of_next (next_of_query hopen hquery) has, ← hbehind, ← ih, Sources.issues_append,
        List.mem_append, Sources.issues_append, List.append_nil]
      refine or_iff_right fun h => ?_
      exact absurd (anomaly_derivedTable h) (by simp)
  | case6 t rest hon has hpivot hopen group hquery ihInner ihRest =>
      rw [comesToAs_of_next (next_of_group hopen hquery) has, comesToAs_append, ← ihInner, ← ihRest,
        Sources.issues_append, List.mem_append, Sources.issues_inFrontOf]
  | case7 t rest hon has hpivot hopen hname named ih =>
      have hnext : next (t :: rest) = [named.2] := by
        simp [next, hon, has, hpivot, hopen, hname, named]
      rw [comesToAs_of_next hnext has, ← ih]
      rfl
  | case8 t rest hon has hpivot hopen hname ih =>
      have hnext : next (t :: rest) = [rest] := by simp [next, hon, has, hpivot, hopen, hname]
      rw [ih, comesToAs_of_next hnext has]

/-! ### The order of what is read -/

theorem flatten_next_sublist (ts : List Token) : (next ts).flatten.Sublist ts.tail := by
  have hbehind : ∀ {us rest : List Token}, us <:+ rest → [us].flatten.Sublist rest := by
    intro us rest h
    rw [List.flatten_singleton]
    exact h.sublist
  unfold next
  split
  · exact List.Sublist.slnil
  · next t rest =>
    rw [List.tail_cons]
    split
    · exact hbehind (skips_skipCondition rest).suffix
    · split
      · exact hbehind (List.tail_suffix rest)
      · split
        · exact hbehind (skips_behindPivot rest).suffix
        · split
          · split
            · exact hbehind ((behindQuery_suffix rest).trans (Group.rest_suffix rest))
            · simpa using Group.inner_append_rest_sublist rest
          · split
            · next hname =>
              have hlt : (namedTable (t :: rest)).2.length < (t :: rest).length := length_namedTable_lt hname
              have hsuffix := (skips_namedTable (t :: rest)).suffix
              exact hbehind ((List.suffix_cons_iff.1 hsuffix).resolve_left fun heq =>
                absurd (congrArg List.length heq) (Nat.ne_of_lt hlt))
            · exact hbehind List.suffix_rfl

theorem Reads.sublist (h : Reads lists us) : us.Sublist lists.flatten := by
  induction h with
  | here h => exact (List.infix_of_mem_flatten h).sublist
  | @behind lists ts us h hus ih =>
      have hnext := (flatten_next_sublist ts).trans (List.tail_sublist ts)
      exact (ih.trans hnext).trans (List.infix_of_mem_flatten h).sublist

/-- What is read from a list on stands in the list. -/
theorem sublist_of_reads (h : ts = us ∨ Reads (next ts) us) : us.Sublist ts := by
  rcases h with rfl | h
  · exact List.Sublist.refl _
  · exact h.sublist.trans ((flatten_next_sublist ts).trans (List.tail_sublist ts))

theorem start_ne_of_mem (h : IsOrdered lists.flatten) (hts : ts ∈ lists) (hus : us ∈ lists)
    (hne : ts ≠ us) {u : Token} (ht : t ∈ ts) (hu : u ∈ us) : t.start ≠ u.start := by
  rw [← List.flatMap_id] at h
  exact h.start_ne_of_mem_flatMap hts hus hne ht hu

/-- No reader comes to the `AS` behind a query in parentheses that a reader has come to. -/
theorem start_ne_of_reads {a u : Token} {behind : List Token} (h : IsOrdered lists.flatten)
    (ht : Reads lists (t :: rest)) (hopen : t.isOpen) (hquery : startsQuery (Group.after rest).inner)
    (hrest : (Group.after rest).rest = a :: behind) (ha : a.isKeyword .AS)
    (hu : Reads lists (u :: us)) (hu' : u.isKeyword .AS) : a.start ≠ u.start := by
  have hsuffix : a :: behind <:+ t :: rest :=
    hrest ▸ (Group.rest_suffix rest).trans (List.suffix_cons t rest)
  generalize hgroup : t :: rest = group at ht hsuffix
  induction ht with
  | @here lists ts hin =>
      obtain ⟨vs, hvs, hread⟩ := reads_iff.1 hu
      have hmem := (sublist_of_reads hread).subset List.mem_cons_self
      by_cases hsame : ts = vs
      · subst hsame hgroup
        rcases hread with heq | hbehind
        · -- the parenthesis is no `AS`
          obtain ⟨rfl, -⟩ := List.cons.inj heq
          rw [Token.isOpen_of_isKeyword hu'] at hopen
          contradiction
        · -- behind the query the reader has passed the `AS`
          rw [next_of_query hopen hquery] at hbehind
          have hlater := hbehind.sublist
          rw [List.flatten_singleton] at hlater
          have hpassed := (behindQuery_suffix_of_isKeyword hrest ha).subset
            (hlater.subset List.mem_cons_self)
          have horder : IsOrdered ([a] ++ behind) :=
            h.mono (hsuffix.isInfix.trans (List.infix_of_mem_flatten hin))
          exact horder.start_ne (List.mem_singleton_self a) hpassed
      · exact start_ne_of_mem h hin hvs hsame (hsuffix.subset List.mem_cons_self) hmem
  | @behind lists ts group hin hgroup' ih =>
      have hfront := sublist_of_reads (.inr hgroup')
      have hbelow := h.mono (List.infix_of_mem_flatten hin)
      obtain ⟨vs, hvs, hread⟩ := reads_iff.1 hu
      have hmem := (sublist_of_reads hread).subset List.mem_cons_self
      by_cases hsame : ts = vs
      · subst hsame
        rcases hread with heq | hbehind
        · -- what is read behind the token stands behind it
          subst heq
          have hlater := (hgroup'.sublist.trans (flatten_next_sublist _)).subset
            (hsuffix.subset List.mem_cons_self)
          have horder : IsOrdered ([u] ++ us) := hbelow
          exact (horder.start_ne (List.mem_singleton_self u) hlater).symm
        · have hnext := (flatten_next_sublist ts).trans (List.tail_sublist ts)
          exact ih (hbelow.sublist hnext) hbehind hgroup hsuffix
      · exact start_ne_of_mem h hin hvs hsame (hfront.subset (hsuffix.subset List.mem_cons_self)) hmem

end TableList

/-! ### The lists of a statement -/

section

variable {nested : List Token → Statement} {ts us : List Token} {r : Range}

theorem mem_issues_targetTable (ts : List Token) :
    ⟨.aliasWithoutTable, r⟩ ∈ (targetTable nested ts).2.issues ↔
      TableList.ComesToAs (targetLists ts) r := by
  unfold targetTable targetLists
  cases skipTargetWords ts with
  | nil => exact iff_of_false List.not_mem_nil TableList.not_comesToAs_nil
  | cons t rest =>
      by_cases hopen : t.isOpen
      · by_cases hquery : startsQuery (Group.after rest).inner
        · simp only [hopen, hquery, if_true]
          refine iff_of_false (fun h => ?_) TableList.not_comesToAs_nil
          exact absurd (anomaly_derivedTable h) (by simp)
        · simp only [hopen, hquery, if_true]
          exact TableList.mem_issues_tableList .target _
      · simp only [hopen]
        exact iff_of_false List.not_mem_nil TableList.not_comesToAs_nil

theorem Sources.mem_issues_ofRegion (seen : Bool) (region : Region) :
    ⟨.aliasWithoutTable, r⟩ ∈ (ofRegion nested seen region).issues ↔
      TableList.ComesToAs region.tableLists r := by
  unfold ofRegion Region.tableLists
  cases region.clause
  case target => exact mem_issues_targetTable _
  case select =>
    refine iff_of_false (fun h => ?_) TableList.not_comesToAs_nil
    dsimp only at h
    split at h
    · exact absurd h List.not_mem_nil
    · exact absurd (anomaly_selectIssues h) (by simp)
  case sources => exact TableList.mem_issues_tableList .sources _
  case mergeSource => exact TableList.mem_issues_tableList .mergeSource _
  all_goals exact iff_of_false List.not_mem_nil TableList.not_comesToAs_nil

theorem Sources.mem_issues_ofRegions (seen : Bool) (rs : List Region) :
    ⟨.aliasWithoutTable, r⟩ ∈ (ofRegions nested seen rs).issues ↔
      TableList.ComesToAs (rs.flatMap Region.tableLists) r := by
  induction rs generalizing seen with
  | nil => exact iff_of_false List.not_mem_nil TableList.not_comesToAs_nil
  | cons region rs ih =>
      rw [ofRegions_cons, issues_append, List.mem_append, issues_inFrontOf, mem_issues_ofRegion, ih,
        List.flatMap_cons, TableList.comesToAs_append]

namespace Statement

/-- An `AS` is reported to have no table if and only if the reader of one of the lists comes to it. -/
theorem mem_issues_build (nested : List Token → Statement) (ts : List Token) (r : Range) :
    ⟨.aliasWithoutTable, r⟩ ∈ (build nested ts).issues ↔ TableList.ComesToAs (tableLists ts) r := by
  rw [aliasWithoutTable_mem_build, found, tableLists, layout_eq (fun _ => {}) nested]
  exact Sources.mem_issues_ofRegions false _

/-- The statement reports the `AS` that have no table in the lists of tables among the tokens. -/
structure ReportsAs (s : Statement) (ts : List Token) : Prop where
  /-- One is reported if and only if the reader of a list comes to it in place of a table. -/
  comesTo : ∀ r, ⟨.aliasWithoutTable, r⟩ ∈ s.issues ↔ TableList.ComesToAs (tableLists ts) r
  /-- One right behind a source in parentheses is reported if and only if there is no query in the
  parentheses. -/
  behindGroup : ∀ t rest a more, TableList.Reads (tableLists ts) (t :: rest) → t.isOpen →
    (Group.after rest).rest = a :: more → a.isKeyword .AS →
      (⟨.aliasWithoutTable, a.range⟩ ∈ s.issues ↔ ¬ startsQuery (Group.after rest).inner)

theorem reportsAs_build (hts : IsOrdered ts) : (build nested ts).ReportsAs ts where
  comesTo := mem_issues_build nested ts
  behindGroup t rest a more ht hopen hrest ha := by
    rw [mem_issues_build]
    constructor
    · rintro ⟨u, us, hu, hu', hrange⟩ hquery
      have hne := TableList.start_ne_of_reads (hts.sublist (flatten_tableLists ts)) ht hopen hquery
        hrest ha hu hu'
      exact hne (congrArg Range.start hrange).symm
    · exact fun hquery => ⟨a, more, ht.behind_group hopen hquery hrest, ha, rfl⟩

theorem ReportsAs.markedIn {s : Statement} (h : s.ReportsAs ts) (names : List String) :
    (s.markedIn names).ReportsAs ts where
  comesTo := by
    rw [issues_markedIn]
    exact h.comesTo
  behindGroup := by
    rw [issues_markedIn]
    exact h.behindGroup

/-! ### All levels -/

namespace IsBuilt

variable {levels depth : Nat} {s n : Statement}

theorem reportsAs (h : IsBuilt levels s ts) (hts : IsOrdered ts) : s.ReportsAs ts := by
  induction h with
  | built ts => exact reportsAs_build hts
  | marked _ names ih => exact (ih hts).markedIn names

theorem eq_nil_of_mem_nested (h : IsBuilt 0 s ts) (hn : n ∈ s.nested) :
    n.issues = [] ∧ n.nested = [] := by
  induction h generalizing n with
  | built ts =>
      rcases exists_of_mem_nested_build hn with rfl | ⟨us, -, rfl⟩
      · exact ⟨rfl, rfl⟩
      · exact ⟨rfl, rfl⟩
  | marked _ names ih =>
      obtain ⟨m, hm, names', rfl⟩ := exists_of_mem_nested_markedIn hn
      obtain ⟨hissues, hnested⟩ := ih hm
      exact ⟨(issues_markedIn names' m).trans hissues, nested_markedIn_eq_nil hnested names'⟩

/-- Below the last level that is described nothing is reported. -/
theorem issues_eq_nil (h : IsBuilt levels s ts) (hdepth : levels < depth)
    (hn : n ∈ s.atDepth depth) : n.issues = [] := by
  induction depth generalizing levels s ts with
  | zero => exact absurd hdepth (Nat.not_lt_zero levels)
  | succ depth ih =>
      obtain ⟨m, hm, hn⟩ := List.mem_flatMap.1 hn
      cases levels with
      | zero =>
          obtain ⟨hissues, hnested⟩ := h.eq_nil_of_mem_nested hm
          cases depth with
          | zero => exact List.mem_singleton.1 hn ▸ hissues
          | succ depth =>
              rw [atDepth, hnested] at hn
              exact absurd hn List.not_mem_nil
      | succ levels =>
          obtain ⟨us, -, hbuilt⟩ := h.exists_of_mem_nested hm
          exact ih hbuilt (Nat.lt_of_succ_lt_succ hdepth) hn

end IsBuilt

/-! ### Sources in parentheses -/

end Statement

/-- The tokens `us` are the list of a `SELECT * FROM`, or the source of a `MERGE`. -/
inductive OpensList : List Token → List Token → Prop
  | select {verb star sources : Token} {us : List Token} (hverb : verb.isKeyword .SELECT)
      (hstar : star.kind = .operator) (hsources : sources.isKeyword .FROM) :
      OpensList (verb :: star :: sources :: us) us
  | merge {verb target source : Token} {us : List Token} (hverb : verb.isKeyword .MERGE)
      (htarget : target.isName) (hsource : source.isKeyword .USING) :
      OpensList (verb :: target :: source :: us) us

theorem Region.exists_cut_group {o c a : Token} {vs : List Token} (kind : StatementKind) (s : State)
    (hopen : o.isOpen) (hvs : isBalanced vs) (hclose : c.isClose) (ha : a.isKeyword .AS)
    (hlist : ¬ s.isColumnList kind vs) (us : List Token) :
    ∃ behind, (cut kind s (o :: (vs ++ c :: a :: us))).1 = o :: (vs ++ c :: a :: behind) := by
  have hgroup := Group.after_balanced hvs hclose (a :: us)
  have has := Token.kind_of_isKeyword ha
  have hclause : ∀ s : State, s.clause? kind a .AS us = none := by
    simp [State.clause?, startsJoin_of_kind has (by decide)]
  rw [cut_group hopen (by rwa [hgroup]), hgroup]
  dsimp only
  rw [cut_keyword has (hclause _)]
  exact ⟨_, by rw [Group.tokens, List.cons_append, List.append_assoc]; rfl⟩

namespace Statement

/-- A source in parentheses with an `AS` behind it is read as one of the lists. -/
theorem exists_mem_tableLists {o c a : Token} {vs : List Token}
    (h : OpensList ts (o :: (vs ++ c :: a :: us))) (hopen : o.isOpen) (hvs : isBalanced vs)
    (hclose : c.isClose) (ha : a.isKeyword .AS) :
    ∃ behind, o :: (vs ++ c :: a :: behind) ∈ tableLists ts := by
  generalize hlist : o :: (vs ++ c :: a :: us) = list at h
  cases h with
  | @select verb star sources _ hverb hstar hsources =>
      subst hlist
      have hkind := Token.kind_of_isKeyword hverb
      have hfrom := Token.kind_of_isKeyword hsources
      obtain ⟨s, -, hcut⟩ := Region.exists_cut_selectFrom hkind hstar hfrom
        (o :: (vs ++ c :: a :: us))
      obtain ⟨behind, hgroup⟩ := Region.exists_cut_group .select s hopen hvs hclose ha
        (by simp [Region.State.isColumnList_select]) us
      refine ⟨behind, hgroup ▸ tail_mem_tableLists ⟨.sources, sources, _⟩ ?_
        (.inl ⟨rfl, hsources⟩)⟩
      have hstatement : StatementKind.ofTokens (verb :: star :: sources :: o :: (vs ++ c :: a :: us)) =
          .select := by
        simp [StatementKind.ofTokens, hkind, Keyword.dmlKind?]
      rw [layout_of_not_with _ (by simp [Token.isKeyword, hkind]), hstatement]
      refine Layout.mem_of_mem_cut ?_
      show _ ∈ (Region.cut .select {} _).2
      rw [hcut]
      exact List.mem_cons_of_mem _ List.mem_cons_self
  | @merge verb target source _ hverb htarget hsource =>
      subst hlist
      have hkind := Token.kind_of_isKeyword hverb
      have husing := Token.kind_of_isKeyword hsource
      obtain ⟨htopen, htword⟩ := Token.of_isName htarget
      let s : Region.State := { last := some .mergeSource, previous := some source }
      obtain ⟨behind, hgroup⟩ := Region.exists_cut_group .merge s hopen hvs hclose ha
        (by simp [s, Region.State.isColumnList, Token.isKeyword, husing]) us
      refine ⟨behind, hgroup ▸ tail_mem_tableLists ⟨.mergeSource, source, _⟩ ?_ (.inr rfl)⟩
      have hstatement : StatementKind.ofTokens (verb :: target :: source :: o :: (vs ++ c :: a :: us)) =
          .merge := by
        simp [StatementKind.ofTokens, hkind, Keyword.dmlKind?]
      rw [layout_of_not_with _ (by simp [Token.isKeyword, hkind]), hstatement]
      refine Layout.mem_of_mem_cut ?_
      have hverb' : ∀ s : Region.State, s.clause? .merge verb .MERGE
          (target :: source :: o :: (vs ++ c :: a :: us)) = none :=
        fun s => Region.State.clause?_of_verb hkind (by decide)
      have hsource' : ∀ s : Region.State, s.clause? .merge source .USING
          (o :: (vs ++ c :: a :: us)) = some .mergeSource := by
        simp [Region.State.clause?, Region.startsJoin_of_kind husing (by decide)]
      show _ ∈ (Region.cut .merge { last := some .target } _).2
      rw [Region.cut_keyword hkind (hverb' _), Region.cut_other (by simp [htopen]) htword,
        Region.cut_clause husing (hsource' _)]
      exact List.mem_cons_self

/-- In a parsed statement and in each one that is described inside it, an `AS` is reported to have no
table if and only if the reader of a list of tables comes to it in place of a table. Behind a source in
parentheses that is so if and only if the source is no query, whatever else stands in the parentheses. -/
theorem reportsAs_parse (hts : IsOrdered ts) :
    (∀ depth ≤ maxNesting, ∀ n ∈ (parse ts).atDepth depth,
      ∃ us, us <:+: ts ∧ n.range = .ofTokens us ∧ n.ReportsAs us) ∧
    (∀ depth > maxNesting, ∀ n ∈ (parse ts).atDepth depth, n.issues = []) ∧
    ∀ o vs c a us, OpensList ts (o :: (vs ++ c :: a :: us)) → o.isOpen → isBalanced vs → c.isClose →
      a.isKeyword .AS →
        (⟨.aliasWithoutTable, a.range⟩ ∈ (parse ts).issues ↔ ¬ startsQuery vs) := by
  have hbuilt : IsBuilt maxNesting (parse ts) ts := .marked (.built ts) []
  refine ⟨fun depth hdepth n hn => ?_, fun depth hdepth n hn => hbuilt.issues_eq_nil hdepth hn, ?_⟩
  · obtain ⟨us, hus, hinner⟩ := hbuilt.exists_of_mem_atDepth hdepth hn
    exact ⟨us, hus, hinner.range_eq, hinner.reportsAs (hts.mono hus)⟩
  · intro o vs c a us hlist hopen hvs hclose ha
    obtain ⟨behind, hmem⟩ := exists_mem_tableLists hlist hopen hvs hclose ha
    have hgroup := Group.after_balanced hvs hclose (a :: behind)
    have hreports := (hbuilt.reportsAs hts).behindGroup o _ a behind (.here hmem) hopen
      (by rw [hgroup]) ha
    rwa [hgroup] at hreports

/-- A query with an alias, and a list of values with an alias. Of the `AS` in the query and the ones
behind the parentheses only the last is reported. -/
theorem reportsAs_parse_join :
    let ts := tokenize "SELECT * FROM (SELECT 1 AS x) AS v JOIN (VALUES (1)) AS w ON 1 = 1"
    (∃ us, us <:+: ts ∧ (parse ts).range = .ofTokens us ∧ (parse ts).ReportsAs us) ∧
      (ts.filter fun t => t.isKeyword .AS).map Token.range =
        [⟨⟨1, 25⟩, ⟨1, 27⟩⟩, ⟨⟨1, 31⟩, ⟨1, 33⟩⟩, ⟨⟨1, 54⟩, ⟨1, 56⟩⟩] ∧
      (parse ts).issues = [⟨.aliasWithoutTable, ⟨⟨1, 54⟩, ⟨1, 56⟩⟩⟩] := by
  intro ts
  refine ⟨?_, by decide +kernel, by decide +kernel⟩
  exact (reportsAs_parse (isOrdered_tokenize _)).1 0 (Nat.zero_le _) _ (List.mem_singleton_self _)

/-- The `AS` behind the values is reported, though a parenthesised source ends right in front of it, and
the column of the alias is taken for a table. -/
theorem reported_behind_values :
    let ts := tokenize "SELECT * FROM (VALUES (1)) AS v (a)"
    (∃ a ∈ ts, ts[9]? = some a ∧ a.isKeyword .AS ∧ ts[8]?.any Token.isClose ∧
      ⟨.aliasWithoutTable, a.range⟩ ∈ (parse ts).issues) ∧
    (parse ts).hasErrors ∧ (parse ts).tables.map TableRef.name = ["a"] := by
  decide +kernel

end Statement

end

end Tsql
