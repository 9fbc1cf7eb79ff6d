import Tsql.Proofs.Statement.Counted

/-!
The lists of tables of a statement, and the tables in them.

Tables are read from the regions of `FROM`, of joins and of `USING`, and from a target that is a list in
parentheses (`Region.tableLists`). The lists of a statement stand one behind the other in its tokens
(`Statement.flatten_tableLists`), and the tables in them are read in the order of the text, each from
tokens of its own (`Statement.pairwise_listedTables`).
-/

namespace Tsql

section

variable {nested : List Token → Statement} {ts us xs ys : List Token} {t u : TableRef}

/-! ### Tables and their tokens -/

/-- The table before it is linked to its query and before it is marked. -/
def TableRef.unlinked (t : TableRef) : TableRef :=
  { t with isCte := false, subqueryIndex := none }

theorem TableRef.unlinked_eq_iff : t.unlinked = t ↔ t.isCte = false ∧ t.subqueryIndex = none := by
  cases t
  simp [unlinked, eq_comm]

/-- The table is read from tokens that stand together among the given ones, and from nothing else. -/
structure TableRef.ReadIn (t : TableRef) (ts : List Token) : Prop where
  span : ∃ us, us <:+: ts ∧ us ≠ [] ∧ t.range = .ofTokens us
  unlinked : t.unlinked = t

theorem TableRef.ReadIn.mono (h : t.ReadIn ts) (hin : ts <:+: us) : t.ReadIn us := by
  obtain ⟨⟨vs, hvs, hne, hrange⟩, hunlinked⟩ := h
  exact ⟨⟨vs, hvs.trans hin, hne, hrange⟩, hunlinked⟩

theorem TableRef.ReadIn.stop_le_start (ht : t.ReadIn xs) (hu : u.ReadIn ys)
    (h : IsOrdered (xs ++ ys)) : t.range.stop ≤ u.range.start := by
  obtain ⟨as, has, hne, hrange⟩ := ht.span
  obtain ⟨bs, hbs, hne', hrange'⟩ := hu.span
  rw [hrange, hrange']
  exact h.stop_le_start_of_sublist has.sublist hbs.sublist hne hne'

theorem Range.exists_taken (h : us <:+ ts) : ∃ front, ts = front ++ us ∧ taken ts us = .ofTokens front := by
  obtain ⟨front, rfl⟩ := h
  exact ⟨front, rfl, by rw [taken, List.length_append, Nat.add_sub_cancel, List.take_left]⟩

/-- What a reader takes in front of what it leaves. -/
def TableRef.TakenFrom (t : TableRef) (ts us : List Token) : Prop :=
  ∃ front, ts = front ++ us ∧ t.ReadIn front

theorem TableRef.TakenFrom.readIn (h : t.TakenFrom ts us) : t.ReadIn ts := by
  obtain ⟨front, rfl, hread⟩ := h
  exact hread.mono (List.prefix_append front us).isInfix

theorem takenFrom_of_taken (hunlinked : t.unlinked = t) (hus : us <:+ ts) (hlt : us.length < ts.length)
    (hrange : t.range = .taken ts us) : t.TakenFrom ts us := by
  obtain ⟨front, rfl, htaken⟩ := Range.exists_taken hus
  refine ⟨front, rfl, ⟨front, List.infix_rfl, ?_, hrange.trans htaken⟩, hunlinked⟩
  rintro rfl
  exact absurd hlt (Nat.lt_irrefl _)

theorem takenFrom_namedTable (h : (namedTable ts).1 = some t) : t.TakenFrom ts (namedTable ts).2 := by
  have hsuffix := (skips_namedTable ts).suffix
  obtain ⟨-, hcte, hindex⟩ := isNamed_namedTable h
  have hrange : t.range = .taken ts (namedTable ts).2 := by
    unfold namedTable at h ⊢
    cases heq : tableName ts with
    | mk name rest =>
        cases name with
        | none => simp [heq] at h
        | some table =>
            simp only [heq] at h ⊢
            obtain rfl := Option.some.inj h
            rfl
  have hlt : (namedTable ts).2.length < ts.length := by
    cases ts with
    | nil => simp [namedTable, tableName] at h
    | cons first rest =>
        cases hname : first.isName with
        | true => exact length_namedTable_lt hname
        | false => simp [namedTable, tableName, hname] at h
  exact takenFrom_of_taken (TableRef.unlinked_eq_iff.2 ⟨hcte, hindex⟩) hsuffix hlt hrange

theorem takenFrom_derivedTable {clause : Clause} {first : Token}
    (h : (derivedTable nested clause first ts).1 = some t) :
    t.TakenFrom (first :: ts) (derivedTable nested clause first ts).2.2 := by
  have hle := length_derivedTable_le nested clause first ts
  have hskips := (skips_derivedTable nested clause first ts).suffix
  have hsuffix := (hskips.trans (Group.rest_suffix ts)).trans (List.suffix_cons first ts)
  obtain ⟨name, -, rfl⟩ := Option.map_eq_some_iff.1 h
  exact takenFrom_of_taken rfl hsuffix (Nat.lt_succ_of_le hle) rfl

theorem readIn_tableList (clause : Clause) (ts : List Token) :
    ∀ t ∈ (tableList nested clause ts).tables, t.ReadIn ts := by
  fun_induction tableList nested clause ts with
  | case1 => exact fun t ht => absurd ht List.not_mem_nil
  | case2 t rest _ ih =>
      have hsuffix := (skips_skipCondition rest).suffix.trans (List.suffix_cons t rest)
      exact fun u hu => (ih u hu).mono hsuffix.isInfix
  | case3 t rest _ _ ih =>
      have hsuffix := (List.tail_suffix rest).trans (List.suffix_cons t rest)
      exact fun u hu => (ih u hu).mono hsuffix.isInfix
  | case4 t rest _ _ _ ih =>
      have hsuffix := (skips_behindPivot rest).suffix.trans (List.suffix_cons t rest)
      exact fun u hu => (ih u hu).mono hsuffix.isInfix
  | case5 t rest _ _ _ _ group _ derived ih =>
      have hrest := (skips_derivedTable nested clause t rest).suffix.trans (Group.rest_suffix rest)
      intro u hu
      rcases List.mem_append.1 hu with hu | hu
      · exact (takenFrom_derivedTable (Option.mem_toList.1 hu)).readIn
      · exact (ih u hu).mono (hrest.trans (List.suffix_cons t rest)).isInfix
  | case6 t rest _ _ _ _ group _ ihInner ihRest =>
      have hrest := (Group.rest_suffix rest).trans (List.suffix_cons t rest)
      intro u hu
      rcases List.mem_append.1 hu with hu | hu
      · exact (ihInner u hu).mono (Group.inner_isInfix t rest)
      · exact (ihRest u hu).mono hrest.isInfix
  | case7 t rest _ _ _ _ hname named ih =>
      intro u hu
      rcases List.mem_append.1 hu with hu | hu
      · exact (takenFrom_namedTable (Option.mem_toList.1 hu)).readIn
      · exact (ih u hu).mono (skips_namedTable (t :: rest)).suffix.isInfix
  | case8 t rest _ _ _ _ _ ih =>
      exact fun u hu => (ih u hu).mono (List.suffix_cons t rest).isInfix

/-- Tables are read in the order of the text. -/
theorem pairwise_tables_tableList (clause : Clause) (h : IsOrdered ts) :
    (tableList nested clause ts).tables.Pairwise fun t u => t.range.stop ≤ u.range.start := by
  fun_induction tableList nested clause ts with
  | case1 => exact .nil
  | case2 t rest _ ih =>
      exact ih (h.mono ((skips_skipCondition rest).suffix.trans (List.suffix_cons t rest)).isInfix)
  | case3 t rest _ _ ih =>
      exact ih (h.mono ((List.tail_suffix rest).trans (List.suffix_cons t rest)).isInfix)
  | case4 t rest _ _ _ ih =>
      exact ih (h.mono ((skips_behindPivot rest).suffix.trans (List.suffix_cons t rest)).isInfix)
  | case5 t rest _ _ _ _ group _ derived ih =>
      have hrest := (skips_derivedTable nested clause t rest).suffix.trans (Group.rest_suffix rest)
      refine List.pairwise_append.2 ⟨?_, ?_, fun a ha b hb => ?_⟩
      · cases hd : derived.1 with
        | none => exact .nil
        | some d => exact List.pairwise_singleton _ _
      · exact ih (h.mono (hrest.trans (List.suffix_cons t rest)).isInfix)
      · obtain ⟨front, hsplit, hread⟩ := takenFrom_derivedTable (Option.mem_toList.1 ha)
        exact hread.stop_le_start (readIn_tableList clause _ b hb) (hsplit ▸ h)
  | case6 t rest _ _ _ _ group _ ihInner ihRest =>
      have hsplit : IsOrdered (group.inner ++ group.rest) :=
        h.sublist ((Group.inner_append_rest_sublist rest).cons t)
      refine List.pairwise_append.2 ⟨ihInner (hsplit.mono (List.prefix_append _ _).isInfix),
        ihRest (hsplit.mono (List.suffix_append _ _).isInfix), fun a ha b hb => ?_⟩
      exact (readIn_tableList clause _ a ha).stop_le_start (readIn_tableList clause _ b hb) hsplit
  | case7 t rest _ _ _ _ hname named ih =>
      refine List.pairwise_append.2 ⟨?_, ?_, fun a ha b hb => ?_⟩
      · cases hd : named.1 with
        | none => exact .nil
        | some d => exact List.pairwise_singleton _ _
      · exact ih (h.mono (skips_namedTable (t :: rest)).suffix.isInfix)
      · obtain ⟨front, hsplit, hread⟩ := takenFrom_namedTable (Option.mem_toList.1 ha)
        exact hread.stop_le_start (readIn_tableList clause _ b hb) (hsplit ▸ h)
  | case8 t rest _ _ _ _ _ ih => exact ih (h.mono (List.suffix_cons t rest).isInfix)

/-- The tables of a list depend on its tokens only. -/
theorem tables_tableList_eq (nested nested' : List Token → Statement) (clause clause' : Clause)
    (ts : List Token) :
    (tableList nested clause ts).tables = (tableList nested' clause' ts).tables := by
  fun_induction tableList nested clause ts with
  | case1 => rw [tableList]
  | case2 t rest hon ih => rw [tableList, if_pos hon, ih]
  | case3 t rest hon has ih =>
      rw [tableList, if_neg hon, if_pos has, Sources.tables_append, Sources.tables_append, ih]
  | case4 t rest hon has hpivot ih => rw [tableList, if_neg hon, if_neg has, if_pos hpivot, ih]
  | case5 t rest hon has hpivot hopen group hquery derived ih =>
      rw [tableList, if_neg hon, if_neg has, if_neg hpivot, if_pos hopen, if_pos hquery]
      have hfirst : derived.1 = (derivedTable nested' clause' t rest).1 := by
        simp only [derived, derivedTable]
      have hbehind : derived.2.2 = (derivedTable nested' clause' t rest).2.2 := by
        simp only [derived, derivedTable]
      simp only [Sources.tables_append]
      rw [ih, hfirst, hbehind]
      rfl
  | case6 t rest hon has hpivot hopen group hquery ihInner ihRest =>
      rw [tableList, if_neg hon, if_neg has, if_neg hpivot, if_pos hopen, if_neg hquery,
        Sources.tables_append, Sources.tables_append, Sources.tables_inFrontOf,
        Sources.tables_inFrontOf, ihInner, ihRest]
  | case7 t rest hon has hpivot hopen hname named ih =>
      rw [tableList, if_neg hon, if_neg has, if_neg hpivot, if_neg hopen, dif_pos hname,
        Sources.tables_append, Sources.tables_append, ih]
  | case8 t rest hon has hpivot hopen hname ih =>
      rw [tableList, if_neg hon, if_neg has, if_neg hpivot, if_neg hopen, dif_neg hname, ih]

/-! ### Lists -/

/-- The list in parentheses in place of a target, if there is one. -/
def targetLists (ts : List Token) : List (List Token) :=
  match skipTargetWords ts with
  | [] => []
  | t :: rest =>
    if t.isOpen && !startsQuery (Group.after rest).inner then [(Group.after rest).inner] else []

/-- The lists of tables in a region. -/
def Region.tableLists (r : Region) : List (List Token) :=
  match r.clause with
  | .target => targetLists r.tail
  | .sources => [if r.startsFrom then r.tail else r.tokens]
  | .mergeSource => [r.tail]
  | _ => []

theorem flatten_tableLists_sublist (region : Region) :
    region.tableLists.flatten.Sublist region.tokens := by
  have htail : region.tail.Sublist region.tokens := List.sublist_cons_self _ _
  unfold Region.tableLists
  split
  · refine List.Sublist.trans ?_ htail
    unfold targetLists
    split
    · exact List.nil_sublist _
    · next t rest heq =>
      have hskips := (skips_skipTargetWords region.tail).suffix
      rw [heq] at hskips
      split
      · rw [List.flatten_singleton]
        exact ((Group.inner_isInfix t rest).trans hskips.isInfix).sublist
      · exact List.nil_sublist _
  · rw [List.flatten_singleton]
    split
    · exact htail
    · exact List.Sublist.refl _
  · rw [List.flatten_singleton]
    exact htail
  · exact List.nil_sublist _

theorem flatten_flatMap_tableLists_sublist (rs : List Region) :
    (rs.flatMap Region.tableLists).flatten.Sublist (rs.flatMap Region.tokens) := by
  induction rs with
  | nil => exact List.Sublist.slnil
  | cons region rs ih =>
      rw [List.flatMap_cons, List.flatten_append, List.flatMap_cons]
      exact (flatten_tableLists_sublist region).append ih

/-- In lists that stand one behind the other the tables are in the order of the text. -/
theorem pairwise_tables_lists {lists : List (List Token)} (h : IsOrdered lists.flatten) :
    (lists.flatMap fun list => (tableList nested .sources list).tables).Pairwise
      fun t u => t.range.stop ≤ u.range.start := by
  induction lists with
  | nil => exact .nil
  | cons list lists ih =>
      rw [List.flatten_cons] at h
      rw [List.flatMap_cons]
      refine List.pairwise_append.2 ⟨pairwise_tables_tableList .sources
        (h.mono (List.prefix_append _ _).isInfix), ih (h.mono (List.suffix_append _ _).isInfix),
        fun t ht u hu => ?_⟩
      obtain ⟨other, hother, hu⟩ := List.mem_flatMap.1 hu
      have hread := (readIn_tableList .sources other u hu).mono (List.infix_of_mem_flatten hother)
      exact (readIn_tableList .sources list t ht).stop_le_start hread h

theorem Sources.tables_ofRegion (seen : Bool) (region : Region) :
    (ofRegion nested seen region).tables =
      region.tableLists.flatMap fun list => (tableList (fun _ => {}) .sources list).tables := by
  have hlist : ∀ clause list, (tableList nested clause list).tables =
      [list].flatMap fun list => (tableList (fun _ => {}) .sources list).tables := by
    intro clause list
    rw [List.flatMap_singleton]
    exact tables_tableList_eq _ _ _ _ _
  unfold ofRegion Region.tableLists
  cases region.clause
  case target =>
    unfold targetTable targetLists
    dsimp only
    cases skipTargetWords region.tail with
    | nil => rfl
    | cons first rest =>
        by_cases hopen : first.isOpen
        · by_cases hquery : startsQuery (Group.after rest).inner
          · simp only [hopen, hquery, if_true]
            rfl
          · simp only [hopen, hquery, if_true]
            exact hlist .target _
        · simp only [hopen]
          rfl
  case select =>
    dsimp only
    split <;> rfl
  case sources => exact hlist .sources _
  case mergeSource => exact hlist .mergeSource _
  all_goals rfl

theorem Sources.tables_ofRegions (seen : Bool) (rs : List Region) :
    (ofRegions nested seen rs).tables =
      (rs.flatMap Region.tableLists).flatMap
        fun list => (tableList (fun _ => {}) .sources list).tables := by
  induction rs generalizing seen with
  | nil => rfl
  | cons region rs ih =>
      rw [ofRegions_cons, tables_append, tables_inFrontOf, tables_ofRegion, ih, List.flatMap_cons,
        List.flatMap_append]

namespace Statement

/-- The lists of tables of a statement, those of `FROM`, of joins, of `USING`, and of a target in
parentheses. -/
def tableLists (ts : List Token) : List (List Token) :=
  (layout (fun _ => {}) ts).regions.flatMap Region.tableLists

theorem flatten_tableLists (ts : List Token) : (tableLists ts).flatten.Sublist ts :=
  (flatten_flatMap_tableLists_sublist _).trans (regions_suffix _ ts).sublist

/-- The tables in the lists. -/
def listedTables (ts : List Token) : List TableRef :=
  (tableLists ts).flatMap fun list => (tableList (fun _ => {}) .sources list).tables

theorem readIn_listedTables (h : t ∈ listedTables ts) : ∃ list ∈ tableLists ts, t.ReadIn list := by
  obtain ⟨list, hlist, ht⟩ := List.mem_flatMap.1 h
  exact ⟨list, hlist, readIn_tableList .sources list t ht⟩

theorem pairwise_listedTables (h : IsOrdered ts) :
    (listedTables ts).Pairwise fun t u => t.range.stop ≤ u.range.start :=
  pairwise_tables_lists (h.sublist (flatten_tableLists ts))

theorem tables_found (nested : List Token → Statement) (ts : List Token) :
    (found nested ts).tables = listedTables ts := by
  rw [found, Sources.tables_ofRegions, listedTables, tableLists, layout_eq nested]

theorem tail_mem_tableLists (region : Region) (h : region ∈ (layout (fun _ => {}) ts).regions)
    (hclause : region.clause = .sources ∧ region.startsFrom ∨ region.clause = .mergeSource) :
    region.tail ∈ tableLists ts := by
  refine List.mem_flatMap.2 ⟨region, h, ?_⟩
  unfold Region.tableLists
  rcases hclause with ⟨hclause, hfrom⟩ | hclause
  · simp [hclause, hfrom]
  · simp [hclause]

end Statement

end

end Tsql
