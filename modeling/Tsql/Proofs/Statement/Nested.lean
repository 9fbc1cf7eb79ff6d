import Tsql.Proofs.Statement.Layout
import Tsql.Proofs.Token.Claimed

/-!
The statements nested in a parsed statement.

`build` puts into a statement only what the reader of nested queries gives it for a group of the
tokens, and an empty statement where the body of a common table expression is missing
(`exists_of_mem_nested_build`). So a fact about the reader reaches every level of nesting
(`forall_all_parse`).

Of a derived table more is known: its group is an outermost query of the tokens, or it is inside one
that has been entered by stepping over its parenthesis. That only happens behind an `AS` in place of a
table, which is an issue (`Sources.Finds`).
-/

namespace Tsql

/-! ### Queries and the groups they are read from -/

/-- The body is what `nested` reads in the group at the end of the tokens. -/
def ReadsQuery (nested : List Token → Statement) (range : Range) (body : Statement)
    (span : List Token) : Prop :=
  ∃ front t us, t.isOpen ∧ span = front ++ t :: (Group.after us).tokens ∧ range = .ofTokens span ∧
    body = nested (Group.after us).inner

/-- The expression was read from the tokens: a name and what follows it up to the end of its body, or
only the name. -/
def Cte.Reads (nested : List Token → Statement) (c : Cte) (span : List Token) : Prop :=
  ReadsQuery nested c.range c.body span ∨
    c.body = {} ∧ c.range = .ofTokens span ∧ ∃ name, span = [name]

def Subquery.Reads (nested : List Token → Statement) (q : Subquery) (span : List Token) : Prop :=
  ReadsQuery nested q.range q.body span

/-- The parenthesis of the group stands directly behind an `AS` that is reported as an issue. -/
def SteppedInto (issues : List Issue) (ts group : List Token) : Prop :=
  ∃ a t rest, group = t :: rest ∧ [a, t] <:+: ts ∧ ⟨.aliasWithoutTable, a.range⟩ ∈ issues

/-- The query of a derived table among the tokens is an outermost one, or inside one that has been
stepped into. -/
def Sources.Finds (nested : List Token → Statement) (ts : List Token) (found : Sources)
    (q : Subquery) : Prop :=
  ∃ span, q.Reads nested span ∧ ∃ group ∈ queryGroups [] ts,
    span = group ∨ span <:+: group.tail ∧ SteppedInto found.issues ts group

section

variable {nested : List Token → Statement} {ts us span : List Token}

theorem ReadsQuery.ne_nil {range : Range} {body : Statement}
    (h : ReadsQuery nested range body span) : span ≠ [] := by
  obtain ⟨front, t, us, -, rfl, -, -⟩ := h
  simp

theorem Group.inner_isInfix_cons (front : List Token) (t : Token) (ts : List Token) :
    (after ts).inner <:+: front ++ t :: (after ts).tokens :=
  ⟨front ++ [t], (after ts).close.toList, by simp [tokens]⟩

/-- What a group holds is among the tokens that it opens. -/
theorem Group.inner_isInfix (t : Token) (ts : List Token) : (after ts).inner <:+: t :: ts :=
  (Group.inner_isInfix_cons [] t ts).trans (Group.cons_tokens_isPrefix t ts).isInfix

theorem ReadsQuery.exists_nested {range : Range} {body : Statement}
    (h : ReadsQuery nested range body span) : ∃ us, us <:+: span ∧ body = nested us := by
  obtain ⟨front, t, us, -, rfl, -, hbody⟩ := h
  exact ⟨_, Group.inner_isInfix_cons front t us, hbody⟩

theorem Cte.Reads.ne_nil {c : Cte} (h : c.Reads nested span) : span ≠ [] := by
  rcases h with hquery | ⟨-, -, name, rfl⟩
  · exact hquery.ne_nil
  · exact List.cons_ne_nil name []

theorem Cte.Reads.range_eq {c : Cte} (h : c.Reads nested span) : c.range = .ofTokens span := by
  rcases h with ⟨_, _, _, -, -, hrange, -⟩ | ⟨-, hrange, -⟩
  · exact hrange
  · exact hrange

theorem Subquery.Reads.ne_nil {q : Subquery} (h : q.Reads nested span) : span ≠ [] :=
  ReadsQuery.ne_nil h

theorem Subquery.Reads.range_eq {q : Subquery} (h : q.Reads nested span) :
    q.range = .ofTokens span := by
  obtain ⟨_, _, _, -, -, hrange, -⟩ := h
  exact hrange

theorem SteppedInto.mono {issues more : List Issue} {group : List Token}
    (h : SteppedInto issues ts group) (hissues : issues ⊆ more) (hin : ts <:+: us) :
    SteppedInto more us group := by
  obtain ⟨a, t, rest, heq, hbehind, hissue⟩ := h
  exact ⟨a, t, rest, heq, hbehind.trans hin, hissues hissue⟩

/-! ### Common table expressions -/

namespace CteList

theorem queryGroups_columnList {claimed : List Position} (ts : List Token)
    (h : (columnList ts).1.isSome → ∀ t ∈ ts.head?, t.start ∈ claimed) :
    queryGroups claimed ts = queryGroups claimed (columnList ts).2 := by
  unfold columnList at h ⊢
  split
  · rfl
  · next t rest =>
    dsimp only at h ⊢
    split
    · next hlist =>
      rw [if_pos hlist] at h
      exact queryGroups_cons_of_claimed (Bool.and_eq_true_iff.1 hlist).1 (h rfl t rfl)
    · rfl

theorem queryGroups_skipAs (claimed : List Position) (ts : List Token) :
    queryGroups claimed ts = queryGroups claimed (skipAs ts) := by
  unfold skipAs
  split
  · rfl
  · split
    · next has => exact queryGroups_cons (Token.isOpen_of_isKeyword has)
    · rfl

/-- One expression stands at the beginning of its tokens, and behind it are the queries among them
that are not claimed. -/
theorem exists_one (nested : List Token → Statement) {name : Token} (hname : name.isName)
    (ts : List Token) :
    ∃ c span behind, (one nested name ts).ctes = [c] ∧ span ++ behind = name :: ts ∧
      c.Reads nested span ∧ Skips behind (one nested name ts).rest ∧
      ∀ claimed, startsOf (one nested name ts).groups (name :: ts) ⊆ claimed →
        queryGroups claimed (name :: ts) = queryGroups claimed behind := by
  have hopen := Token.isOpen_of_isName hname
  have hskips := skips_one nested name ts
  have hbehind := (skips_columnList ts).trans (skips_skipAs _)
  unfold one at hskips ⊢
  dsimp only at hskips ⊢
  split
  · next t rest heq =>
    rw [heq] at hskips hbehind
    dsimp only at hskips
    split
    · next hquery =>
      have hsuffix := hbehind.suffix
      obtain ⟨front, rfl⟩ := hbehind.suffix
      refine ⟨_, name :: front ++ t :: (Group.after rest).tokens, (Group.after rest).rest, rfl,
        ?_, .inl ⟨name :: front, t, rest, (Bool.and_eq_true_iff.1 hquery).1, rfl, ?_, rfl⟩, .refl _,
        fun claimed hclaimed => ?_⟩
      · simp [Group.tokens_append_rest]
      · exact (Range.ofTokens_cons_append name front (List.cons_ne_nil t _)).symm
      · have hcolumns : (columnList (front ++ t :: rest)).1.isSome →
            ∀ u ∈ (front ++ t :: rest).head?, u.start ∈ claimed := by
          intro hsome u hu
          obtain ⟨us, heq⟩ := List.head?_eq_some_iff.1 hu
          refine hclaimed (mem_startsOf_iff.2 ⟨u, us, heq ▸ List.suffix_cons name _, ?_, rfl⟩)
          rw [← heq, withBody, if_pos hsome]
          exact List.mem_append_left _ (List.mem_singleton_self _)
        have hbody : t.start ∈ claimed :=
          hclaimed (mem_startsOf_iff.2 ⟨t, rest, hsuffix.trans (List.suffix_cons name _),
            List.mem_append_right _ (List.mem_singleton_self _), rfl⟩)
        rw [queryGroups_cons hopen, queryGroups_columnList _ hcolumns, queryGroups_skipAs, heq]
        exact queryGroups_cons_of_claimed (Bool.and_eq_true_iff.1 hquery).1 hbody
    · next hquery =>
      rw [if_neg hquery] at hskips
      exact ⟨_, [name], ts, rfl, rfl, .inr ⟨rfl, rfl, name, rfl⟩, hskips,
        fun claimed _ => queryGroups_cons hopen⟩
  · next heq =>
    rw [heq] at hskips
    exact ⟨_, [name], ts, rfl, rfl, .inr ⟨rfl, rfl, name, rfl⟩, hskips,
      fun claimed _ => queryGroups_cons hopen⟩

theorem exists_reads_of_mem_one {name : Token} (hname : name.isName) {c : Cte}
    (h : c ∈ (one nested name ts).ctes) : ∃ span, span <:+: name :: ts ∧ c.Reads nested span := by
  obtain ⟨d, span, behind, hctes, hsplit, hreads, -⟩ := exists_one nested hname ts
  obtain rfl := List.mem_singleton.1 (hctes ▸ h)
  exact ⟨span, ⟨[], behind, hsplit⟩, hreads⟩

theorem exists_reads_of_mem {c : Cte} (h : c ∈ (ofTokens nested ts).ctes) :
    ∃ span, span <:+: ts ∧ c.Reads nested span := by
  fun_induction ofTokens nested ts with
  | case1 => exact absurd h List.not_mem_nil
  | case2 name rest hname first comma more heq hcomma ih =>
      rcases List.mem_append.1 h with h | h
      · exact exists_reads_of_mem_one hname h
      · obtain ⟨span, hin, hreads⟩ := ih h
        have hrest : comma :: more <:+ rest := heq ▸ (skips_one nested name rest).suffix
        have hmore := (List.suffix_cons comma more).trans (hrest.trans (List.suffix_cons name rest))
        exact ⟨span, hin.trans hmore.isInfix, hreads⟩
  | case3 name rest hname => exact exists_reads_of_mem_one hname h
  | case4 name rest hname => exact exists_reads_of_mem_one hname h
  | case5 => exact absurd h List.not_mem_nil

end CteList

/-! ### Derived tables -/

namespace Sources

variable {found more : Sources} {q : Subquery}

theorem subqueries_append (a b : Sources) :
    (a ++ b).subqueries = a.subqueries ++ b.subqueries := rfl

theorem Finds.isInfix (h : found.Finds nested ts q) :
    ∃ span, span <:+: ts ∧ q.Reads nested span := by
  obtain ⟨span, hreads, group, hgroup, hspan⟩ := h
  have hin := isInfix_of_mem_queryGroups hgroup
  rcases hspan with rfl | ⟨hspan, -⟩
  · exact ⟨span, hin, hreads⟩
  · exact ⟨span, (hspan.trans (List.tail_suffix group).isInfix).trans hin, hreads⟩

theorem Finds.mono (h : found.Finds nested ts q) (hissues : found.issues ⊆ more.issues)
    (hin : ts <:+: us) (hgroups : queryGroups [] ts ⊆ queryGroups [] us) :
    more.Finds nested us q := by
  obtain ⟨span, hreads, group, hgroup, hspan⟩ := h
  exact ⟨span, hreads, group, hgroups hgroup,
    hspan.imp_right fun ⟨hspan, hinto⟩ => ⟨hspan, hinto.mono hissues hin⟩⟩

theorem Finds.skips (h : found.Finds nested ts q) (hissues : found.issues ⊆ more.issues)
    (hskips : Skips us ts) : more.Finds nested us q :=
  h.mono hissues hskips.suffix.isInfix hskips.queryGroups_suffix.subset

end Sources

variable {q : Subquery}

theorem reads_derivedTable {clause : Clause} {t : Token} (hopen : t.isOpen)
    (h : q ∈ (derivedTable nested clause t ts).2.1.subqueries) :
    q.Reads nested (t :: (Group.after ts).tokens) := by
  obtain rfl := List.mem_singleton.1 h
  exact ⟨[], t, ts, hopen, rfl, rfl, rfl⟩

theorem finds_derivedTable {clause : Clause} {t : Token} (hopen : t.isOpen)
    (hquery : startsQuery (Group.after ts).inner)
    (h : q ∈ (derivedTable nested clause t ts).2.1.subqueries) (found : Sources) :
    found.Finds nested (t :: ts) q := by
  refine ⟨_, reads_derivedTable hopen h, _, ?_, .inl rfl⟩
  rw [queryGroups_cons_of_startsQuery hopen List.not_mem_nil hquery]
  exact List.mem_cons_self

/-- What is found behind two tokens of which the first is an `AS` in place of a table is found among
all of them: either the second token opens no query, or the query has been stepped into. -/
theorem Sources.Finds.behind {found more : Sources} {a t : Token} (h : found.Finds nested ts q)
    (ha : a.isOpen = false) (hissues : found.issues ⊆ more.issues)
    (hissue : ⟨.aliasWithoutTable, a.range⟩ ∈ more.issues) : more.Finds nested (a :: t :: ts) q := by
  have hin : ts <:+: a :: t :: ts := ((List.suffix_cons t ts).trans (List.suffix_cons a _)).isInfix
  by_cases hquery : t.isOpen ∧ startsQuery (Group.after ts).inner
  · have hall : queryGroups [] (a :: t :: ts) =
        (t :: (Group.after ts).tokens) :: queryGroups [] (Group.after ts).rest := by
      rw [queryGroups_cons ha, queryGroups_cons_of_startsQuery hquery.1 List.not_mem_nil hquery.2]
    obtain ⟨span, hreads, group, hgroup, hspan⟩ := h
    rw [queryGroups_eq_inner_append_rest] at hgroup
    rcases List.mem_append.1 hgroup with hinner | hrest
    · refine ⟨span, hreads, _, hall ▸ List.mem_cons_self,
        .inr ⟨?_, a, t, _, rfl, ⟨[], ts, rfl⟩, hissue⟩⟩
      have hinside : (Group.after ts).inner <+: (Group.after ts).tokens := List.prefix_append _ _
      have hgroup := (isInfix_of_mem_queryGroups hinner).trans hinside.isInfix
      rcases hspan with rfl | ⟨hspan, -⟩
      · exact hgroup
      · exact (hspan.trans (List.tail_suffix group).isInfix).trans hgroup
    · exact ⟨span, hreads, group, hall ▸ List.mem_cons_of_mem _ hrest,
        hspan.imp_right fun ⟨hspan, hinto⟩ => ⟨hspan, hinto.mono hissues hin⟩⟩
  · refine h.mono hissues hin ?_
    rw [queryGroups_cons ha, queryGroups.eq_2]
    simp [hquery]

/-- A group without a query is a list of its own. -/
theorem Sources.Finds.inGroup {found more : Sources}
    (h : found.Finds nested (Group.after ts).inner q) (t : Token)
    (hquery : startsQuery (Group.after ts).inner = false) (hissues : found.issues ⊆ more.issues) :
    more.Finds nested (t :: ts) q := by
  refine h.mono hissues (Group.inner_isInfix t ts) ?_
  rw [queryGroups_cons_of_not_startsQuery List.not_mem_nil hquery,
    queryGroups_eq_inner_append_rest [] ts]
  exact List.subset_append_left _ _

theorem finds_tableList (clause : Clause) (ts : List Token) :
    ∀ q ∈ (tableList nested clause ts).subqueries, (tableList nested clause ts).Finds nested ts q := by
  have hnil : ∀ q : Subquery, q ∉ ({} : Sources).subqueries := fun q => List.not_mem_nil
  fun_induction tableList nested clause ts with
  | case1 => exact fun q hq => absurd hq (hnil q)
  | case2 t rest hon ih =>
      intro q hq
      have hskips := Skips.token (Token.isOpen_of_isKeyword hon) (skips_skipCondition rest)
      exact (ih q hq).skips (List.Subset.refl _) hskips
  | case3 t rest _ has ih =>
      intro q hq
      have hopen := Token.isOpen_of_isKeyword has
      cases rest with
      | nil => exact (ih q hq).skips (List.subset_append_right _ _) (.token hopen (.refl _))
      | cons u more =>
          exact (ih q hq).behind hopen (List.subset_append_right _ _) List.mem_cons_self
  | case4 t rest _ _ hpivot ih =>
      intro q hq
      have hskips := Skips.token (Token.isOpen_of_isAnyKeyword hpivot) (skips_behindPivot rest)
      exact (ih q hq).skips (List.Subset.refl _) hskips
  | case5 t rest _ _ _ hopen group hquery derived ih =>
      intro q hq
      rcases List.mem_append.1 hq with hderived | hrest
      · rw [Sources.subqueries_append] at hderived
        exact finds_derivedTable hopen hquery (by simpa using hderived) _
      · have hskips := Skips.group hopen (skips_derivedTable nested clause t rest)
        exact (ih q hrest).skips (List.subset_append_right _ _) hskips
  | case6 t rest _ _ _ hopen group hquery ihInner ihRest =>
      intro q hq
      rcases List.mem_append.1 hq with hinner | hrest
      · exact (ihInner q hinner).inGroup t (by simpa using hquery) (List.subset_append_left _ _)
      · exact (ihRest q hrest).skips (List.subset_append_right _ _) (.group hopen (.refl _))
  | case7 t rest _ _ _ _ hname named ih =>
      intro q hq
      exact (ih q hq).skips (List.subset_append_right _ _) (skips_namedTable (t :: rest))
  | case8 t rest _ _ _ hopen _ ih =>
      intro q hq
      exact (ih q hq).skips (List.Subset.refl _) (.token (by simpa using hopen) (.refl _))

theorem finds_targetTable (ts : List Token) :
    ∀ q ∈ (targetTable nested ts).2.subqueries, (targetTable nested ts).2.Finds nested ts q := by
  have hskips := skips_skipTargetWords ts
  unfold targetTable
  split
  · exact fun q hq => absurd hq List.not_mem_nil
  · next t rest heq =>
    rw [heq] at hskips
    split
    · next hopen =>
      dsimp only
      split
      · next hquery =>
        intro q hq
        exact (finds_derivedTable hopen hquery hq _).skips (List.Subset.refl _) hskips
      · next hquery =>
        intro q hq
        have hfound := finds_tableList .target (Group.after rest).inner q hq
        exact (hfound.inGroup t (by simpa using hquery) (List.Subset.refl _)).skips
          (List.Subset.refl _) hskips
    · exact fun q hq => absurd hq List.not_mem_nil

/-- What a region behind the common table expressions holds. -/
def Sources.ofRegion (nested : List Token → Statement) (seen : Bool) (r : Region) : Sources :=
  match r.clause with
  | .target => (targetTable nested r.tail).2
  | .select => if seen then {} else { issues := selectIssues (selectItems r.tail) }
  | .sources => tableList nested .sources (if r.startsFrom then r.tail else r.tokens)
  | .mergeSource => tableList nested .mergeSource r.tail
  | _ => {}

theorem Sources.ofRegions_cons (nested : List Token → Statement) (seen : Bool) (r : Region)
    (rs : List Region) :
    ofRegions nested seen (r :: rs) =
      (ofRegion nested seen r).inFrontOf (rs.flatMap Region.tokens).length ++
        ofRegions nested (seen || r.clause = .select) rs := rfl

/-- A region in which queries are found does not begin with a parenthesis that is part of its list. -/
theorem Sources.finds_ofRegion (seen : Bool) {r : Region}
    (hhead : r.clause ≠ .ctes → r.clause ≠ .insertColumns → r.head.isOpen = false) :
    ∀ q ∈ (ofRegion nested seen r).subqueries, (r.clause ≠ .ctes ∧ r.clause ≠ .insertColumns) ∧
      (ofRegion nested seen r).Finds nested r.tokens q := by
  have hskips : r.clause ≠ .ctes → r.clause ≠ .insertColumns → Skips r.tokens r.tail :=
    fun hctes hcolumns => .token (hhead hctes hcolumns) (.refl _)
  intro q hq
  unfold ofRegion at hq ⊢
  split at hq
  · next hclause =>
    have hne : r.clause ≠ .ctes ∧ r.clause ≠ .insertColumns := by simp [hclause]
    exact ⟨hne, (finds_targetTable r.tail q hq).skips (List.Subset.refl _) (hskips hne.1 hne.2)⟩
  · split at hq <;> exact absurd hq List.not_mem_nil
  · next hclause =>
    have hne : r.clause ≠ .ctes ∧ r.clause ≠ .insertColumns := by simp [hclause]
    refine ⟨hne, (finds_tableList .sources _ q hq).skips (List.Subset.refl _) ?_⟩
    split
    · exact hskips hne.1 hne.2
    · exact .refl _
  · next hclause =>
    have hne : r.clause ≠ .ctes ∧ r.clause ≠ .insertColumns := by simp [hclause]
    exact ⟨hne,
      (finds_tableList .mergeSource r.tail q hq).skips (List.Subset.refl _) (hskips hne.1 hne.2)⟩
  · exact absurd hq List.not_mem_nil

theorem Sources.finds_ofRegions (seen : Bool) {rs : List Region}
    (hheads : ∀ r ∈ rs, r.clause ≠ .ctes → r.clause ≠ .insertColumns → r.head.isOpen = false) :
    ∀ q ∈ (ofRegions nested seen rs).subqueries, ∃ r ∈ rs,
      (r.clause ≠ .ctes ∧ r.clause ≠ .insertColumns) ∧
        (ofRegions nested seen rs).Finds nested r.tokens q := by
  induction rs generalizing seen with
  | nil => exact fun q hq => absurd hq List.not_mem_nil
  | cons r rs ih =>
      intro q hq
      obtain ⟨hhead, hrest⟩ := List.forall_mem_cons.1 hheads
      rw [ofRegions_cons] at hq ⊢
      rcases List.mem_append.1 hq with hq | hq
      · obtain ⟨hclause, hfinds⟩ := finds_ofRegion seen hhead q hq
        exact ⟨r, List.mem_cons_self, hclause,
          hfinds.skips (List.subset_append_left _ _) (.refl _)⟩
      · obtain ⟨r', hr', hclause, hfinds⟩ := ih _ hrest q hq
        exact ⟨r', List.mem_cons_of_mem r hr', hclause,
          hfinds.skips (List.subset_append_right _ _) (.refl _)⟩

/-! ### Other queries -/

theorem exists_reads_of_mem_expressionQueries {claimed : List Token → Bool} {clause : Option Clause}
    (h : q ∈ expressionQueries nested claimed clause ts) :
    ∃ span, span <:+: ts ∧ q.Reads nested span := by
  fun_induction expressionQueries nested claimed clause ts with
  | case1 => exact absurd h List.not_mem_nil
  | case2 t rest group hclaimed ih =>
      obtain ⟨span, hin, hreads⟩ := ih h
      have hrest := (Group.rest_suffix rest).trans (List.suffix_cons t rest)
      exact ⟨span, hin.trans hrest.isInfix, hreads⟩
  | case3 t rest group hclaimed hquery ih =>
      rcases List.mem_cons.1 h with rfl | h
      · exact ⟨_, (Group.cons_tokens_isPrefix t rest).isInfix, [], t, rest,
          (Bool.and_eq_true_iff.1 hquery).1, rfl, rfl, rfl⟩
      · obtain ⟨span, hin, hreads⟩ := ih h
        have hrest := (Group.rest_suffix rest).trans (List.suffix_cons t rest)
        exact ⟨span, hin.trans hrest.isInfix, hreads⟩
  | case4 t rest group hclaimed hquery ih =>
      obtain ⟨span, hin, hreads⟩ := ih h
      exact ⟨span, hin.trans (List.suffix_cons t rest).isInfix, hreads⟩

/-! ### One level -/

namespace Statement

/-- The queries nested directly in a statement, each with its place in the text. -/
def places (s : Statement) : List (Range × Statement) :=
  s.ctes.map (fun c => (c.range, c.body)) ++ s.subqueries.map fun q => (q.range, q.body)

theorem nested_eq (s : Statement) : s.nested = s.places.map Prod.snd := by
  rw [nested, places, List.map_append, List.map_map, List.map_map]
  rfl

theorem exists_finds_of_mem (h : q ∈ (found nested ts).subqueries) :
    ∃ r ∈ (layout nested ts).regions, (r.clause ≠ .ctes ∧ r.clause ≠ .insertColumns) ∧
      (found nested ts).Finds nested r.tokens q :=
  Sources.finds_ofRegions false (fun _ hr => Layout.isOpen_of_mem_regions hr) q h

theorem exists_reads_of_mem_ctes {c : Cte} (h : c ∈ (build nested ts).ctes) :
    ∃ span, span <:+: ts ∧ c.Reads nested span := by
  rw [ctes_build] at h
  unfold heading at h
  split at h
  · exact absurd h List.not_mem_nil
  · next first rest =>
    split at h
    · obtain ⟨span, hin, hreads⟩ := CteList.exists_reads_of_mem h
      exact ⟨span, hin.trans (List.suffix_cons first rest).isInfix, hreads⟩
    · exact absurd h List.not_mem_nil

theorem exists_reads_of_mem_subqueries (h : q ∈ (build nested ts).subqueries) :
    ∃ span, span <:+: ts ∧ q.Reads nested span := by
  rw [(perm_subqueries_build nested ts).mem_iff] at h
  rcases List.mem_append.1 h with hfound | hexpression
  · obtain ⟨r, hr, -, hfinds⟩ := exists_finds_of_mem hfound
    obtain ⟨span, hin, hreads⟩ := hfinds.isInfix
    exact ⟨span, hin.trans (isInfix_of_mem_regions hr), hreads⟩
  · obtain ⟨piece, hpiece, _, hq⟩ := Layout.exists_of_mem_expressionQueries hexpression
    obtain ⟨span, hin, hreads⟩ := exists_reads_of_mem_expressionQueries hq
    exact ⟨span, hin.trans (isInfix_of_mem_pieces hpiece), hreads⟩

/-- What is nested in a statement has been read from tokens of it, unless it is a body that is
missing. -/
theorem exists_of_mem_places_build {p : Range × Statement} (h : p ∈ (build nested ts).places) :
    ∃ span, span <:+: ts ∧ span ≠ [] ∧ p.1 = .ofTokens span ∧
      (p.2 = {} ∨ ReadsQuery nested p.1 p.2 span) := by
  rcases List.mem_append.1 h with h | h
  · obtain ⟨c, hc, rfl⟩ := List.mem_map.1 h
    obtain ⟨span, hin, hreads⟩ := exists_reads_of_mem_ctes hc
    exact ⟨span, hin, hreads.ne_nil, hreads.range_eq, hreads.symm.imp_left And.left⟩
  · obtain ⟨q, hq, rfl⟩ := List.mem_map.1 h
    obtain ⟨span, hin, hreads⟩ := exists_reads_of_mem_subqueries hq
    exact ⟨span, hin, hreads.ne_nil, hreads.range_eq, .inr hreads⟩

theorem exists_of_mem_nested_build {n : Statement} (h : n ∈ (build nested ts).nested) :
    n = {} ∨ ∃ us, us <:+: ts ∧ n = nested us := by
  rw [nested_eq] at h
  obtain ⟨p, hp, rfl⟩ := List.mem_map.1 h
  obtain ⟨span, hin, -, -, hempty | hquery⟩ := exists_of_mem_places_build hp
  · exact .inl hempty
  · obtain ⟨us, hus, hbody⟩ := hquery.exists_nested
    exact .inr ⟨us, hus.trans hin, hbody⟩

end Statement

end

/-! ### All levels -/

theorem Cte.exists_of_mem_markedIn {visible : List String} {cs : List Cte} {c : Cte}
    (h : c ∈ Cte.markedIn visible cs) :
    ∃ d ∈ cs, c.range = d.range ∧ ∃ names, c.body = d.body.markedIn names := by
  induction cs generalizing visible with
  | nil => simp [Cte.markedIn] at h
  | cons d cs ih =>
      rw [Cte.markedIn] at h
      rcases List.mem_cons.1 h with rfl | h
      · exact ⟨d, List.mem_cons_self, rfl, _, rfl⟩
      · obtain ⟨d', hd', hbody⟩ := ih h
        exact ⟨d', List.mem_cons_of_mem d hd', hbody⟩

namespace Statement

variable {P : Statement → Prop}

/-- Marking changes neither the places of queries nor what they are, apart from marks in them. -/
theorem exists_of_mem_places_markedIn {visible : List String} {s : Statement} {p : Range × Statement}
    (h : p ∈ (s.markedIn visible).places) :
    ∃ m names, (p.1, m) ∈ s.places ∧ p.2 = m.markedIn names := by
  rw [markedIn] at h
  rcases List.mem_append.1 h with h | h
  · obtain ⟨c, hc, rfl⟩ := List.mem_map.1 h
    obtain ⟨d, hd, hrange, names, hbody⟩ := Cte.exists_of_mem_markedIn hc
    exact ⟨d.body, names, List.mem_append_left _ (List.mem_map.2 ⟨d, hd, by rw [hrange]⟩), hbody⟩
  · obtain ⟨q, hq, rfl⟩ := List.mem_map.1 h
    obtain ⟨⟨p, hp⟩, -, rfl⟩ := List.mem_map.1 hq
    exact ⟨p.body, _, List.mem_append_right _ (List.mem_map.2 ⟨p, hp, rfl⟩), rfl⟩

theorem exists_of_mem_nested_markedIn {visible : List String} {s n : Statement}
    (h : n ∈ (s.markedIn visible).nested) : ∃ m ∈ s.nested, ∃ names, n = m.markedIn names := by
  rw [nested_eq] at h
  obtain ⟨p, hp, rfl⟩ := List.mem_map.1 h
  obtain ⟨m, names, hm, heq⟩ := exists_of_mem_places_markedIn hp
  exact ⟨m, nested_eq s ▸ List.mem_map.2 ⟨_, hm, rfl⟩, names, heq⟩

/-- A property goes from the levels of one statement to those of another if both are related, level by
level, in a way that keeps it. -/
theorem forall_all_of_related {R : Statement → Statement → Prop}
    (hnested : ∀ {n m}, R n m → ∀ n' ∈ n.nested, ∃ m' ∈ m.nested, R n' m')
    (hkeeps : ∀ {n m}, R n m → P m → P n) {n m : Statement} (hR : R n m) (h : ∀ q ∈ m.all, P q) :
    ∀ q ∈ n.all, P q := by
  -- induction on the statement that is to have the property, not on the one that has it
  induction n using Statement.induction generalizing m with
  | step n ih =>
      rw [all_eq]
      refine List.forall_mem_cons.2 ⟨hkeeps hR (h m m.mem_all_self), fun q hq => ?_⟩
      obtain ⟨n', hn', hq⟩ := List.mem_flatMap.1 hq
      obtain ⟨m', hm', hR'⟩ := hnested hR n' hn'
      exact ih n' hn' hR' (fun q hq => h q (mem_all_of_nested hm' hq)) q hq

theorem forall_all_build {nested : List Token → Statement}
    (hbuild : ∀ nested ts, P (build nested ts)) (hnested : ∀ ts, ∀ n ∈ (nested ts).all, P n)
    (ts : List Token) : ∀ n ∈ (build nested ts).all, P n := by
  have hempty : ∀ n ∈ ({} : Statement).all, P n := by
    rw [all_eq]
    simpa [Statement.nested, build] using hbuild nested []
  rw [all_eq]
  refine List.forall_mem_cons.2 ⟨hbuild _ _, fun n hn => ?_⟩
  obtain ⟨m, hm, hn⟩ := List.mem_flatMap.1 hn
  rcases exists_of_mem_nested_build hm with rfl | ⟨us, -, rfl⟩
  · exact hempty n hn
  · exact hnested us n hn

theorem forall_all_ofQuery (hbuild : ∀ nested ts, P (build nested ts))
    (hplace : ∀ range, P { kind := .select, range := range }) (levels : Nat) (ts : List Token) :
    ∀ n ∈ (ofQuery levels ts).all, P n := by
  induction levels generalizing ts with
  | zero =>
      rw [ofQuery, all_eq]
      simpa [nested] using hplace _
  | succ levels ih =>
      rw [ofQuery]
      exact forall_all_build hbuild ih _

/-! ### The tokens of each level -/

/-- The statement is the description of the tokens, with references to some names marked. Below the
last level only their place is known. -/
inductive Describes : Statement → List Token → Prop
  | built (levels : Nat) (ts : List Token) : Describes (build (ofQuery levels) ts) ts
  | placed (ts : List Token) : Describes { kind := .select, range := .ofTokens ts } ts
  | marked {s : Statement} {ts : List Token} (h : Describes s ts) (names : List String) :
      Describes (s.markedIn names) ts

theorem isInfix_unwrapped (ts : List Token) : unwrapped ts <:+: ts := by
  fun_induction unwrapped ts with
  | case1 => exact List.infix_rfl
  | case2 t rest group _ ih =>
      exact ih.trans (Group.inner_isInfix t rest)
  | case3 => exact List.infix_rfl

theorem describes_ofQuery (levels : Nat) (ts : List Token) :
    Describes (ofQuery levels ts) (unwrapped ts) := by
  cases levels with
  | zero => exact .placed _
  | succ levels => exact .built levels _

theorem describes_parse (ts : List Token) : Describes (parse ts) ts :=
  .marked (.built maxNesting ts) []

namespace Describes

variable {s n : Statement} {ts : List Token}

theorem range_eq (h : Describes s ts) : s.range = .ofTokens ts := by
  induction h with
  | built levels ts => exact range_build _ ts
  | placed ts => rfl
  | marked _ names ih => rwa [markedIn]

theorem exists_of_mem_nested (h : Describes s ts) (hn : n ∈ s.nested) :
    ∃ us, us <:+: ts ∧ Describes n us := by
  induction h generalizing n with
  | built levels ts =>
      rcases exists_of_mem_nested_build hn with rfl | ⟨us, hus, rfl⟩
      · exact ⟨[], List.nil_infix, .built 0 []⟩
      · exact ⟨_, (isInfix_unwrapped us).trans hus, describes_ofQuery levels us⟩
  | placed ts => exact absurd hn List.not_mem_nil
  | marked _ names ih =>
      obtain ⟨m, hm, names', rfl⟩ := exists_of_mem_nested_markedIn hn
      obtain ⟨us, hus, hdescribes⟩ := ih hm
      exact ⟨us, hus, .marked hdescribes names'⟩

/-- What is nested at any depth describes tokens among those of the statement. -/
theorem exists_of_mem_all (h : Describes s ts) (hn : n ∈ s.all) :
    ∃ us, us <:+: ts ∧ Describes n us := by
  induction s using Statement.induction generalizing ts with
  | step s ih =>
      rw [all_eq] at hn
      rcases List.mem_cons.1 hn with rfl | hn
      · exact ⟨ts, List.infix_rfl, h⟩
      · obtain ⟨m, hm, hn⟩ := List.mem_flatMap.1 hn
        obtain ⟨us, hus, hm'⟩ := h.exists_of_mem_nested hm
        obtain ⟨vs, hvs, hdescribes⟩ := ih m hm hm' hn
        exact ⟨vs, hvs.trans hus, hdescribes⟩

end Describes

/-- What holds of each statement that is built, and of one of which only the place is known, holds at
every level of a parsed statement. -/
theorem forall_all_parse (hbuild : ∀ nested ts, P (build nested ts))
    (hplace : ∀ range, P { kind := .select, range := range })
    (hmark : ∀ s visible, P s → P (s.markedIn visible)) (ts : List Token) :
    ∀ n ∈ (parse ts).all, P n := by
  intro n hn
  obtain ⟨us, -, hdescribes⟩ := (describes_parse ts).exists_of_mem_all hn
  clear hn
  induction hdescribes with
  | built levels us => exact hbuild _ us
  | placed us => exact hplace _
  | marked _ names ih => exact hmark _ names ih

end Statement

end Tsql
