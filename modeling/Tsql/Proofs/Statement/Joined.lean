import Tsql.Proofs.Statement.Dotted
import Tsql.Proofs.Statement.Flat

/-!
A list of tables at the top level of a query.

Cutting a query into clauses ends the list at each `ON` and opens it again at the next join. A comma
does neither, so behind a condition the items that commas add stand in the clause of the condition,
which is not read for tables. One link is read as `refsIn_link` says, the whole list as
`refsIn_links`.
-/

namespace Tsql

/-- The clause that the tokens behind a link stand in, where `isOpen` tells whether a join condition
is open. -/
def Clause.ofOpen (isOpen : Bool) : Clause :=
  if isOpen then .joinCondition else .sources

namespace Region

variable {t : Token} {hs is cs ts us : List Token} {s : State} {l : TableLink}

/-! ### Cutting a link -/

theorem State.clause?_joinWord (kind : StatementKind) (word : Keyword)
    (h : t.isAnyKeyword joinWords) (hts : startsOpen ts = false) :
    s.clause? kind t word ts = if s.last = some .joinCondition then some .sources else none := by
  simp [State.clause?, startsJoin, h, hts]

/-- In a list of tables commas and joins go on with the list. -/
theorem cut_linkWords (h : ∀ t ∈ hs, t.isLinkWord) (hts : startsOpen ts = false)
    (hlast : s.last = some .sources) :
    ∃ s' : State, s'.last = some .sources ∧
      cut .select s (hs ++ ts) = (hs ++ (cut .select s' ts).1, (cut .select s' ts).2) := by
  induction hs generalizing s with
  | nil => exact ⟨s, hlast, rfl⟩
  | cons t hs ih =>
      obtain ⟨ht, hhs⟩ := List.forall_mem_cons.1 h
      by_cases hcomma : t.kind = .comma
      · obtain ⟨s', hlast', hcut⟩ :=
          @ih { s with named := s.named || t.isName, previous := some t } hhs hlast
        refine ⟨s', hlast', ?_⟩
        rw [List.cons_append, cut_other (by simp [Token.isOpen, hcomma]) (by simp [hcomma]), hcut]
        rfl
      · have hjoin : t.isAnyKeyword joinWords := by simpa [Token.isLinkWord, hcomma] using ht
        obtain ⟨word, -, hkind⟩ := Token.exists_kind_of_isAnyKeyword hjoin
        have hnone : s.clause? .select t word (hs ++ ts) = none := by
          rw [State.clause?_joinWord _ _ hjoin (startsOpen_linkWords hhs hts), hlast]
          rfl
        obtain ⟨s', hlast', hcut⟩ := @ih (s.behind t word none) hhs hlast
        refine ⟨s', hlast', ?_⟩
        rw [List.cons_append, cut_keyword hkind hnone, hcut]
        rfl

theorem continues_of_mem_item {i : TableItem} (h : is.map Token.spelled = i.spelled) :
    ∀ t ∈ is, t.Continues := by
  have hitem : is.map Token.spelled = DottedItem.spelled ⟨[], i⟩ := h
  exact fun t ht => (DottedItem.isPart_of_map hitem t ht).continues

theorem cut_parts (h : l.Parts hs is cs) (ts : List Token) (hlast : s.last = some .sources) :
    ∃ s' : State, s'.last = some .sources ∧
      cut .select s (hs ++ (is ++ ts)) =
        (hs ++ (is ++ (cut .select s' ts).1), (cut .select s' ts).2) := by
  obtain ⟨s₁, hlast₁, hcut₁⟩ := cut_linkWords h.isLinkWord (startsOpen_item h.item ts) hlast
  obtain ⟨s₂, hlast₂, hcut₂⟩ := cut_continues (continues_of_mem_item h.item) .select s₁ ts
  exact ⟨s₂, hlast₂.trans hlast₁, by rw [hcut₁, hcut₂]⟩

/-- A join behind a condition begins a list of tables. -/
theorem cut_join (h : l.Parts hs is cs) (hcomma : l.isComma = false) (ts : List Token)
    (hlast : s.last = some .joinCondition) :
    ∃ j js, ∃ s' : State, hs = j :: js ∧ s'.last = some .sources ∧
      cut .select s (hs ++ (is ++ ts)) =
        ([], ⟨.sources, j, js ++ (is ++ (cut .select s' ts).1)⟩ :: (cut .select s' ts).2) := by
  obtain ⟨j, js, rfl⟩ := h.exists_cons
  have hjoin := h.isJoinWord hcomma j List.mem_cons_self
  obtain ⟨word, -, hkind⟩ := Token.exists_kind_of_isAnyKeyword hjoin
  have hclause : s.clause? .select j word (js ++ (is ++ ts)) = some .sources := by
    rw [State.clause?_joinWord _ _ hjoin (h.startsOpen_behind ts), if_pos hlast]
  obtain ⟨s₁, hlast₁, hcut₁⟩ := cut_linkWords (s := s.behind j word (some .sources))
    (fun t ht => h.isLinkWord t (List.mem_cons_of_mem j ht)) (startsOpen_item h.item ts) rfl
  obtain ⟨s₂, hlast₂, hcut₂⟩ := cut_continues (continues_of_mem_item h.item) .select s₁ ts
  refine ⟨j, js, s₂, rfl, hlast₂.trans hlast₁, ?_⟩
  rw [List.cons_append, cut_clause hkind hclause, hcut₁, hcut₂]

/-- A comma goes on with any clause. -/
theorem cut_comma (h : l.Parts hs is cs) (hcomma : l.isComma) (s : State) (ts : List Token) :
    ∃ s' : State, s'.last = s.last ∧
      cut .select s (hs ++ (is ++ ts)) =
        (hs ++ (is ++ (cut .select s' ts).1), (cut .select s' ts).2) := by
  obtain ⟨t, rfl, ht⟩ := h.kind_of_isComma hcomma
  have hall : ∀ u ∈ t :: is, u.Continues :=
    List.forall_mem_cons.2 ⟨Token.continues_of_ne (by simp [Token.isOpen, ht]) (by simp [ht]),
      continues_of_mem_item h.item⟩
  exact cut_continues hall .select s ts

/-! ### Reading a link -/

variable (nested : List Token → Statement)

theorem refs_ofRegions_condition (rs : List Region) :
    (Sources.ofRegions nested true (⟨.joinCondition, t, ts⟩ :: rs)).refs =
      (Sources.ofRegions nested true rs).refs := by
  rw [Sources.ofRegions, Sources.refs_append]
  rfl

/-- A list of tables that a join begins is read from the join on. -/
theorem refs_ofRegions_join (h : t.isLinkWord) (rs : List Region) :
    (Sources.ofRegions nested true (⟨.sources, t, ts⟩ :: rs)).refs =
      (tableList nested .sources (t :: ts)).refs ++ (Sources.ofRegions nested true rs).refs := by
  have hfrom : (Region.mk .sources t ts).startsFrom = false := by
    unfold Token.isLinkWord Token.isAnyKeyword at h
    cases hkind : t.kind <;> simp_all [startsFrom, Token.isKeyword]
    rintro rfl
    simp [joinWords] at h
  rw [Sources.ofRegions, Sources.refs_append]
  simp only [hfrom, Bool.false_eq_true, if_false, tokens, Bool.true_or, Sources.refs_inFrontOf]

/-- The tables of tokens that were cut into clauses, the first of which goes on with a list of tables
or with an open join condition. -/
def refsIn (isOpen : Bool) (found : List Token × List Region) : List TableRef :=
  (if isOpen then [] else (tableList nested .sources found.1).refs) ++
    (Sources.ofRegions nested true found.2).refs

theorem refsIn_condition (h : l.Parts hs is cs) (ts : List Token) (hlast : s.last = some .sources) :
    ∃ s' : State, s'.last = some (.ofOpen l.condition?.isSome) ∧
      refsIn nested false (cut .select s (cs ++ ts)) =
        refsIn nested l.condition?.isSome (cut .select s' ts) := by
  rcases h.condition_cases with ⟨rfl, hnone⟩ | ⟨on, ds, rfl, hsome, hon, hds⟩
  · rw [hnone]
    exact ⟨s, hlast, rfl⟩
  · have hclause : s.clause? .select on .ON (ds ++ ts) = some .joinCondition := by
      simp [State.clause?, startsJoin_of_kind hon (by decide)]
    have hall : ∀ d ∈ ds, d.Continues := by
      intro d hd
      obtain ⟨hopen, -, hword⟩ := Token.of_isOperand (hds d hd)
      exact Token.continues_of_ne hopen hword
    obtain ⟨s', hlast', hcut⟩ :=
      cut_continues hall .select (s.behind on .ON (some .joinCondition)) ts
    rw [hsome]
    refine ⟨s', hlast', ?_⟩
    rw [List.cons_append, cut_clause hon hclause, hcut, refsIn, refsIn, tableList,
      refs_ofRegions_condition]
    rfl

/-- One link: a comma behind an open condition adds no table. -/
theorem refsIn_link {isOpen : Bool} (h : l.Parts hs is cs) (hts : EndsTable ts)
    (hlast : s.last = some (.ofOpen isOpen)) :
    ∃ s' : State, s'.last = some (.ofOpen (l.leavesOpen isOpen)) ∧
      refsIn nested isOpen (cut .select s (hs ++ (is ++ (cs ++ ts)))) =
        (if l.isComma && isOpen then [] else [l.item.ref]) ++
          refsIn nested (l.leavesOpen isOpen) (cut .select s' ts) := by
  have hends : ∀ s' : State, EndsTable (cut .select s' (cs ++ ts)).1 := fun s' =>
    (h.endsTable_condition hts).mono ⟨_, cut_flatten .select s' (cs ++ ts)⟩
  cases isOpen with
  | false =>
      obtain ⟨s₁, hlast₁, hcut⟩ := cut_parts h (cs ++ ts) hlast
      obtain ⟨s₂, hlast₂, hrefs⟩ := refsIn_condition nested h ts hlast₁
      rw [l.leavesOpen_false, Bool.and_false]
      refine ⟨s₂, hlast₂, ?_⟩
      rw [← hrefs, hcut, refsIn, refsIn, if_neg Bool.false_ne_true, if_neg Bool.false_ne_true,
        if_neg Bool.false_ne_true, refs_tableList_parts nested .sources h (hends s₁)]
      rfl
  | true =>
      cases hcomma : l.isComma with
      | true =>
          obtain rfl := h.condition_of_isComma hcomma
          obtain ⟨s₁, hlast₁, hcut⟩ := cut_comma h hcomma s ts
          rw [TableLink.leavesOpen_of_isComma hcomma]
          exact ⟨s₁, hlast₁.trans hlast, by rw [List.nil_append, hcut]; rfl⟩
      | false =>
          obtain ⟨j, js, s₁, rfl, hlast₁, hcut⟩ := cut_join h hcomma (cs ++ ts) hlast
          obtain ⟨s₂, hlast₂, hrefs⟩ := refsIn_condition nested h ts hlast₁
          have hj := h.isLinkWord j List.mem_cons_self
          rw [TableLink.leavesOpen_of_not_isComma hcomma]
          refine ⟨s₂, hlast₂, ?_⟩
          rw [← hrefs, hcut, refsIn, refsIn, refs_ofRegions_join nested hj, ← List.cons_append,
            refs_tableList_parts nested .sources h (hends s₁)]
          rfl

/-- The links of a list: the items behind a condition are not found until the next join. -/
theorem refsIn_links {ls : List TableLink} {isOpen : Bool} (h : AreLinks ls ts)
    (hlast : s.last = some (.ofOpen isOpen)) :
    refsIn nested isOpen (cut .select s ts) =
      (TableLink.found isOpen ls).map TableItem.ref := by
  induction ls generalizing ts s isOpen with
  | nil =>
      rw [h.eq_nil, cut, refsIn, tableList]
      cases isOpen <;> rfl
  | cons l ls ih =>
      obtain ⟨hs, is, cs, us, hparts, hus, rfl⟩ := h.exists_parts
      obtain ⟨s', hlast', hrefs⟩ := refsIn_link nested hparts hus.endsTable hlast
      rw [hrefs, ih hus hlast', TableLink.found, List.map_append]
      split <;> rfl

theorem refsIn_listing {l : TableListing} (h : ts.map Token.spelled = l.spelled)
    (hlast : s.last = some .sources) :
    refsIn nested false (cut .select s ts) = l.found.map TableItem.ref := by
  obtain ⟨is, us, rfl, his, hus⟩ := List.map_eq_append_iff.1 h
  have hus : AreLinks l.links us := hus
  obtain ⟨s', hlast', hcut⟩ := cut_continues (continues_of_mem_item his) .select s us
  have hends : EndsTable (cut .select s' us).1 :=
    hus.endsTable.mono ⟨_, cut_flatten .select s' us⟩
  have hlinks : refsIn nested false (cut .select s' us) =
      (TableLink.found false l.links).map TableItem.ref :=
    refsIn_links nested hus (hlast'.trans hlast)
  rw [TableListing.found, List.map_cons, ← hlinks, hcut, refsIn, refsIn, if_neg Bool.false_ne_true,
    if_neg Bool.false_ne_true, refs_tableList_item nested .sources his hends]
  rfl

end Region

/-! ### Queries -/

/-- A list in parentheses is read on its own. -/
theorem refs_tableList_group (nested : List Token → Statement) (clause : Clause) {t u : Token}
    {inner : List Token} (hopen : t.isOpen) (hclose : u.isClose) (hflat : IsFlat inner)
    (hquery : startsQuery inner = false) :
    (tableList nested clause (t :: (inner ++ [u]))).refs = (tableList nested clause inner).refs := by
  have hkind : t.kind = .parenOpen := of_decide_eq_true hopen
  have hnil : (tableList nested clause []).refs = [] := by
    rw [tableList]
    rfl
  conv_lhs => rw [tableList, hflat.after_append hclose]
  simp [Token.isKeyword, Token.isAnyKeyword, hkind, hopen, hquery, Sources.refs_append, hnil]

namespace Statement

/-- The tables of a query in which no derived table is listed. -/
theorem unplaced_tables_parse {ts : List Token} {refs : List TableRef} (hselect : startsSelect ts)
    (h : (Sources.ofRegions (ofQuery maxNesting) false (Region.cut .select {} ts).2).refs = refs)
    (hplain : ∀ t ∈ refs, t.isDerived = false) : (parse ts).tables.map TableRef.unplaced = refs := by
  have hquery := (isQueryOf_build (ofQuery maxNesting) hselect).markedIn []
  rw [parse, hquery.tables, linkDerived_eq, Sources.markedIn, List.map_map, List.map_map, ← h,
    Sources.refs]
  refine List.map_congr_left fun t ht => congrArg TableRef.unplaced ?_
  have hmark : t.markedIn [] = t := by simp [TableRef.markedIn]
  rw [hmark, TableRef.linkedIn_of_not_isDerived]
  exact hplain t.unplaced (h ▸ List.mem_map_of_mem ht)

/-- The tokens of `SELECT * FROM`. -/
def selectFrom : List (TokenKind × String) :=
  [Keyword.SELECT.spelled, (.operator, "*"), Keyword.FROM.spelled]

variable {l : TableListing} {ts : List Token}

/-- The tables of a query that begins with `SELECT * FROM` are those of the tokens behind it. -/
theorem exists_refs_parse {ls : List (TokenKind × String)}
    (h : ts.map Token.spelled = selectFrom ++ ls) :
    ∃ (us : List Token) (s : Region.State), us.map Token.spelled = ls ∧ s.last = some .sources ∧
      ∀ is : List TableItem,
        Region.refsIn (ofQuery maxNesting) false (Region.cut .select s us) =
            is.map TableItem.ref →
          (parse ts).tables.map TableRef.unplaced = is.map TableItem.ref := by
  obtain ⟨select, ts, rfl, hselect, hts⟩ := List.map_eq_cons_iff.1 h
  obtain ⟨star, ts, rfl, hstar, hts⟩ := List.map_eq_cons_iff.1 hts
  obtain ⟨sources, us, rfl, hsources, hus⟩ := List.map_eq_cons_iff.1 hts
  have hkind : select.kind = .keyword .SELECT := congrArg Prod.fst hselect
  have hkind' : sources.kind = .keyword .FROM := congrArg Prod.fst hsources
  obtain ⟨s, hlast, hcut⟩ :=
    Region.exists_cut_selectFrom hkind (congrArg Prod.fst hstar) hkind' us
  refine ⟨us, s, hus, hlast, fun is hrefs => ?_⟩
  refine unplaced_tables_parse (by simp [startsSelect, Token.isKeyword, hkind]) ?_ ?_
  · rw [hcut, ← hrefs, Sources.ofRegions, Sources.ofRegions, Sources.refs_append,
      Sources.refs_append, Region.refsIn, if_neg Bool.false_ne_true]
    simp [Region.startsFrom, Token.isKeyword, hkind']
    rfl
  · intro t ht
    obtain ⟨i, -, rfl⟩ := List.mem_map.1 ht
    rfl

theorem tables_listing (h : ts.map Token.spelled = selectFrom ++ l.spelled) :
    (parse ts).tables.map TableRef.unplaced = l.found.map TableItem.ref := by
  obtain ⟨us, s, hus, hlast, htables⟩ := exists_refs_parse h
  exact htables l.found (Region.refsIn_listing _ hus hlast)

/-- All items of a list in parentheses are found. -/
theorem tables_listing_group {o c : TokenKind × String} (ho : o.1 = .parenOpen)
    (hc : c.1 = .parenClose) (h : ts.map Token.spelled = selectFrom ++ o :: l.spelled ++ [c]) :
    (parse ts).tables.map TableRef.unplaced = l.items.map TableItem.ref := by
  rw [List.append_assoc] at h
  obtain ⟨us, s, hus, hlast, htables⟩ := exists_refs_parse h
  obtain ⟨t, behind, rfl, ht, hbehind⟩ := List.map_eq_cons_iff.1 hus
  obtain ⟨inner, closing, rfl, hinner, hclosing⟩ := List.map_eq_append_iff.1 hbehind
  obtain ⟨u, rfl, hu⟩ := List.map_eq_singleton_iff.1 hclosing
  have hopen : t.isOpen := by simp [Token.isOpen, ← ho, ← ht, Token.spelled]
  have hclose : u.isClose := by simp [Token.isClose, ← hc, ← hu, Token.spelled]
  have hflat : IsFlat inner := by
    intro v hv
    have hmem : v.spelled ∈ l.spelled := hinner ▸ List.mem_map_of_mem hv
    obtain ⟨hopen, hclose⟩ := HasNoParens.listing l v.spelled hmem
    exact ⟨decide_eq_false hopen, decide_eq_false hclose⟩
  have hquery : startsQuery inner = false := by
    obtain ⟨v, vs, rfl, hv, -⟩ := List.map_eq_cons_iff.1 hinner
    obtain ⟨hopen, hword⟩ := Token.of_isName (Token.of_spelled hv).1
    simp [startsQuery, hopen, Token.isAnyKeyword_of_ne hword]
  refine htables l.items ?_
  rw [Region.cut_group hopen (by simp [Region.State.isColumnList_select]),
    hflat.after_append hclose]
  simp only [Group.tokens, Option.toList_some, Region.cut, Region.refsIn, List.append_nil]
  rw [if_neg Bool.false_ne_true, refs_tableList_group _ .sources hopen hclose hflat hquery,
    refs_tableList_listing _ .sources hinner]
  exact List.append_nil _

end Statement

end Tsql
