import Tsql.Proofs.Statement.Readers
import Tsql.Proofs.Statement.Regions
import Tsql.Statement.Parse

/-!
How the tokens of a statement are laid out.

The common table expressions come first, and what is behind them is cut into regions. Nothing is lost
(`Statement.tokens_layout`). A region begins at a keyword or at a column list, that of the target at
the verb of the statement (`Layout.of_mem_regions`).
-/

namespace Tsql

/-! ### Common table expressions -/

namespace CteList

theorem skips_columnList (ts : List Token) : Skips ts (columnList ts).2 := by
  unfold columnList
  split
  · exact .refl _
  · dsimp only
    split
    · next hlist => exact .group (Bool.and_eq_true_iff.1 hlist).1 (.refl _)
    · exact .refl _

theorem skips_skipAs (ts : List Token) : Skips ts (skipAs ts) := by
  unfold skipAs
  split
  · exact .refl _
  · split
    · next has => exact .token (Token.isOpen_of_isKeyword has) (.refl _)
    · exact .refl _

theorem skips_withoutBody (name : Token) (columns : Option (List String)) (groups : List Nat)
    (ts : List Token) : Skips ts (withoutBody name columns groups ts).rest := by
  unfold withoutBody
  dsimp only
  split
  · exact .refl _
  · split
    · next hopen => exact .group hopen (.refl _)
    · exact .refl _

theorem skips_one (nested : List Token → Statement) (name : Token) (ts : List Token) :
    Skips ts (one nested name ts).rest := by
  have hbehind := (skips_columnList ts).trans (skips_skipAs _)
  unfold one
  dsimp only
  split
  · next t rest heq =>
    rw [heq] at hbehind
    split
    · next hquery => exact hbehind.trans (.group (Bool.and_eq_true_iff.1 hquery).1 (.refl _))
    · exact hbehind.trans (skips_withoutBody _ _ _ _)
  · exact (Skips.nil ts).trans (skips_withoutBody _ _ _ _)

theorem skips_ofTokens (nested : List Token → Statement) (ts : List Token) :
    Skips ts (ofTokens nested ts).rest := by
  fun_induction ofTokens nested ts with
  | case1 => exact .refl _
  | case2 name rest hname first comma more heq hcomma ih =>
      have hfirst : Skips rest (comma :: more) := heq ▸ skips_one nested name rest
      have hopen : comma.isOpen = false := by simp [Token.isOpen, hcomma]
      exact .token (Token.isOpen_of_isName hname) (hfirst.trans (.token hopen ih))
  | case3 name rest hname => exact .token (Token.isOpen_of_isName hname) (skips_one ..)
  | case4 name rest hname => exact .token (Token.isOpen_of_isName hname) (skips_one ..)
  | case5 => exact .refl _

end CteList

/-! ### Layouts -/

theorem isInfix_flatMap {α β : Type} {f : α → List β} {a : α} {as : List α} (h : a ∈ as) :
    f a <:+: as.flatMap f := by
  rw [List.flatMap_def]
  exact List.infix_of_mem_flatten (List.mem_map_of_mem h)

/-- What changes a table does not begin with a parenthesis. -/
theorem StatementKind.isOpen_of_isDml {t : Token} {ts : List Token}
    (h : (StatementKind.ofTokens (t :: ts)).isDml) : t.isOpen = false := by
  rw [← Bool.not_eq_true]
  intro hopen
  have hkind : t.kind = .parenOpen := of_decide_eq_true hopen
  simp only [ofTokens, hkind] at h
  split at h
  · split at h <;> simp [isDml] at h
  · simp [isDml] at h

namespace Layout

def tokens (l : Layout) : List Token :=
  l.lead ++ l.regions.flatMap Region.tokens

variable {clause : Clause} {l : Layout} {behind : List Token → List Token} {r : Region}

theorem tokens_opening (clause : Clause) (h : behind l.lead = [] → l.lead = []) :
    (l.opening clause behind).tokens = behind l.lead ++ l.regions.flatMap Region.tokens := by
  unfold opening
  split
  · next hnil => rw [hnil, tokens, h hnil]
  · next hcons => rw [hcons]; rfl

theorem of_mem_opening (h : r ∈ (l.opening clause behind).regions) :
    r ∈ l.regions ∨ r.clause = clause ∧ r.tokens = behind l.lead := by
  unfold opening at h
  split at h
  · exact .inl h
  · next hcons =>
    rcases List.mem_cons.1 h with rfl | h
    · exact .inr ⟨rfl, hcons.symm⟩
    · exact .inl h

theorem mem_opening (h : r ∈ l.regions) : r ∈ (l.opening clause behind).regions := by
  unfold opening
  split
  · exact h
  · exact List.mem_cons_of_mem _ h

/-- The layout of a statement without common table expressions, cut from the state `s` on. -/
def ofBody (kind : StatementKind) (s : Region.State) (body : List Token) : Layout :=
  let main : Layout := ⟨(Region.cut kind s body).1, (Region.cut kind s body).2⟩
  if kind.isDml then main.opening .target id else main

theorem ofTokens_eq (kind : StatementKind) (ctes body : List Token) :
    ∃ s, ofTokens kind ctes body =
      if ctes.isEmpty then ofBody kind s body
      else (ofBody kind s body).opening .ctes (ctes ++ ·) :=
  ⟨_, rfl⟩

/-- Without common table expressions the regions that the tokens are cut into are kept. -/
theorem mem_of_mem_cut {kind : StatementKind} {body : List Token}
    (h : r ∈ (Region.cut kind { last := if kind.isDml then some .target else none } body).2) :
    r ∈ (ofTokens kind [] body).regions := by
  have hbody : r ∈ (ofBody kind { last := if kind.isDml then some .target else none } body).regions := by
    generalize ({ last := if kind.isDml then some .target else none } : Region.State) = s at h ⊢
    unfold ofBody
    dsimp only
    split
    · exact mem_opening h
    · exact h
  exact hbody

theorem tokens_ofBody (kind : StatementKind) (s : Region.State) (body : List Token) :
    (ofBody kind s body).tokens = body := by
  have hcut := Region.cut_flatten kind s body
  unfold ofBody
  dsimp only
  split
  · rw [tokens_opening _ id]
    exact hcut
  · exact hcut

/-- Laying out loses nothing. -/
theorem tokens_ofTokens (kind : StatementKind) (ctes body : List Token) :
    (ofTokens kind ctes body).tokens = ctes ++ body := by
  obtain ⟨s, heq⟩ := ofTokens_eq kind ctes body
  have hbody := tokens_ofBody kind s body
  rw [heq]
  split
  · next hempty => rw [hbody, List.isEmpty_iff.1 hempty, List.nil_append]
  · rw [tokens_opening _ fun hnil => (List.append_eq_nil_iff.1 hnil).2, List.append_assoc]
    exact congrArg (ctes ++ ·) hbody

theorem isInfix_of_mem_regions (h : r ∈ l.regions) : r.tokens <:+: l.tokens :=
  (isInfix_flatMap h).trans (List.suffix_append _ _).isInfix

theorem of_mem_ofBody {kind : StatementKind} {s : Region.State} {body : List Token}
    (h : r ∈ (ofBody kind s body).regions) :
    r ∈ (Region.cut kind s body).2 ∨
      r.clause = .target ∧ kind.isDml ∧ body.head? = some r.head := by
  unfold ofBody at h
  dsimp only at h
  split at h
  · next hdml =>
    refine (of_mem_opening h).imp_right fun ⟨hclause, htokens⟩ => ⟨hclause, hdml, ?_⟩
    have hlead : (Region.cut kind s body).1 = r.tokens := htokens.symm
    rw [← Region.cut_flatten kind s body, hlead]
    rfl
  · exact .inl h

/-- Besides the regions that the body is cut into there are only those of the target and of the common
table expressions. -/
theorem of_mem_regions {kind : StatementKind} {ctes body : List Token}
    (h : r ∈ (ofTokens kind ctes body).regions) :
    (∃ front, front <+: body ∧ r.clause = .ctes ∧ r.tokens = ctes ++ front) ∨
      r.tokens <:+: body ∧
        ((∃ s, r ∈ (Region.cut kind s body).2) ∨
          r.clause = .target ∧ kind.isDml ∧ body.head? = some r.head) := by
  obtain ⟨s, heq⟩ := ofTokens_eq kind ctes body
  have hbody := tokens_ofBody kind s body
  have hmain : ∀ r ∈ (ofBody kind s body).regions, r.tokens <:+: body ∧
      ((∃ s, r ∈ (Region.cut kind s body).2) ∨
        r.clause = .target ∧ kind.isDml ∧ body.head? = some r.head) := by
    intro r hr
    exact ⟨hbody ▸ isInfix_of_mem_regions hr, (of_mem_ofBody hr).imp_left fun hr => ⟨s, hr⟩⟩
  rw [heq] at h
  split at h
  · exact .inr (hmain r h)
  · rcases of_mem_opening h with h | ⟨hclause, htokens⟩
    · exact .inr (hmain r h)
    · exact .inl ⟨_, ⟨_, hbody⟩, hclause, htokens⟩

theorem isOpen_of_mem_regions {ctes body : List Token}
    (h : r ∈ (ofTokens (.ofTokens body) ctes body).regions) (hctes : r.clause ≠ .ctes)
    (hcolumns : r.clause ≠ .insertColumns) : r.head.isOpen = false := by
  rcases of_mem_regions h with ⟨_, -, heq, -⟩ | ⟨-, ⟨s, hcut⟩ | ⟨-, hdml, hhead⟩⟩
  · exact absurd heq hctes
  · exact Region.isOpen_of_mem_cut hcut hcolumns
  · obtain ⟨ts, rfl⟩ := List.head?_eq_some_iff.1 hhead
    exact StatementKind.isOpen_of_isDml hdml

theorem lead_opening : (l.opening clause behind).lead = [] ∨
    (l.opening clause behind).lead = l.lead := by
  unfold opening
  split
  · exact .inr rfl
  · exact .inl rfl

theorem isInfix_lead_ofTokens (kind : StatementKind) (ctes body : List Token) :
    (ofTokens kind ctes body).lead <:+: body := by
  obtain ⟨s, heq⟩ := ofTokens_eq kind ctes body
  have hlead : (ofBody kind s body).lead <+: body := ⟨_, tokens_ofBody kind s body⟩
  rw [heq]
  split
  · exact hlead.isInfix
  · rcases lead_opening with hnil | hsame
    · rw [hnil]
      exact List.nil_infix
    · rw [hsame]
      exact hlead.isInfix

theorem flatMap_pieces (l : Layout) : l.pieces.flatMap Prod.snd = l.tokens := by
  rw [pieces, List.flatMap_cons, List.flatMap_map]
  rfl

/-- A query in an expression stands in one of the pieces, whatever is claimed there. -/
theorem exists_of_mem_expressionQueries {nested : List Token → Statement} {claimed : List Nat}
    {pieces : List (Option Clause × List Token)} {q : Subquery}
    (h : q ∈ expressionQueries nested claimed pieces) :
    ∃ piece ∈ pieces, ∃ isClaimed, q ∈ Tsql.expressionQueries nested isClaimed piece.1 piece.2 := by
  induction pieces with
  | nil => exact absurd h List.not_mem_nil
  | cons piece later ih =>
      rcases List.mem_append.1 h with h | h
      · exact ⟨piece, List.mem_cons_self, _, h⟩
      · obtain ⟨piece', hpiece', hq⟩ := ih h
        exact ⟨piece', List.mem_cons_of_mem piece hpiece', hq⟩

/-- Only one piece holds the common table expressions, and it begins with them. -/
theorem of_mem_pieces {kind : StatementKind} {ctes body : List Token}
    {piece : Option Clause × List Token} (h : piece ∈ (ofTokens kind ctes body).pieces) :
    piece.2 <:+: body ∨ ∃ front, front <+: body ∧ piece.2 = ctes ++ front := by
  rcases List.mem_cons.1 h with rfl | h
  · exact .inl (isInfix_lead_ofTokens kind ctes body)
  · obtain ⟨r, hr, rfl⟩ := List.mem_map.1 h
    rcases of_mem_regions hr with ⟨front, hfront, -, htokens⟩ | ⟨hin, -⟩
    · exact .inr ⟨front, hfront, htokens⟩
    · exact .inl hin

end Layout

/-- The clauses of a statement begin where its regions do. -/
theorem map_clauseRanges (stop : Position) (rs : List Region) :
    (clauseRanges stop rs).map (fun c => (c.clause, c.range.start)) =
      rs.map fun r => (r.clause, r.head.start) := by
  induction rs with
  | nil => rfl
  | cons r rs ih =>
      cases rs with
      | nil => rfl
      | cons next rs => exact congrArg _ ih

theorem exists_region_of_mem {stop : Position} {rs : List Region} {c : ClauseRange}
    (h : c ∈ clauseRanges stop rs) :
    ∃ r ∈ rs, c.clause = r.clause ∧ c.range.start = r.head.start := by
  have hmem := List.mem_map_of_mem (f := fun c : ClauseRange => (c.clause, c.range.start)) h
  rw [map_clauseRanges] at hmem
  obtain ⟨r, hr, heq⟩ := List.mem_map.1 hmem
  obtain ⟨hclause, hstart⟩ := Prod.mk.inj heq
  exact ⟨r, hr, hclause.symm, hstart.symm⟩

/-- A column list of an `INSERT` has the rank of the token that its region begins with. -/
theorem Region.exists_of_mem_columnLists {rs : List Region} {rank : Nat}
    (h : rank ∈ columnLists rs) :
    ∃ r ∈ rs, r.clause = .insertColumns ∧
      ∃ us, r.head :: us <:+ rs.flatMap tokens ∧ (r.head :: us).length = rank := by
  induction rs with
  | nil => contradiction
  | cons r rs ih =>
      have hlater : rank ∈ columnLists rs → ∃ r' ∈ r :: rs, r'.clause = .insertColumns ∧
          ∃ us, r'.head :: us <:+ (r :: rs).flatMap tokens ∧ (r'.head :: us).length = rank := by
        intro hrank
        obtain ⟨r', hr', hclause, us, hsuffix, hlength⟩ := ih hrank
        exact ⟨r', List.mem_cons_of_mem r hr', hclause, us,
          hsuffix.trans (List.suffix_append r.tokens _), hlength⟩
      unfold columnLists at h
      split at h
      · next hclause =>
        rcases List.mem_cons.1 h with rfl | h
        · exact ⟨r, List.mem_cons_self, hclause, _, List.suffix_rfl, rfl⟩
        · exact hlater h
      · exact hlater h

/-! ### Statements -/

namespace Statement

variable (nested : List Token → Statement) (ts : List Token)

/-- The common table expressions in front of a statement, and the tokens behind them. -/
def heading : CteList :=
  match ts with
  | [] => { rest := [] }
  | first :: rest => if first.isKeyword .WITH then .ofTokens nested rest else { rest := ts }

def layout : Layout :=
  .ofTokens (.ofTokens (heading nested ts).rest)
    (ts.take (ts.length - (heading nested ts).rest.length)) (heading nested ts).rest

/-- The tables, derived tables and issues in the regions. -/
def found : Sources :=
  .ofRegions nested false (layout nested ts).regions

/-- The group of column definitions, by its rank. -/
def definitions : Option Nat :=
  (ObjectHead.ofBody (.ofTokens (heading nested ts).rest) (heading nested ts).rest).definitions

/-- The ranks of the groups that are no expressions. -/
def claimed : List Nat :=
  (heading nested ts).groups ++ (definitions nested ts).toList ++
    Region.columnLists (layout nested ts).regions ++ (found nested ts).groups

/-- The queries in parentheses that are no derived tables. -/
def expressions : List Subquery :=
  Layout.expressionQueries nested (claimed nested ts) (layout nested ts).pieces

theorem range_build : (build nested ts).range = .ofTokens ts := by
  cases ts <;> rfl

theorem ctes_build : (build nested ts).ctes = (heading nested ts).ctes := by
  cases ts <;> rfl

theorem layout_nil : layout nested [] = ⟨[], []⟩ := by
  simp [layout, heading, Layout.ofTokens, Region.cut, StatementKind.ofTokens, StatementKind.isDml]

theorem clauses_build :
    (build nested ts).clauses =
      clauseRanges (Range.ofTokens ts).stop (layout nested ts).regions := by
  cases ts with
  | nil => rw [layout_nil]; rfl
  | cons first rest => rfl

theorem perm_subqueries_build :
    (build nested ts).subqueries.Perm
      ((found nested ts).subqueries ++ expressions nested ts) := by
  cases ts with
  | nil =>
      simp [found, expressions, layout_nil, Layout.pieces, Layout.expressionQueries,
        Sources.ofRegions, expressionQueries, build]
  | cons first rest => exact List.mergeSort_perm _ _

theorem issues_found_subset : (found nested ts).issues ⊆ (build nested ts).issues := by
  cases ts with
  | nil => simp [found, layout_nil, Sources.ofRegions]
  | cons first rest => exact List.subset_append_right _ _

theorem skips_heading : Skips ts (heading nested ts).rest := by
  unfold heading
  split
  · exact .refl _
  · split
    · next hwith =>
      exact .token (Token.isOpen_of_isKeyword hwith) (CteList.skips_ofTokens nested _)
    · exact .refl _

theorem take_append_heading :
    ts.take (ts.length - (heading nested ts).rest.length) ++ (heading nested ts).rest = ts :=
  List.suffix_iff_eq_append.1 (skips_heading nested ts).suffix

/-- Laying out loses nothing. -/
theorem tokens_layout : (layout nested ts).tokens = ts := by
  rw [layout, Layout.tokens_ofTokens, take_append_heading]

theorem flatMap_pieces_layout : (layout nested ts).pieces.flatMap Prod.snd = ts := by
  rw [Layout.flatMap_pieces, tokens_layout]

/-- The regions end with the statement. -/
theorem regions_suffix : (layout nested ts).regions.flatMap Region.tokens <:+ ts :=
  ⟨(layout nested ts).lead, tokens_layout nested ts⟩

variable {nested ts} {r : Region}

theorem isInfix_of_mem_regions (h : r ∈ (layout nested ts).regions) : r.tokens <:+: ts := by
  have hin := Layout.isInfix_of_mem_regions h
  rwa [tokens_layout] at hin

theorem isInfix_of_mem_pieces {piece : Option Clause × List Token}
    (h : piece ∈ (layout nested ts).pieces) : piece.2 <:+: ts := by
  have hin : piece.2 <:+: (layout nested ts).pieces.flatMap Prod.snd := isInfix_flatMap h
  rwa [flatMap_pieces_layout] at hin

theorem head_mem_of_mem_regions (h : r ∈ (layout nested ts).regions) : r.head ∈ ts :=
  (isInfix_of_mem_regions h).subset List.mem_cons_self

end Statement

end Tsql
