import Tsql.Proofs.Statement.Siblings
import Tsql.Proofs.Token.Claimed

/-!
The outermost queries in parentheses of a whole statement.

Neither cutting the tokens into regions nor laying them out loses a query (`Region.queryGroups_cut`,
`Layout.queryGroups_ofTokens`), so the outermost queries in the pieces of a statement are those in its
tokens (`Statement.outermost_eq`). In the list behind a `WITH` a group holds column names or the body of
an expression (`CteList.holdsAt_ofTokens`).
-/

namespace Tsql

section

variable {claimed : List Position} {nested : List Token → Statement} {ts : List Token}

/-! ### Cutting -/

/-- Cutting into regions loses no query. -/
theorem Region.queryGroups_cut (claimed : List Position) (kind : StatementKind) (s : State)
    (ts : List Token) :
    queryGroups claimed (cut kind s ts).1 ++
        (cut kind s ts).2.flatMap (fun r => queryGroups claimed r.tokens) =
      queryGroups claimed ts := by
  fun_induction cut kind s ts with
  | case1 => simp
  | case2 s t ts inGroup hopen hlist later ih =>
      have hlater : (Group.after ts).rest = [] → later.1 = [] := fun hnil =>
        (List.append_eq_nil_iff.1 ((cut_flatten kind _ _).trans hnil)).1
      rw [queryGroups_nil, List.nil_append, List.flatMap_cons, queryGroups_eq_group_append_rest hopen,
        ← ih, ← List.append_assoc]
      exact congrArg (· ++ _) (queryGroups_cons_append hopen hlater)
  | case3 s t ts inGroup hopen hlist later ih =>
      have hlater : (Group.after ts).rest = [] → later.1 = [] := fun hnil =>
        (List.append_eq_nil_iff.1 ((cut_flatten kind _ _).trans hnil)).1
      rw [queryGroups_eq_group_append_rest hopen, ← ih, ← List.append_assoc, List.cons_append]
      exact congrArg (· ++ _) (queryGroups_cons_append hopen hlater)
  | case4 s t ts hopen word hkind clause later c hc ih =>
      have hclosed : t.isOpen = false := by simpa using hopen
      rw [queryGroups_nil, List.nil_append, List.flatMap_cons, Region.tokens,
        queryGroups_cons hclosed, queryGroups_cons hclosed, ih]
  | case5 s t ts hopen word hkind clause later hc ih =>
      have hclosed : t.isOpen = false := by simpa using hopen
      rw [queryGroups_cons hclosed, queryGroups_cons hclosed, ih]
  | case6 s t ts hopen later hkind ih =>
      have hclosed : t.isOpen = false := by simpa using hopen
      rw [queryGroups_cons hclosed, queryGroups_cons hclosed, ih]

namespace Layout

/-- The outermost queries in the pieces. -/
def queryGroups (l : Layout) (claimed : List Position) : List (List Token) :=
  Tsql.queryGroups claimed l.lead ++ l.regions.flatMap fun r => Tsql.queryGroups claimed r.tokens

theorem flatMap_queryGroups_pieces (l : Layout) (claimed : List Position) :
    l.pieces.flatMap (fun piece => Tsql.queryGroups claimed piece.2) = l.queryGroups claimed := by
  rw [pieces, List.flatMap_cons, List.flatMap_map]
  rfl

theorem queryGroups_opening (l : Layout) (clause : Clause) {behind : List Token → List Token}
    (h : behind l.lead = [] → l.lead = []) :
    (l.opening clause behind).queryGroups claimed =
      Tsql.queryGroups claimed (behind l.lead) ++
        l.regions.flatMap fun r => Tsql.queryGroups claimed r.tokens := by
  unfold opening
  split
  · next hnil => rw [hnil, queryGroups, h hnil]
  · next hcons =>
    rw [hcons, queryGroups, queryGroups_nil, List.nil_append, List.flatMap_cons]
    rfl

theorem queryGroups_ofBody (claimed : List Position) (kind : StatementKind) (s : Region.State)
    (body : List Token) :
    (ofBody kind s body).queryGroups claimed = Tsql.queryGroups claimed body := by
  have hcut := Region.queryGroups_cut claimed kind s body
  unfold ofBody
  dsimp only
  split
  · rw [queryGroups_opening _ _ id]
    exact hcut
  · exact hcut

/-- Laying out loses no query. -/
theorem queryGroups_ofTokens (claimed : List Position) (kind : StatementKind)
    {ctes body : List Token} (h : depthAfter 0 ctes = 0 ∨ body = []) :
    (ofTokens kind ctes body).queryGroups claimed = Tsql.queryGroups claimed (ctes ++ body) := by
  obtain ⟨s, heq⟩ := ofTokens_eq kind ctes body
  have hbody := queryGroups_ofBody claimed kind s body
  rw [heq]
  split
  · next hempty => rw [List.isEmpty_iff.1 hempty, List.nil_append, hbody]
  · rw [queryGroups_opening _ _ fun hnil => (List.append_eq_nil_iff.1 hnil).2]
    rcases h with hclosed | rfl
    · rw [queryGroups_append hclosed, queryGroups_append hclosed, List.append_assoc, ← hbody]
      rfl
    · have htokens := tokens_ofBody kind s []
      obtain ⟨hlead, hregions⟩ := List.append_eq_nil_iff.1 htokens
      have hnone : (ofBody kind s []).regions = [] := by
        cases hr : (ofBody kind s []).regions with
        | nil => rfl
        | cons r rs => rw [hr] at hregions; simp [Region.tokens] at hregions
      rw [hlead, hnone, List.flatMap_nil, List.append_nil]

end Layout

/-- The outermost queries in the pieces of a statement are those in its tokens. -/
theorem Statement.outermost_eq (nested : List Token → Statement) (ts : List Token)
    (claimed : List Position) : outermost nested ts claimed = queryGroups claimed ts := by
  obtain ⟨front, hfront, hclosed⟩ := (skips_heading nested ts).exists_closed
  have hctes : ts.take (ts.length - (heading nested ts).rest.length) = front :=
    List.append_cancel_right ((take_append_heading nested ts).trans hfront)
  rw [outermost, Layout.flatMap_queryGroups_pieces, layout, hctes,
    Layout.queryGroups_ofTokens claimed _ hclosed, ← hfront]

/-! ### Common table expressions -/

namespace CteList

/-- The list does not depend on how queries are read, but for what is in them. -/
theorem groups_one_eq (nested nested' : List Token → Statement) (name : Token) (ts : List Token) :
    (one nested name ts).groups = (one nested' name ts).groups ∧
      (one nested name ts).rest = (one nested' name ts).rest := by
  unfold one
  dsimp only
  split
  · split <;> exact ⟨rfl, rfl⟩
  · exact ⟨rfl, rfl⟩

theorem ofTokens_cons {name : Token} (hname : name.isName) (ts : List Token) :
    ofTokens nested (name :: ts) =
      match (one nested name ts).rest with
      | comma :: more =>
        if comma.kind = .comma then (one nested name ts).followedBy (ofTokens nested more)
        else one nested name ts
      | [] => one nested name ts := by
  rw [ofTokens, if_pos hname]
  dsimp only
  split
  · next comma more heq => rw [heq]
  · next heq => rw [heq]

theorem groups_ofTokens_eq (nested nested' : List Token → Statement) (ts : List Token) :
    (ofTokens nested ts).groups = (ofTokens nested' ts).groups ∧
      (ofTokens nested ts).rest = (ofTokens nested' ts).rest := by
  fun_induction ofTokens nested ts with
  | case1 => simp [ofTokens]
  | case2 name rest hname first comma more heq hcomma ih =>
      obtain ⟨hgroups, hrest⟩ := groups_one_eq nested nested' name rest
      rw [ofTokens_cons hname, hrest.symm.trans heq]
      dsimp only
      rw [if_pos hcomma]
      exact ⟨congrArg₂ (· ++ ·) hgroups ih.1, ih.2⟩
  | case3 name rest hname first comma more heq hcomma =>
      obtain ⟨hgroups, hrest⟩ := groups_one_eq nested nested' name rest
      rw [ofTokens_cons hname, hrest.symm.trans heq]
      dsimp only
      rw [if_neg hcomma]
      exact ⟨hgroups, hrest⟩
  | case4 name rest hname first heq =>
      obtain ⟨hgroups, hrest⟩ := groups_one_eq nested nested' name rest
      rw [ofTokens_cons hname, hrest.symm.trans heq]
      exact ⟨hgroups, hrest⟩
  | case5 name rest hname => simp [ofTokens, hname]

/-- The group of a list that opens with `t` holds column names, or the body of one of its
expressions. -/
def Holds (nested : List Token → Statement) (l : CteList) (t : Token) (us : List Token) : Prop :=
  t.isOpen ∧ l.rest <:+ us ∧
    (startsQuery us = false ∨
      startsQuery us ∧ ∃ c ∈ l.ctes,
        c.range.stop = (Range.ofTokens (t :: (Group.after us).tokens)).stop ∧
          c.body = nested (Group.after us).inner)

/-- The group with the rank is one of the list. -/
def HoldsAt (nested : List Token → Statement) (ts : List Token) (l : CteList) (rank : Nat) : Prop :=
  ∃ t us, t :: us <:+ ts ∧ (t :: us).length = rank ∧ Holds nested l t us

/-- With more tokens in front and more expressions a group is still of the list. -/
theorem HoldsAt.mono {us : List Token} {l m : CteList} {rank : Nat} (h : HoldsAt nested ts l rank)
    (hts : ts <:+ us) (hrest : m.rest <:+ l.rest) (hctes : l.ctes ⊆ m.ctes) :
    HoldsAt nested us m rank := by
  obtain ⟨t, vs, ht, hrank, hopen, hbehind, hholds⟩ := h
  refine ⟨t, vs, ht.trans hts, hrank, hopen, hrest.trans hbehind, hholds.imp_right fun hbody => ?_⟩
  obtain ⟨hstarts, c, hc, hread⟩ := hbody
  exact ⟨hstarts, c, hctes hc, hread⟩

/-- What one expression is: with a body that opens behind its column names, or without one. -/
theorem one_cases (nested : List Token → Statement) (name : Token) (ts : List Token) :
    let names := (columnList ts).1
    let groups := if names.isSome then [ts.length] else []
    (∃ t us, t :: us <:+ (columnList ts).2 ∧ t.isOpen ∧ startsQuery us ∧
      one nested name ts = withBody nested name names groups t us) ∨
    ∃ us, us <:+ (columnList ts).2 ∧ one nested name ts = withoutBody name names groups us := by
  have hbehind := (skips_skipAs (columnList ts).2).suffix
  intro names groups
  unfold one
  dsimp only
  split
  · next t us heq =>
    rw [heq] at hbehind
    split
    · next hquery =>
      rw [Bool.and_eq_true, Group.startsQuery_inner] at hquery
      exact .inl ⟨t, us, hbehind, hquery.1, hquery.2, rfl⟩
    · exact .inr ⟨t :: us, hbehind, rfl⟩
  · exact .inr ⟨[], List.nil_suffix, rfl⟩

theorem suffix_rest_one (nested : List Token → Statement) (name : Token) (ts : List Token) :
    (one nested name ts).rest <:+ (columnList ts).2 := by
  rcases one_cases nested name ts with ⟨t, us, hsuffix, -, -, heq⟩ | ⟨us, hsuffix, heq⟩
  · rw [heq]
    exact (Group.rest_suffix us).trans ((List.suffix_cons t us).trans hsuffix)
  · rw [heq]
    exact (skips_withoutBody _ _ _ us).suffix.trans hsuffix

/-- The group of column names holds no query. -/
theorem exists_of_columnList (h : (columnList ts).1.isSome) :
    ∃ t us, ts = t :: us ∧ t.isOpen ∧ (columnList ts).2 <:+ us ∧ startsQuery us = false := by
  unfold columnList at h ⊢
  split at h
  · contradiction
  · next t rest =>
    dsimp only at h ⊢
    split at h
    · next hlist =>
      rw [if_pos hlist]
      rw [Bool.and_eq_true, Bool.not_eq_true', Group.startsQuery_inner] at hlist
      exact ⟨t, rest, rfl, hlist.1, Group.rest_suffix rest, hlist.2⟩
    · contradiction

theorem holdsAt_one {name : Token} {rank : Nat} (h : rank ∈ (one nested name ts).groups) :
    HoldsAt nested ts (one nested name ts) rank := by
  have hrest := suffix_rest_one nested name ts
  have hcolumns : rank ∈ (if (columnList ts).1.isSome then [ts.length] else []) →
      HoldsAt nested ts (one nested name ts) rank := by
    intro hrank
    split at hrank
    · next hsome =>
      obtain ⟨t, us, heq, hopen, hbehind, hnone⟩ := exists_of_columnList hsome
      refine ⟨t, us, heq ▸ List.suffix_rfl, ?_, hopen, hrest.trans hbehind, .inl hnone⟩
      rw [← heq, List.mem_singleton.1 hrank]
    · contradiction
  rcases one_cases nested name ts with ⟨t, us, hsuffix, hopen, hstarts, heq⟩ | ⟨us, -, heq⟩
  · rw [heq] at h
    rcases List.mem_append.1 h with h | h
    · exact hcolumns h
    · rw [heq, List.mem_singleton.1 h]
      exact ⟨t, us, hsuffix.trans (skips_columnList ts).suffix, rfl, hopen, Group.rest_suffix us,
        .inr ⟨hstarts, _, List.mem_singleton_self _, rfl, rfl⟩⟩
  · rw [heq] at h
    exact hcolumns h

theorem holdsAt_ofTokens {ts : List Token} {rank : Nat} (h : rank ∈ (ofTokens nested ts).groups) :
    HoldsAt nested ts (ofTokens nested ts) rank := by
  fun_induction ofTokens nested ts with
  | case1 => exact absurd h List.not_mem_nil
  | case2 name rest hname first comma more heq hcomma ih =>
      have hmore : more <:+ first.rest := heq ▸ List.suffix_cons comma more
      have hfirst : first.rest <:+ name :: rest :=
        (skips_one nested name rest).suffix.trans (List.suffix_cons name rest)
      rcases List.mem_append.1 h with h | h
      · exact (holdsAt_one h).mono (List.suffix_cons name rest)
          ((skips_ofTokens nested more).suffix.trans hmore) (List.subset_append_left _ _)
      · exact (ih h).mono (hmore.trans hfirst) List.suffix_rfl (List.subset_append_right _ _)
  | case3 name rest hname =>
      exact (holdsAt_one h).mono (List.suffix_cons name rest) List.suffix_rfl (List.Subset.refl _)
  | case4 name rest hname =>
      exact (holdsAt_one h).mono (List.suffix_cons name rest) List.suffix_rfl (List.Subset.refl _)
  | case5 => exact absurd h List.not_mem_nil

end CteList

/-- A group of the list of common table expressions is in front of what stands behind the list. -/
theorem Statement.holdsAt_heading {rank : Nat} (h : rank ∈ (heading nested ts).groups) :
    CteList.HoldsAt nested ts (heading nested ts) rank := by
  unfold heading at h ⊢
  split at h
  · contradiction
  · next first rest =>
    split at h
    · next hwith =>
      obtain ⟨t, us, ht, hholds⟩ := CteList.holdsAt_ofTokens h
      rw [if_pos hwith]
      exact ⟨t, us, ht.trans (List.suffix_cons first rest), hholds⟩
    · contradiction

end

end Tsql
