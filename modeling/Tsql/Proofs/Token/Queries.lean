import Tsql.Proofs.Token.Group

/-!
The outermost queries in parentheses among some tokens.

`queryGroups` lists the groups that hold a query and are in no other such group. A reader that steps
over tokens outside groups and over whole groups (`Skips`) leaves the last ones of them
(`Skips.queryGroups_suffix`).
-/

namespace Tsql

/-! ### Closed groups -/

theorem depthAfter_mono {depth more : Nat} (h : depth ≤ more) (ts : List Token) :
    depthAfter depth ts ≤ depthAfter more ts := by
  induction ts generalizing depth more with
  | nil => exact h
  | cons t ts ih =>
      rw [depthAfter_cons, depthAfter_cons]
      apply ih
      unfold Token.depthAfter
      split
      · omega
      · split <;> omega

theorem depthAfter_append (depth : Nat) (ts us : List Token) :
    depthAfter depth (ts ++ us) = depthAfter (depthAfter depth ts) us :=
  List.foldl_append

theorem Token.isOpen_eq_false {t : Token} (h : t.isClose) : t.isOpen = false := by
  simp_all [Token.isOpen, Token.isClose]

/-- Up to its end a group leaves nothing open but what is around it. -/
theorem depthAfter_take_closeIndex? {depth k : Nat} {ts : List Token}
    (h : closeIndex? depth ts = some k) (outer : Nat) :
    depthAfter (depth + outer) (ts.take k) = outer := by
  induction ts generalizing depth k with
  | nil => simp [closeIndex?] at h
  | cons t ts ih =>
      rw [closeIndex?_cons] at h
      split at h
      · next hend =>
        obtain rfl := Option.some.inj h
        rw [hend.2, Nat.zero_add]
        rfl
      · next hend =>
        obtain ⟨j, hj, rfl⟩ := Option.map_eq_some_iff.1 h
        rw [List.take_succ_cons, depthAfter_cons, Token.depthAfter_add hend]
        exact ih hj

theorem isClose_of_closeIndex? {depth k : Nat} {ts : List Token}
    (h : closeIndex? depth ts = some k) : ∃ t, ts[k]? = some t ∧ t.isClose := by
  induction ts generalizing depth k with
  | nil => simp [closeIndex?] at h
  | cons t ts ih =>
      rw [closeIndex?_cons] at h
      split at h
      · next hend =>
        obtain rfl := Option.some.inj h
        exact ⟨t, rfl, hend.1⟩
      · obtain ⟨j, hj, rfl⟩ := Option.map_eq_some_iff.1 h
        exact ih hj

/-- A group without an end runs to the end of the tokens; what is inside one with an end leaves
nothing open. -/
theorem Group.after_cases (ts : List Token) :
    (after ts = ⟨ts, none, []⟩) ∨
      ∃ t, t.isClose ∧ (∀ outer, depthAfter outer (after ts).inner = outer) ∧
        ts = (after ts).inner ++ t :: (after ts).rest := by
  cases h : closeIndex? 0 ts with
  | none => exact .inl (by rw [after, h])
  | some k =>
      obtain ⟨t, ht, hclose⟩ := isClose_of_closeIndex? h
      refine .inr ⟨t, hclose, ?_⟩
      rw [after, h]
      refine ⟨fun outer => ?_, ?_⟩
      · simpa using depthAfter_take_closeIndex? h outer
      · obtain ⟨hk, rfl⟩ := List.getElem?_eq_some_iff.1 ht
        simp

/-! ### Outermost queries -/

/-- The groups that hold a query and are in no other such group. A group that begins at a claimed
position is stepped over. -/
def queryGroups (claimed : List Position) (ts : List Token) : List (List Token) :=
  match ts with
  | [] => []
  | t :: rest =>
    let group := Group.after rest
    if t.isOpen && claimed.contains t.start then queryGroups claimed group.rest
    else if t.isOpen && startsQuery group.inner then
      (t :: group.tokens) :: queryGroups claimed group.rest
    else queryGroups claimed rest
termination_by ts.length
decreasing_by
  · have := Group.length_rest_le rest
    simp only [List.length_cons]
    omega
  · have := Group.length_rest_le rest
    simp only [List.length_cons]
    omega
  · simp

section

variable {claimed : List Position} {t : Token} {ts us span : List Token}

@[simp] theorem queryGroups_nil : queryGroups claimed [] = [] := by
  rw [queryGroups]

theorem queryGroups_cons (h : t.isOpen = false) :
    queryGroups claimed (t :: ts) = queryGroups claimed ts := by
  rw [queryGroups]
  simp [h]

theorem queryGroups_cons_of_claimed (h : t.isOpen) (hclaimed : t.start ∈ claimed) :
    queryGroups claimed (t :: ts) = queryGroups claimed (Group.after ts).rest := by
  rw [queryGroups]
  simp [h, hclaimed]

theorem queryGroups_cons_of_startsQuery (h : t.isOpen) (hclaimed : t.start ∉ claimed)
    (hquery : startsQuery (Group.after ts).inner) :
    queryGroups claimed (t :: ts) =
      (t :: (Group.after ts).tokens) :: queryGroups claimed (Group.after ts).rest := by
  rw [queryGroups]
  simp [h, hclaimed, hquery]

theorem queryGroups_cons_of_not_startsQuery (hclaimed : t.start ∉ claimed)
    (hquery : startsQuery (Group.after ts).inner = false) :
    queryGroups claimed (t :: ts) = queryGroups claimed ts := by
  rw [queryGroups]
  simp [hclaimed, hquery]

/-- The queries of closed tokens do not depend on what follows. -/
theorem queryGroups_append (h : depthAfter 0 ts = 0) (us : List Token) :
    queryGroups claimed (ts ++ us) = queryGroups claimed ts ++ queryGroups claimed us := by
  fun_induction queryGroups claimed ts with
  | case1 => rfl
  | case2 t rest group hclaimed ih =>
      have hopen := (Bool.and_eq_true_iff.1 hclaimed).1
      rw [depthAfter_cons_of_isOpen hopen] at h
      rw [List.cons_append, queryGroups]
      simp only [hclaimed, if_true, Group.rest_append h]
      exact ih (Group.depthAfter_rest h)
  | case3 t rest group hclaimed hquery ih =>
      have hopen := (Bool.and_eq_true_iff.1 hquery).1
      rw [depthAfter_cons_of_isOpen hopen] at h
      rw [List.cons_append, queryGroups]
      simp only [Group.inner_append h, Group.tokens_append h, Group.rest_append h]
      rw [if_neg hclaimed, if_pos hquery, ih (Group.depthAfter_rest h), List.cons_append]
  | case4 t rest group hclaimed hquery ih =>
      cases hopen : t.isOpen with
      | false =>
          have hdepth : t.depthAfter 0 = 0 := by simp [Token.depthAfter, hopen]
          rw [depthAfter_cons, hdepth] at h
          rw [List.cons_append, queryGroups_cons hopen, ih h]
      | true =>
          rw [depthAfter_cons_of_isOpen hopen] at h
          have hrest := Nat.le_zero.1 (h ▸ depthAfter_mono (Nat.zero_le 1) rest)
          rw [List.cons_append, queryGroups]
          simp only [Group.inner_append h]
          rw [if_neg hclaimed, if_neg hquery, ih hrest]

/-- The queries behind an opening parenthesis are those in its group and those behind it. -/
theorem queryGroups_eq_inner_append_rest (claimed : List Position) (ts : List Token) :
    queryGroups claimed ts =
      queryGroups claimed (Group.after ts).inner ++ queryGroups claimed (Group.after ts).rest := by
  rcases Group.after_cases ts with hopen | ⟨t, hclose, hdepth, hsplit⟩
  · rw [hopen, queryGroups_nil, List.append_nil]
  · have hwhole := congrArg (queryGroups claimed) hsplit
    rwa [queryGroups_append (hdepth 0), queryGroups_cons (Token.isOpen_eq_false hclose)] at hwhole

theorem flatten_queryGroups_sublist (claimed : List Position) (ts : List Token) :
    (queryGroups claimed ts).flatten.Sublist ts := by
  fun_induction queryGroups claimed ts with
  | case1 => exact List.Sublist.slnil
  | case2 t rest group _ ih => exact (ih.trans (Group.rest_suffix rest).sublist).cons t
  | case3 t rest group _ _ ih =>
      rw [List.flatten_cons, List.cons_append]
      refine List.Sublist.cons_cons t ?_
      have hall := (List.Sublist.refl group.tokens).append ih
      rwa [Group.tokens_append_rest] at hall
  | case4 t rest group _ _ ih => exact ih.cons t

theorem exists_of_mem_queryGroups (h : span ∈ queryGroups claimed ts) :
    ∃ t us, t :: us <:+ ts ∧ t.start ∉ claimed ∧ span = t :: (Group.after us).tokens := by
  fun_induction queryGroups claimed ts with
  | case1 => exact absurd h List.not_mem_nil
  | case2 t rest group _ ih =>
      obtain ⟨u, us, hsuffix, hu⟩ := ih h
      exact ⟨u, us, (hsuffix.trans (Group.rest_suffix rest)).trans (List.suffix_cons t rest), hu⟩
  | case3 t rest group hclaimed hquery ih =>
      rcases List.mem_cons.1 h with rfl | h
      · have hopen := (Bool.and_eq_true_iff.1 hquery).1
        exact ⟨t, rest, List.suffix_rfl, by simpa [hopen] using hclaimed, rfl⟩
      · obtain ⟨u, us, hsuffix, hu⟩ := ih h
        exact ⟨u, us, (hsuffix.trans (Group.rest_suffix rest)).trans (List.suffix_cons t rest), hu⟩
  | case4 t rest group _ _ ih =>
      obtain ⟨u, us, hsuffix, hu⟩ := ih h
      exact ⟨u, us, hsuffix.trans (List.suffix_cons t rest), hu⟩

theorem ne_nil_of_mem_queryGroups (h : span ∈ queryGroups claimed ts) : span ≠ [] := by
  obtain ⟨t, us, -, -, rfl⟩ := exists_of_mem_queryGroups h
  exact List.cons_ne_nil t _

theorem Group.cons_tokens_isPrefix (t : Token) (ts : List Token) :
    t :: (Group.after ts).tokens <+: t :: ts :=
  ⟨(Group.after ts).rest, by rw [List.cons_append, Group.tokens_append_rest]⟩

theorem isInfix_of_mem_queryGroups (h : span ∈ queryGroups claimed ts) : span <:+: ts := by
  obtain ⟨t, us, hsuffix, -, rfl⟩ := exists_of_mem_queryGroups h
  exact (Group.cons_tokens_isPrefix t us).isInfix.trans hsuffix.isInfix

end

/-! ### Stepping over groups -/

/-- What is left of tokens when some outside groups and some whole groups are stepped over. -/
inductive Skips : List Token → List Token → Prop
  | refl (ts : List Token) : Skips ts ts
  | token {t : Token} {ts us : List Token} (ht : t.isOpen = false) (h : Skips ts us) :
      Skips (t :: ts) us
  | group {t : Token} {ts us : List Token} (ht : t.isOpen) (h : Skips (Group.after ts).rest us) :
      Skips (t :: ts) us

namespace Skips

variable {ts us vs : List Token} {t : Token}

theorem trans (h : Skips ts us) (h' : Skips us vs) : Skips ts vs := by
  induction h with
  | refl => exact h'
  | token ht _ ih => exact .token ht (ih h')
  | group ht _ ih => exact .group ht (ih h')

theorem suffix (h : Skips ts us) : us <:+ ts := by
  induction h with
  | refl => exact List.suffix_rfl
  | @token t ts us _ _ ih => exact ih.trans (List.suffix_cons t ts)
  | @group t ts us _ _ ih => exact (ih.trans (Group.rest_suffix ts)).trans (List.suffix_cons t ts)

theorem nil (ts : List Token) : Skips ts [] := by
  cases ts with
  | nil => exact .refl []
  | cons t rest =>
      cases ht : t.isOpen with
      | false => exact .token ht (nil rest)
      | true => exact .group ht (nil (Group.after rest).rest)
termination_by ts.length
decreasing_by
  · simp
  · have := Group.length_rest_le rest
    simp only [List.length_cons]
    omega

/-- What is stepped over is closed, unless nothing is left. -/
theorem exists_closed (h : Skips ts us) :
    ∃ front, ts = front ++ us ∧ (depthAfter 0 front = 0 ∨ us = []) := by
  induction h with
  | refl ts => exact ⟨[], rfl, .inl rfl⟩
  | @token t ts us ht _ ih =>
      obtain ⟨front, rfl, hfront⟩ := ih
      have hdepth : t.depthAfter 0 = 0 := by simp [Token.depthAfter, ht]
      exact ⟨t :: front, rfl, by rwa [depthAfter_cons, hdepth]⟩
  | @group t ts us ht h ih =>
      obtain ⟨front, hsplit, hfront⟩ := ih
      rcases Group.after_cases ts with hopen | ⟨u, hclose, hdepth, hts⟩
      · rw [hopen] at h
        obtain rfl := List.suffix_nil.1 h.suffix
        exact ⟨t :: ts, (List.append_nil _).symm, .inr rfl⟩
      · refine ⟨t :: ((Group.after ts).inner ++ u :: front), ?_, hfront.imp_left fun hfront => ?_⟩
        · rw [List.cons_append, List.append_assoc, List.cons_append, ← hsplit, ← hts]
        · have hu : u.depthAfter 1 = 0 := by
            simp [Token.depthAfter, hclose, Token.isOpen_eq_false hclose]
          rw [depthAfter_cons_of_isOpen ht, depthAfter_append, hdepth, depthAfter_cons, hu, hfront]

theorem queryGroups_suffix {claimed : List Position} (h : Skips ts us) :
    queryGroups claimed us <:+ queryGroups claimed ts := by
  induction h with
  | refl => exact List.suffix_rfl
  | token ht _ ih => rwa [queryGroups_cons ht]
  | @group t ts us ht _ ih =>
      refine ih.trans ?_
      rw [queryGroups]
      split
      · exact List.suffix_rfl
      · split
        · exact List.suffix_cons _ _
        · rw [queryGroups_eq_inner_append_rest claimed ts]
          exact List.suffix_append _ _

end Skips

/-- Claiming positions only takes queries away. -/
theorem queryGroups_sublist (claimed : List Position) (ts : List Token) :
    (queryGroups claimed ts).Sublist (queryGroups [] ts) := by
  fun_induction queryGroups claimed ts with
  | case1 => exact List.nil_sublist _
  | case2 t rest group hclaimed ih =>
      have hopen := (Bool.and_eq_true_iff.1 hclaimed).1
      exact ih.trans (Skips.group hopen (.refl _)).queryGroups_suffix.sublist
  | case3 t rest group _ hquery ih =>
      obtain ⟨hopen, hstarts⟩ := Bool.and_eq_true_iff.1 hquery
      rw [queryGroups_cons_of_startsQuery hopen List.not_mem_nil hstarts]
      exact ih.cons_cons _
  | case4 t rest group _ hquery ih =>
      rw [queryGroups, if_neg (by simp), if_neg hquery]
      exact ih

end Tsql
