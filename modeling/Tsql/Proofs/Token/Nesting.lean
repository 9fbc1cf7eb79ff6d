import Mathlib.Data.List.Infix
import Tsql.Proofs.Token.Matching

/-!
Where groups end, and how they lie to each other.

A group ends where for the first time as many parentheses have been closed as opened
(`closeAt?_eq_some_iff`). Of two groups one is inside the other or both are apart
(`closeAt?_nested`), and the counter that a stray parenthesis leaves at 0 is 0 where no group is
around (`depthAfter_take_eq_zero_iff`).
-/

namespace Tsql

/-! ### Counting -/

/-- Among the tokens from index `i` to index `j` as many parentheses close as open. -/
def IsEven (ts : List Token) (i j : Nat) : Prop :=
  ((ts.drop i).take (j + 1 - i)).countP Token.isClose =
    ((ts.drop i).take (j + 1 - i)).countP Token.isOpen

section

variable {depth depth' k : Nat} {t : Token} {ts : List Token}

/-- A token that ends no group outside moves from the counts to the depth. -/
theorem countP_cons_add (h : ¬ (t.isClose ∧ depth = 0)) (us : List Token) :
    (t :: us).countP Token.isClose + t.depthAfter depth + us.countP Token.isOpen =
      us.countP Token.isClose + depth + (t :: us).countP Token.isOpen := by
  rw [List.countP_cons, List.countP_cons, Token.depthAfter]
  by_cases hopen : t.isOpen
  · rw [if_pos hopen, if_pos hopen, if_neg (by simp [Token.isClose_eq_false hopen])]
    omega
  · rw [if_neg hopen, if_neg hopen]
    by_cases hclose : t.isClose
    · have hdepth : depth ≠ 0 := fun hzero => h ⟨hclose, hzero⟩
      rw [if_pos hclose, if_pos hclose]
      omega
    · rw [if_neg hclose, if_neg hclose]
      omega

/-- A group ends where for the first time one parenthesis more has been closed than opened. -/
theorem closeIndex?_eq_some_iff :
    closeIndex? depth ts = some k ↔ k < ts.length ∧
      (ts.take (k + 1)).countP Token.isClose = depth + 1 + (ts.take (k + 1)).countP Token.isOpen ∧
      ∀ l < k, (ts.take (l + 1)).countP Token.isClose ≠
        depth + 1 + (ts.take (l + 1)).countP Token.isOpen := by
  induction ts generalizing depth k with
  | nil => simp [closeIndex?]
  | cons t ts ih =>
      rw [closeIndex?_cons]
      split
      · next hend =>
        obtain ⟨hclose, rfl⟩ := hend
        have hfirst : ((t :: ts).take (0 + 1)).countP Token.isClose =
            0 + 1 + ((t :: ts).take (0 + 1)).countP Token.isOpen := by
          simp [hclose, Token.isOpen_eq_false hclose]
        constructor
        · rintro h
          obtain rfl := Option.some.inj h
          exact ⟨Nat.succ_pos _, hfirst, fun l hl => absurd hl (Nat.not_lt_zero l)⟩
        · rintro ⟨-, -, hleast⟩
          refine congrArg some (Nat.eq_zero_of_not_pos fun hpos => ?_).symm
          exact hleast 0 hpos hfirst
      · next hend =>
        have hcount (us : List Token) :
            (t :: us).countP Token.isClose = depth + 1 + (t :: us).countP Token.isOpen ↔
              us.countP Token.isClose = t.depthAfter depth + 1 + us.countP Token.isOpen := by
          have := countP_cons_add hend us
          omega
        have hnil : ¬ ([] : List Token).countP Token.isClose =
            t.depthAfter depth + 1 + ([] : List Token).countP Token.isOpen := by simp
        cases k with
        | zero => simp only [List.take_succ_cons, List.take_zero, hcount, hnil]; simp
        | succ k =>
            simp only [Option.map_eq_some_iff, Nat.add_right_cancel_iff, exists_eq_right, ih,
              Nat.forall_lt_succ_left, List.length_cons, List.take_succ_cons, List.take_zero,
              hcount, hnil, ne_eq, Nat.add_lt_add_iff_right, not_false_eq_true, true_and]

/-- The groups that are open, unless more have been closed than opened somewhere. -/
theorem openGroups_eq_some_iff :
    ts.foldlM (fun depth t => Token.openAfter? t depth) depth = some depth' ↔
      (∀ us, us <+: ts → us.countP Token.isClose ≤ depth + us.countP Token.isOpen) ∧
        depth' + ts.countP Token.isClose = depth + ts.countP Token.isOpen := by
  induction ts generalizing depth with
  | nil => simp [eq_comm]
  | cons t ts ih =>
      rw [List.foldlM_cons]
      by_cases hend : t.isClose ∧ depth = 0
      · obtain ⟨hclose, rfl⟩ := hend
        have hopen := Token.isOpen_eq_false hclose
        have hstray : t.openAfter? 0 = none := by simp [Token.openAfter?, hopen, hclose]
        rw [hstray]
        refine iff_of_false (by simp) fun h => ?_
        have hprefix := h.1 [t] (List.prefix_append [t] ts)
        simp [hopen, hclose] at hprefix
      · have hafter : t.openAfter? depth = some (t.depthAfter depth) := by
          rw [Token.openAfter?, Token.depthAfter]
          split
          · rfl
          · split
            · next hclose => exact if_neg fun hzero => hend ⟨hclose, hzero⟩
            · rfl
        have hcount := countP_cons_add hend
        rw [hafter]
        refine Iff.trans ih (and_congr ?_ ?_)
        · constructor
          · intro h us hus
            rcases List.prefix_cons_iff.1 hus with rfl | ⟨us', rfl, hus'⟩
            · simp
            · have := h us' hus'
              have := hcount us'
              omega
          · intro h us hus
            have := h (t :: us) (List.cons_prefix_cons.2 ⟨rfl, hus⟩)
            have := hcount us
            omega
        · have := hcount ts
          omega

/-- Tokens are balanced if nowhere more parentheses have been closed than opened and all have been
closed in the end. -/
theorem isBalanced_iff : isBalanced ts ↔
    (∀ us, us <+: ts → us.countP Token.isClose ≤ us.countP Token.isOpen) ∧
      ts.countP Token.isClose = ts.countP Token.isOpen := by
  rw [isBalanced, openGroups?_eq, beq_iff_eq, openGroups_eq_some_iff]
  simp

theorem isEven_iff {i : Nat} (ht : ts[i]? = some t) (hopen : t.isOpen) :
    IsEven ts i (k + (i + 1)) ↔ ((ts.drop (i + 1)).take (k + 1)).countP Token.isClose =
      0 + 1 + ((ts.drop (i + 1)).take (k + 1)).countP Token.isOpen := by
  have hdrop : ts.drop i = t :: ts.drop (i + 1) := by
    obtain ⟨hi, rfl⟩ := List.getElem?_eq_some_iff.1 ht
    exact List.drop_eq_getElem_cons hi
  have hlen : k + (i + 1) + 1 - i = k + 1 + 1 := by omega
  rw [IsEven, hdrop, hlen, List.take_succ_cons, List.countP_cons, List.countP_cons, if_pos hopen,
    if_neg (by simp [Token.isClose_eq_false hopen])]
  omega

/-- The group at an index ends at the first index behind it up to which the parentheses are even. -/
theorem closeAt?_eq_some_iff {i j : Nat} :
    closeAt? ts i = some j ↔ ts[i]?.any Token.isOpen ∧ i < j ∧ j < ts.length ∧ IsEven ts i j ∧
      ∀ l, i < l → l < j → ¬ IsEven ts i l := by
  cases ht : ts[i]? with
  | none => simp [closeAt?, ht]
  | some t =>
      by_cases hopen : t.isOpen
      · have hany : (some t).any Token.isOpen := hopen
        rw [closeAt?, ht, if_pos hany, Option.map_eq_some_iff]
        have hlen : (ts.drop (i + 1)).length + (i + 1) = ts.length := by
          have hi := (List.getElem?_eq_some_iff.1 ht).1
          rw [List.length_drop]
          omega
        constructor
        · rintro ⟨k, hk, rfl⟩
          obtain ⟨hlt, heven, hleast⟩ := closeIndex?_eq_some_iff.1 hk
          refine ⟨hopen, by omega, by omega, (isEven_iff ht hopen).2 heven, fun l hil hlk => ?_⟩
          obtain ⟨l, rfl⟩ := Nat.exists_eq_add_of_le' (Nat.succ_le_of_lt hil)
          exact fun hl => hleast l (by omega) ((isEven_iff ht hopen).1 hl)
        · rintro ⟨-, hij, hlt, heven, hleast⟩
          obtain ⟨k, rfl⟩ := Nat.exists_eq_add_of_le' (Nat.succ_le_of_lt hij)
          refine ⟨k, closeIndex?_eq_some_iff.2 ⟨by omega, (isEven_iff ht hopen).1 heven,
            fun l hl heq => ?_⟩, rfl⟩
          exact hleast (l + (i + 1)) (by omega) (by omega) ((isEven_iff ht hopen).2 heq)
      · simp [closeAt?, ht, hopen]

end

/-! ### Depth -/

section

variable {depth k : Nat} {ts : List Token}

/-- A group ends among the first tokens of a list where it ends in the list. -/
theorem closeIndex?_take_eq_some_iff {n : Nat} :
    closeIndex? depth (ts.take n) = some k ↔ closeIndex? depth ts = some k ∧ k < n := by
  constructor
  · intro h
    have happend := closeIndex?_append h (ts.drop n)
    rw [List.take_append_drop] at happend
    exact ⟨happend, Nat.lt_of_lt_of_le (closeIndex?_lt h) (List.length_take_le n ts)⟩
  · rintro ⟨h, hk⟩
    obtain ⟨hlt, heven, hleast⟩ := closeIndex?_eq_some_iff.1 h
    have htake : ∀ l ≤ k, (ts.take n).take (l + 1) = ts.take (l + 1) := fun l hl => by
      rw [List.take_take, Nat.min_eq_left (by omega)]
    refine closeIndex?_eq_some_iff.2 ⟨by rw [List.length_take]; omega, ?_, fun l hl => ?_⟩
    · rwa [htake k (Nat.le_refl k)]
    · rw [htake l (Nat.le_of_lt hl)]
      exact hleast l hl

theorem closeAt?_eq_some {i j : Nat} (h : closeAt? ts i = some j) :
    ts[i]?.any Token.isOpen ∧ i < j ∧ j < ts.length := by
  obtain ⟨hopen, hij, hlt, -⟩ := closeAt?_eq_some_iff.1 h
  exact ⟨hopen, hij, hlt⟩

theorem closeAt?_take_eq_some_iff {i j : Nat} :
    closeAt? (ts.take k) i = some j ↔ closeAt? ts i = some j ∧ j < k := by
  by_cases hi : i < k
  · rw [closeAt?, closeAt?, List.getElem?_take_of_lt hi, List.drop_take]
    split
    · simp only [Option.map_eq_some_iff, closeIndex?_take_eq_some_iff]
      constructor
      · rintro ⟨l, ⟨hl, hlt⟩, rfl⟩
        exact ⟨⟨l, hl, rfl⟩, by omega⟩
      · rintro ⟨⟨l, hl, rfl⟩, hlt⟩
        exact ⟨l, ⟨hl, by omega⟩, rfl⟩
    · simp
  · have hnone : (ts.take k)[i]? = none := List.getElem?_take_eq_none (Nat.le_of_not_lt hi)
    rw [closeAt?, if_neg (by simp [hnone])]
    refine iff_of_false (by simp) ?_
    rintro ⟨h, hj⟩
    exact hi (Nat.lt_trans (closeAt?_eq_some h).2.1 hj)

theorem closeAt?_append_right (us ts : List Token) (i : Nat) :
    closeAt? (us ++ ts) (us.length + i) = (closeAt? ts i).map (· + us.length) := by
  induction us with
  | nil => simp
  | cons u us ih =>
      rw [List.cons_append, List.length_cons, Nat.add_right_comm, closeAt?_cons_succ, ih,
        Option.map_map]
      rfl

/-- Each group of the tokens has an end. -/
def AllClosed (ts : List Token) : Prop :=
  ∀ i, ts[i]?.any Token.isOpen → (closeAt? ts i).isSome

theorem AllClosed.right {us ts : List Token} (h : AllClosed (us ++ ts)) : AllClosed ts := by
  intro i hi
  have hwhole := h (us.length + i) (by rwa [List.getElem?_append_right (by omega),
    Nat.add_sub_cancel_left])
  rwa [closeAt?_append_right, Option.isSome_map] at hwhole

theorem AllClosed.depthAfter {ts : List Token} (h : AllClosed ts) : depthAfter 0 ts = 0 := by
  match ts with
  | [] => rfl
  | t :: rest =>
    by_cases hopen : t.isOpen
    · -- the group of the first token, then what is behind it
      have hsome := h 0 (by simpa using hopen)
      rw [closeAt?_cons_zero_of_isOpen hopen, Option.isSome_map] at hsome
      obtain ⟨k, hk⟩ := Option.isSome_iff_exists.1 hsome
      obtain ⟨c, hc, hclose⟩ := isClose_of_closeIndex? hk
      have hsplit : t :: rest = (t :: (rest.take k ++ [c])) ++ rest.drop (k + 1) := by
        obtain ⟨hlt, rfl⟩ := List.getElem?_eq_some_iff.1 hc
        simp
      have hinner : Tsql.depthAfter 1 (rest.take k) = 1 := depthAfter_take_closeIndex? hk 1
      have hgroup : Tsql.depthAfter 0 (t :: (rest.take k ++ [c])) = 0 := by
        rw [depthAfter_cons_of_isOpen hopen, depthAfter_append, hinner]
        simp [Tsql.depthAfter, Token.depthAfter, hclose, Token.isOpen_eq_false hclose]
      rw [hsplit] at h ⊢
      rw [depthAfter_append, hgroup]
      exact h.right.depthAfter
    · have hdepth : t.depthAfter 0 = 0 := by simp [Token.depthAfter, hopen]
      rw [depthAfter_cons, hdepth]
      have hsplit : AllClosed ([t] ++ rest) := h
      exact hsplit.right.depthAfter
termination_by ts.length
decreasing_by
  · simp only [List.length_drop, List.length_cons]
    omega
  · simp

/-- Tokens leave nothing open if each group among them ends among them. -/
theorem depthAfter_eq_zero_iff : depthAfter 0 ts = 0 ↔ AllClosed ts := by
  refine ⟨fun h i hi => ?_, AllClosed.depthAfter⟩
  obtain ⟨t, ht, hopen⟩ := (Option.any_eq_true _ _).1 hi
  obtain ⟨hlt, rfl⟩ := List.getElem?_eq_some_iff.1 ht
  rw [← List.take_append_drop i ts, List.drop_eq_getElem_cons hlt, depthAfter_append,
    depthAfter_cons_of_isOpen hopen] at h
  have hone : depthAfter (0 + 1) (ts.drop (i + 1)) = 0 :=
    Nat.eq_zero_of_le_zero (h ▸ depthAfter_mono (Nat.succ_le_succ (Nat.zero_le _)) _)
  obtain ⟨k, hk, -⟩ := exists_closeIndex? hone
  simp [closeAt?, hi, hk]

theorem closeAt?_drop {n : Nat} (hn : n ≤ ts.length) (i : Nat) :
    closeAt? ts (n + i) = (closeAt? (ts.drop n) i).map (· + n) := by
  have happend := closeAt?_append_right (ts.take n) (ts.drop n) i
  rwa [List.take_append_drop, List.length_take, Nat.min_eq_left hn] at happend

theorem isClose_of_closeAt? {i j : Nat} (h : closeAt? ts i = some j) :
    ∃ t, ts[j]? = some t ∧ t.isClose := by
  rw [closeAt?] at h
  split at h
  · obtain ⟨k, hk, rfl⟩ := Option.map_eq_some_iff.1 h
    obtain ⟨t, ht, hclose⟩ := isClose_of_closeIndex? hk
    rw [List.getElem?_drop, Nat.add_comm] at ht
    exact ⟨t, ht, hclose⟩
  · contradiction

/-- What is inside a group leaves nothing open. -/
theorem depthAfter_inside {i j : Nat} (h : closeAt? ts i = some j) :
    depthAfter 0 ((ts.drop (i + 1)).take (j - (i + 1))) = 0 := by
  rw [closeAt?] at h
  split at h
  · obtain ⟨k, hk, rfl⟩ := Option.map_eq_some_iff.1 h
    rw [Nat.add_sub_cancel]
    exact depthAfter_take_closeIndex? hk 0
  · contradiction

/-- A group leaves open what is open in front of it. -/
theorem depthAfter_take_closeAt? {i j : Nat} (h : closeAt? ts i = some j) :
    depthAfter 0 (ts.take (j + 1)) = depthAfter 0 (ts.take i) := by
  obtain ⟨hany, -, -⟩ := closeAt?_eq_some h
  obtain ⟨t, ht, hopen⟩ := (Option.any_eq_true _ _).1 hany
  rw [closeAt?, if_pos hany] at h
  obtain ⟨k, hk, rfl⟩ := Option.map_eq_some_iff.1 h
  obtain ⟨c, hc, hclose⟩ := isClose_of_closeIndex? hk
  have hsplit : ts.take (k + (i + 1) + 1) = ts.take i ++ t :: ((ts.drop (i + 1)).take k ++ [c]) := by
    have hdrop : ts.drop i = t :: ts.drop (i + 1) := by
      obtain ⟨hi, rfl⟩ := List.getElem?_eq_some_iff.1 ht
      exact List.drop_eq_getElem_cons hi
    have hlen : k + (i + 1) + 1 = i + (k + 1 + 1) := by omega
    rw [hlen, List.take_add, hdrop, List.take_succ_cons, List.take_add_one, hc]
    rfl
  have hinner := depthAfter_take_closeIndex? hk (depthAfter 0 (ts.take i) + 1)
  rw [Nat.zero_add] at hinner
  rw [hsplit, depthAfter_append, depthAfter_cons_of_isOpen hopen, depthAfter_append, hinner]
  simp [depthAfter, Token.depthAfter, hclose, Token.isOpen_eq_false hclose]

/-- The group that begins at an index inside another group ends inside it. -/
theorem exists_closeAt?_inside {i i' j : Nat} (h : closeAt? ts i = some j) (hi : i < i') (hj : i' < j)
    (hopen : ts[i']?.any Token.isOpen) : ∃ j', closeAt? ts i' = some j' ∧ j' < j := by
  obtain ⟨l, rfl⟩ := Nat.exists_eq_add_of_le (Nat.succ_le_of_lt hi)
  have hclosed := depthAfter_eq_zero_iff.1 (depthAfter_inside h)
  have hn : i + 1 ≤ ts.length := by
    have := (closeAt?_eq_some h).2
    omega
  obtain ⟨e, he⟩ := Option.isSome_iff_exists.1 (hclosed l (by
    rwa [List.getElem?_take_of_lt (by omega), List.getElem?_drop]))
  obtain ⟨he, hlt⟩ := closeAt?_take_eq_some_iff.1 he
  exact ⟨e + (i + 1), by rw [Nat.succ_eq_add_one, closeAt?_drop hn, he]; rfl, by omega⟩

/-- Of two groups the one that begins later begins behind the other or ends inside it. -/
theorem closeAt?_nested {i i' j j' : Nat} (h : closeAt? ts i = some j)
    (h' : closeAt? ts i' = some j') (hlt : i < i') : j < i' ∨ j' < j := by
  have hopen := (closeAt?_eq_some h').1
  rcases Nat.lt_trichotomy j i' with hbehind | rfl | hinside
  · exact .inl hbehind
  · obtain ⟨t, ht, hclose⟩ := isClose_of_closeAt? h
    rw [ht, Option.any_some, Token.isOpen_eq_false hclose] at hopen
    contradiction
  · obtain ⟨e, he, hend⟩ := exists_closeAt?_inside h hlt hinside hopen
    obtain rfl := Option.some.inj (he.symm.trans h')
    exact .inr hend

/-- No group is open in front of a token if each that begins before it ends before it. -/
theorem depthAfter_take_eq_zero_iff :
    depthAfter 0 (ts.take k) = 0 ↔
      ∀ i < k, ts[i]?.any Token.isOpen → ∃ j, closeAt? ts i = some j ∧ j < k := by
  rw [depthAfter_eq_zero_iff]
  constructor
  · intro h i hi hopen
    obtain ⟨j, hj⟩ := Option.isSome_iff_exists.1 (h i (by rwa [List.getElem?_take_of_lt hi]))
    exact ⟨j, closeAt?_take_eq_some_iff.1 hj⟩
  · intro h i hopen
    have hi : i < k := Nat.lt_of_not_le fun hk => by
      simp [List.getElem?_take_eq_none hk] at hopen
    rw [List.getElem?_take_of_lt hi] at hopen
    obtain ⟨j, hj⟩ := h i hi hopen
    rw [closeAt?_take_eq_some_iff.2 hj]
    rfl

end

end Tsql
