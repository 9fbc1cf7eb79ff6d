import Tsql.Proofs.Token.Queries
import Tsql.Token.Slice

/-!
The pass that matches parentheses.

The pass with a stack finds for each opening parenthesis the end that `closeIndex?` finds
(`Matching.exists_runs`): behind the tokens that have been read, the group that is `depth` places
down the stack ends where a group with `depth` more groups open inside it would.
-/

namespace Tsql

/-- The index of the parenthesis that ends the group at an index of the tokens. -/
def closeAt? (ts : List Token) (i : Nat) : Option Nat :=
  if ts[i]?.any Token.isOpen then (closeIndex? 0 (ts.drop (i + 1))).map (· + (i + 1)) else none

theorem closeAt?_cons_succ (t : Token) (ts : List Token) (i : Nat) :
    closeAt? (t :: ts) (i + 1) = (closeAt? ts i).map (· + 1) := by
  unfold closeAt?
  rw [List.getElem?_cons_succ, List.drop_succ_cons]
  split
  · rw [Option.map_map]
    rfl
  · rfl

theorem closeAt?_cons_zero_of_isOpen {t : Token} (h : t.isOpen) (ts : List Token) :
    closeAt? (t :: ts) 0 = (closeIndex? 0 ts).map (· + 1) := by
  rw [closeAt?, if_pos (by simpa using h)]
  rfl

theorem closeAt?_cons_zero {t : Token} (h : t.isOpen = false) (ts : List Token) :
    closeAt? (t :: ts) 0 = none :=
  if_neg (by simp [h])

namespace Matching

/-- What the pass over the tokens `ts` behind the first `n` adds to what is known. -/
structure Runs (n : Nat) (ts : List Token) (m m' : Matching) : Prop where
  length_eq : m'.closes.length = m.closes.length
  /-- The groups that are open end where `closeIndex?` finds their end. -/
  open_eq : ∀ depth i, m.stack[depth]? = some i →
    m'.closes[i]? = some ((closeIndex? depth ts).map (· + n))
  old_eq : ∀ i < n, i ∉ m.stack → m'.closes[i]? = m.closes[i]?
  new_eq : ∀ i < ts.length, m'.closes[n + i]? = some ((closeAt? ts i).map (· + n))
  balanced_iff : m'.stray = false ∧ m'.stack = [] ↔
    m.stray = false ∧ ts.foldlM (fun depth t => Token.openAfter? t depth) m.stack.length = some 0

/-- What holds of the parentheses before the pass over the tokens `ts` behind the first `n`. -/
structure IsSound (n : Nat) (ts : List Token) (m : Matching) : Prop where
  length_eq : m.closes.length = n + ts.length
  stack_lt : ∀ i ∈ m.stack, i < n
  nodup : m.stack.Nodup
  open_eq : ∀ i ∈ m.stack, m.closes[i]? = some none
  new_eq : ∀ i, n ≤ i → i < m.closes.length → m.closes[i]? = some none

variable {n : Nat} {t : Token} {ts : List Token} {m m' : Matching}

theorem map_add_succ (o : Option Nat) : (o.map (· + 1)).map (· + n) = o.map (· + (n + 1)) := by
  rw [Option.map_map]
  exact congrArg (fun f => o.map f) (funext fun k => Nat.add_right_comm k 1 n)

namespace IsSound

theorem closes_first (hs : m.IsSound n (t :: ts)) : m.closes[n]? = some none :=
  hs.new_eq n (Nat.le_refl n) (by rw [hs.length_eq]; simp)

theorem notMem_stack (hs : m.IsSound n ts) : n ∉ m.stack :=
  fun hmem => Nat.lt_irrefl n (hs.stack_lt n hmem)

theorem opening (hs : m.IsSound n (t :: ts)) :
    IsSound (n + 1) ts { m with stack := n :: m.stack } where
  length_eq := by rw [hs.length_eq, List.length_cons]; omega
  stack_lt := List.forall_mem_cons.2
    ⟨Nat.lt_succ_self n, fun i hi => Nat.lt_succ_of_lt (hs.stack_lt i hi)⟩
  nodup := List.nodup_cons.2 ⟨hs.notMem_stack, hs.nodup⟩
  open_eq := List.forall_mem_cons.2 ⟨hs.closes_first, hs.open_eq⟩
  new_eq i hi hlt := hs.new_eq i (Nat.le_of_succ_le hi) hlt

theorem passing (hs : m.IsSound n (t :: ts)) (stray : Bool) :
    IsSound (n + 1) ts { m with stray := stray } where
  length_eq := by rw [hs.length_eq, List.length_cons]; omega
  stack_lt i hi := Nat.lt_succ_of_lt (hs.stack_lt i hi)
  nodup := hs.nodup
  open_eq := hs.open_eq
  new_eq i hi hlt := hs.new_eq i (Nat.le_of_succ_le hi) hlt

theorem closing (hs : m.IsSound n (t :: ts)) {first : Nat} {stack : List Nat}
    (hstack : m.stack = first :: stack) :
    IsSound (n + 1) ts { m with closes := m.closes.set first (some n), stack := stack } where
  length_eq := by
    rw [List.length_set, hs.length_eq, List.length_cons]
    omega
  stack_lt i hi := Nat.lt_succ_of_lt (hs.stack_lt i (hstack ▸ List.mem_cons_of_mem first hi))
  nodup := (List.nodup_cons.1 (hstack ▸ hs.nodup)).2
  open_eq i hi := by
    have hne : first ≠ i := fun heq =>
      (List.nodup_cons.1 (hstack ▸ hs.nodup)).1 (heq ▸ hi)
    exact (List.getElem?_set_ne hne).trans
      (hs.open_eq i (hstack ▸ List.mem_cons_of_mem first hi))
  new_eq i hi hlt := by
    have hfirst := hs.stack_lt first (hstack ▸ List.mem_cons_self)
    refine (List.getElem?_set_ne (by omega)).trans (hs.new_eq i (Nat.le_of_succ_le hi) ?_)
    simpa using hlt

end IsSound

namespace Runs

/-- The entries of the tokens, where the first one has its entry. -/
theorem new_cons {m₁ : Matching} (h : Runs (n + 1) ts m₁ m')
    (hfirst : m'.closes[n]? = some ((closeAt? (t :: ts) 0).map (· + n))) :
    ∀ i < (t :: ts).length, m'.closes[n + i]? = some ((closeAt? (t :: ts) i).map (· + n)) := by
  intro i hi
  cases i with
  | zero => exact hfirst
  | succ i =>
      have hnew := h.new_eq i (Nat.lt_of_succ_lt_succ hi)
      rw [closeAt?_cons_succ, map_add_succ, ← hnew, Nat.add_right_comm]
      rfl

theorem opening (ht : t.isOpen)
    (h : Runs (n + 1) ts { m with stack := n :: m.stack } m') : Runs n (t :: ts) m m' where
  length_eq := h.length_eq
  open_eq depth i hi := by
    have hend : ¬ (t.isClose ∧ depth = 0) := by simp [Token.isClose_eq_false ht]
    have hdepth : t.depthAfter depth = depth + 1 := by simp [Token.depthAfter, ht]
    rw [closeIndex?_cons, if_neg hend, hdepth, map_add_succ]
    exact h.open_eq (depth + 1) i hi
  old_eq i hi hstack := by
    refine h.old_eq i (Nat.lt_succ_of_lt hi) fun hmem => ?_
    rcases List.mem_cons.1 hmem with rfl | hmem
    · exact Nat.lt_irrefl _ hi
    · exact hstack hmem
  new_eq := by
    refine h.new_cons ?_
    rw [closeAt?_cons_zero_of_isOpen ht, map_add_succ]
    exact h.open_eq 0 n rfl
  balanced_iff := by
    rw [h.balanced_iff, List.foldlM_cons, Token.openAfter?, if_pos ht]
    rfl

theorem flat (ht : t.isOpen = false) (hc : t.isClose = false) (hs : m.IsSound n (t :: ts))
    (h : Runs (n + 1) ts m m') : Runs n (t :: ts) m m' where
  length_eq := h.length_eq
  open_eq depth i hi := by
    have hend : ¬ (t.isClose ∧ depth = 0) := by simp [hc]
    rw [closeIndex?_cons, if_neg hend, Token.depthAfter_of_flat ⟨ht, hc⟩, map_add_succ]
    exact h.open_eq depth i hi
  old_eq i hi hstack := h.old_eq i (Nat.lt_succ_of_lt hi) hstack
  new_eq := by
    refine h.new_cons ?_
    rw [closeAt?_cons_zero ht, h.old_eq n (Nat.lt_succ_self n) hs.notMem_stack]
    exact hs.closes_first
  balanced_iff := by
    rw [h.balanced_iff, List.foldlM_cons, Token.openAfter?, if_neg (by simp [ht]),
      if_neg (by simp [hc])]
    rfl

theorem straying (hc : t.isClose) (hstack : m.stack = []) (hs : m.IsSound n (t :: ts))
    (h : Runs (n + 1) ts { m with stray := true } m') : Runs n (t :: ts) m m' where
  length_eq := h.length_eq
  open_eq depth i hi := by simp [hstack] at hi
  old_eq i hi hmem := h.old_eq i (Nat.lt_succ_of_lt hi) hmem
  new_eq := by
    refine h.new_cons ?_
    rw [closeAt?_cons_zero (Token.isOpen_eq_false hc),
      h.old_eq n (Nat.lt_succ_self n) hs.notMem_stack]
    exact hs.closes_first
  balanced_iff := by
    rw [h.balanced_iff, List.foldlM_cons, Token.openAfter?,
      if_neg (by simp [Token.isOpen_eq_false hc]), if_pos hc, hstack]
    simp

theorem closing {first : Nat} {stack : List Nat} (hc : t.isClose) (hstack : m.stack = first :: stack)
    (hs : m.IsSound n (t :: ts))
    (h : Runs (n + 1) ts { m with closes := m.closes.set first (some n), stack := stack } m') :
    Runs n (t :: ts) m m' where
  length_eq := h.length_eq.trans (List.length_set ..)
  open_eq depth i hi := by
    rw [hstack] at hi
    have hopen := Token.isOpen_eq_false hc
    cases depth with
    | zero =>
        obtain rfl : first = i := Option.some.inj hi
        have hlt := hs.stack_lt first (hstack ▸ List.mem_cons_self)
        have hnot : first ∉ stack := (List.nodup_cons.1 (hstack ▸ hs.nodup)).1
        rw [closeIndex?_cons, if_pos ⟨hc, rfl⟩, h.old_eq first (Nat.lt_succ_of_lt hlt) hnot]
        have hlen : first < m.closes.length := by rw [hs.length_eq]; omega
        simp [hlen]
    | succ depth =>
        have hend : ¬ (t.isClose ∧ depth + 1 = 0) := by simp
        have hdepth : t.depthAfter (depth + 1) = depth := by simp [Token.depthAfter, hopen, hc]
        rw [closeIndex?_cons, if_neg hend, hdepth, map_add_succ]
        exact h.open_eq depth i hi
  old_eq i hi hmem := by
    rw [hstack] at hmem
    have hne : first ≠ i := fun heq => hmem (heq ▸ List.mem_cons_self)
    rw [h.old_eq i (Nat.lt_succ_of_lt hi) fun hin => hmem (List.mem_cons_of_mem _ hin)]
    exact List.getElem?_set_ne hne
  new_eq := by
    have hne : first ≠ n := Nat.ne_of_lt (hs.stack_lt first (hstack ▸ List.mem_cons_self))
    have hnot : n ∉ stack := fun hmem => hs.notMem_stack (hstack ▸ List.mem_cons_of_mem _ hmem)
    refine h.new_cons ?_
    rw [closeAt?_cons_zero (Token.isOpen_eq_false hc), h.old_eq n (Nat.lt_succ_self n) hnot]
    exact (List.getElem?_set_ne hne).trans hs.closes_first
  balanced_iff := by
    rw [h.balanced_iff, List.foldlM_cons, Token.openAfter?,
      if_neg (by simp [Token.isOpen_eq_false hc]), if_pos hc, hstack]
    rfl

end Runs

/-- The pass finds all matches. -/
theorem exists_runs (hs : m.IsSound n ts) :
    ∃ m', (ts.zipIdx n).foldlM (fun m (t, i) => Matching.step? m t i) m = some m' ∧
      Runs n ts m m' := by
  induction ts generalizing n m with
  | nil =>
      refine ⟨m, rfl, rfl, fun depth i hi => ?_, fun _ _ _ => rfl, fun i hi => ?_, ?_⟩
      · exact hs.open_eq i (List.mem_of_getElem? hi)
      · exact absurd hi (Nat.not_lt_zero i)
      · simp [List.foldlM_nil]
  | cons t ts ih =>
      rw [List.zipIdx_cons, List.foldlM_cons]
      by_cases hopen : t.isOpen
      · obtain ⟨m', hrun, hruns⟩ := ih hs.opening
        exact ⟨m', by simpa [step?, hopen] using hrun, hruns.opening hopen⟩
      replace hopen : t.isOpen = false := by simpa using hopen
      by_cases hclose : t.isClose
      · cases hstack : m.stack with
        | nil =>
            obtain ⟨m', hrun, hruns⟩ := ih (hs.passing true)
            exact ⟨m', by simpa [step?, hopen, hclose, hstack] using hrun,
              hruns.straying hclose hstack hs⟩
        | cons first stack =>
            have hlt : first < m.closes.length := by
              have := hs.stack_lt first (hstack ▸ List.mem_cons_self)
              rw [hs.length_eq]
              omega
            obtain ⟨m', hrun, hruns⟩ := ih (hs.closing hstack)
            exact ⟨m', by simpa [step?, hopen, hclose, hstack, hlt] using hrun,
              hruns.closing hclose hstack hs⟩
      · replace hclose : t.isClose = false := by simpa using hclose
        obtain ⟨m', hrun, hruns⟩ := ih (hs.passing m.stray)
        exact ⟨m', by simpa [step?, hopen, hclose] using hrun, hruns.flat hopen hclose hs⟩

end Matching

namespace TokenSlice

variable {ts : List Token}

/-- The slice of some tokens, as it is found. -/
def ofTokens (ts : List Token) : TokenSlice :=
  ⟨ts, (List.range ts.length).map (closeAt? ts), Tsql.isBalanced ts⟩

theorem ofTokens?_eq (ts : List Token) : ofTokens? ts = some (ofTokens ts) := by
  have hs : Matching.IsSound 0 ts { closes := List.replicate ts.length none } := by
    refine ⟨by simp, by simp, List.nodup_nil, by simp, fun i _ hi => ?_⟩
    rw [List.length_replicate] at hi
    simp [hi]
  obtain ⟨m, hrun, hruns⟩ := Matching.exists_runs hs
  have hcloses : m.closes = (List.range ts.length).map (closeAt? ts) := by
    refine List.ext_getElem? fun i => ?_
    by_cases hi : i < ts.length
    · have hnew := hruns.new_eq i hi
      rw [Nat.zero_add] at hnew
      rw [hnew]
      simp [hi]
    · have hlen : m.closes.length = ts.length := by simpa using hruns.length_eq
      rw [List.getElem?_eq_none (by omega), List.getElem?_eq_none (by simp; omega)]
  have hbalanced : (!m.stray && m.stack.isEmpty) = Tsql.isBalanced ts := by
    rw [Bool.eq_iff_iff]
    simpa [Tsql.isBalanced, openGroups?_eq] using hruns.balanced_iff
  rw [ofTokens?, ofTokens, hrun, ← hcloses, ← hbalanced]
  rfl

theorem closeOf?_ofTokens (ts : List Token) (i : Nat) :
    (ofTokens ts).closeOf? i = closeAt? ts i := by
  by_cases hi : i < ts.length
  · simp [closeOf?, ofTokens, hi]
  · have hnone : ts[i]? = none := List.getElem?_eq_none (Nat.le_of_not_lt hi)
    have hclose : (ofTokens ts).closes[i]? = none :=
      List.getElem?_eq_none (by simpa [ofTokens] using hi)
    rw [closeOf?, hclose, closeAt?, if_neg (by simp [hnone])]
    rfl

end TokenSlice

end Tsql
