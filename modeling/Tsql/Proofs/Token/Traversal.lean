import Tsql.Proofs.Statement.Step
import Tsql.Proofs.Token.Nesting
import Tsql.Proofs.Token.Parts

/-!
Traversals of tokens: those that step over whole groups and those that count the groups around.

Both come to the same tokens, those at which the counter is 0 (`TokenSlice.comesTo_iff`). The split
into statements and the cut at separators count in this way too.
-/

namespace Tsql

/-! ### Traversals -/

namespace TokenSlice

/-- A traversal that steps over whole groups comes to the index. -/
inductive ComesTo (s : TokenSlice) : Nat → Prop
  | first : ComesTo s 0
  | step {i : Nat} (behind : ComesTo s i) (h : s.tokens[i]?.any Token.isOpen = false) :
      ComesTo s (i + 1)
  | skip {i : Nat} (behind : ComesTo s i) (h : s.tokens[i]?.any Token.isOpen) :
      ComesTo s (s.skipGroup i)

variable {ts : List Token}

theorem skipGroup_of_closeAt? {i j : Nat} (h : closeAt? ts i = some j) :
    (ofTokens ts).skipGroup i = j + 1 := by
  rw [skipGroup, closeOf?_ofTokens, h]
  rfl

theorem skipGroup_of_none {i : Nat} (h : closeAt? ts i = none) :
    (ofTokens ts).skipGroup i = ts.length := by
  rw [skipGroup, closeOf?_ofTokens, h]
  rfl

theorem depthAfter_of_comesTo {k : Nat} (h : (ofTokens ts).ComesTo k) (hk : k < ts.length) :
    depthAfter 0 (ts.take k) = 0 := by
  induction h with
  | first => rfl
  | @step i behind hopen ih =>
      have hi : i < ts.length := Nat.lt_of_succ_lt hk
      replace hopen : ts[i].isOpen = false := by simpa [ofTokens, hi] using hopen
      rw [List.take_succ_eq_append_getElem hi, depthAfter_append, ih hi]
      simp [depthAfter, Token.depthAfter, hopen]
  | @skip i behind hopen ih =>
      replace hopen : ts[i]?.any Token.isOpen := hopen
      cases hclose : closeAt? ts i with
      | none =>
          rw [skipGroup_of_none hclose] at hk
          exact absurd hk (Nat.lt_irrefl _)
      | some j =>
          rw [skipGroup_of_closeAt? hclose] at hk ⊢
          have hij := (closeAt?_eq_some hclose).2
          rw [depthAfter_take_closeAt? hclose, ih (by omega)]

theorem comesTo_of_depthAfter {k : Nat} (hk : k < ts.length)
    (h : depthAfter 0 (ts.take k) = 0) {i : Nat} (hik : i ≤ k) (hcomes : (ofTokens ts).ComesTo i) :
    (ofTokens ts).ComesTo k := by
  by_cases heq : i = k
  · exact heq ▸ hcomes
  by_cases hopen : ts[i]?.any Token.isOpen
  · obtain ⟨j, hj, hjk⟩ := depthAfter_take_eq_zero_iff.1 h i (by omega) hopen
    have hij := (closeAt?_eq_some hj).2.1
    have hnext := hcomes.skip hopen
    rw [skipGroup_of_closeAt? hj] at hnext
    exact comesTo_of_depthAfter hk h hjk hnext
  · exact comesTo_of_depthAfter hk h (by omega) (hcomes.step (by simpa [ofTokens] using hopen))
termination_by k - i

end TokenSlice

namespace Split

variable {ts : List Token}

/-- The state behind the first `n` of the tokens. -/
def State.behind (s : State) : Nat → List Token → State
  | n + 1, t :: ts => (s.step t ts).2.behind n ts
  | _, _ => s

theorem depth_behind (s : State) (ts : List Token) (k : Nat) :
    (s.behind k ts).depth = depthAfter s.depth (ts.take k) := by
  induction ts generalizing s k with
  | nil => cases k <;> rfl
  | cons t ts ih =>
      cases k with
      | zero => rfl
      | succ k => rw [State.behind, ih, depth_step, List.take_succ_cons, depthAfter_cons]

end Split

/-! ### Separators -/

section

variable {separator : TokenKind}

/-- Parts of which the last goes on in the first of others. -/
def glued (before behind : List (List Token)) : List (List Token) :=
  before.dropLast ++ (before.getLast?.getD [] ++ behind.headD []) :: behind.tail

theorem glued_cons {before : List (List Token)} (h : before ≠ []) (part : List Token)
    (behind : List (List Token)) : glued (part :: before) behind = part :: glued before behind := by
  obtain ⟨b, bs, rfl⟩ := List.exists_cons_of_ne_nil h
  simp [glued]

theorem glued_cons_part (t : Token) (part : List Token) (parts behind : List (List Token)) :
    ∃ p ps, glued (part :: parts) behind = p :: ps ∧
      glued ((t :: part) :: parts) behind = (t :: p) :: ps := by
  cases parts with
  | nil => exact ⟨_, _, rfl, rfl⟩
  | cons p ps => exact ⟨_, _, rfl, rfl⟩

theorem splitTop_ne_nil (separator : TokenKind) (depth : Nat) (ts : List Token) :
    splitTop separator depth ts ≠ [] :=
  List.ne_nil_of_length_pos (length_splitTop_pos separator depth ts)

/-- Behind some tokens `splitTop` counts from the depth after them. -/
theorem splitTop_append_eq (hopen : separator ≠ .parenOpen) (hclose : separator ≠ .parenClose)
    (depth : Nat) (ts us : List Token) :
    splitTop separator depth (ts ++ us) =
      glued (splitTop separator depth ts) (splitTop separator (depthAfter depth ts) us) := by
  induction ts generalizing depth with
  | nil =>
      obtain ⟨part, parts, hparts⟩ :=
        List.exists_cons_of_ne_nil (splitTop_ne_nil separator depth us)
      simp [splitTop, glued, depthAfter, hparts]
  | cons t ts ih =>
      rw [List.cons_append, splitTop, splitTop, depthAfter_cons, ih, ih]
      split
      · next hcut =>
        have hflat : t.isOpen = false ∧ t.isClose = false := by
          simp [Token.isOpen, Token.isClose, hcut.1, hopen, hclose]
        rw [Token.depthAfter_of_flat hflat, hcut.2, glued_cons (splitTop_ne_nil separator 0 ts)]
      · obtain ⟨part, parts, hparts⟩ :=
          List.exists_cons_of_ne_nil (splitTop_ne_nil separator (t.depthAfter depth) ts)
        obtain ⟨p, ps, hglued, hcons⟩ := glued_cons_part t part parts
          (splitTop separator (depthAfter (t.depthAfter depth) ts) us)
        rw [hparts, hglued]
        exact hcons.symm

end

/-! ### Matches -/

/-- The matches of a slice are those of its tokens. -/
structure TokenSlice.IsExact (s : TokenSlice) (ts : List Token) : Prop where
  tokens_eq : s.tokens = ts
  /-- A group ends at the first index up to which as many parentheses close as open. -/
  closeOf?_iff : ∀ i j, s.closeOf? i = some j ↔ ts[i]?.any Token.isOpen ∧ i < j ∧ j < ts.length ∧
    IsEven ts i j ∧ ∀ l, i < l → l < j → ¬ IsEven ts i l
  isBalanced_iff : s.isBalanced ↔
    (∀ us, us <+: ts → us.countP Token.isClose ≤ us.countP Token.isOpen) ∧
      ts.countP Token.isClose = ts.countP Token.isOpen
  /-- Groups are nested or apart. -/
  nested : ∀ i i' j j', s.closeOf? i = some j → s.closeOf? i' = some j' → i < i' →
    j < i' ∨ j' < j
  /-- The counter is 0 at a token if no group around it begins before it. -/
  depth_iff : ∀ k t, ts[k]? = some t → t.isOpen = false → t.isClose = false →
    (depthAfter 0 (ts.take k) = 0 ↔
      ¬ ∃ i < k, ts[i]?.any Token.isOpen ∧ ∀ j, s.closeOf? i = some j → k < j)
  comesTo_iff : ∀ k < ts.length, s.ComesTo k ↔ depthAfter 0 (ts.take k) = 0
  /-- The counter is that of the split into statements and that of the cut at separators. -/
  split_depth : ∀ k, (({} : Split.State).behind k ts).depth = depthAfter 0 (ts.take k)
  splitTop_eq : ∀ separator k, separator ≠ .parenOpen → separator ≠ .parenClose →
    splitTop separator 0 ts = glued (splitTop separator 0 (ts.take k))
      (splitTop separator (depthAfter 0 (ts.take k)) (ts.drop k))
  /-- The group is what `Group.after` finds. -/
  group_eq : ∀ i, ts[i]?.any Token.isOpen → Group.after (ts.drop (i + 1)) =
    ⟨(ts.take ((s.closeOf? i).getD ts.length)).drop (i + 1), (s.closeOf? i).bind (ts[·]?),
      ts.drop (s.skipGroup i)⟩

namespace TokenSlice

variable {ts : List Token}

theorem depthAfter_take_iff {k : Nat} {t : Token} (ht : ts[k]? = some t) (hclose : t.isClose = false) :
    depthAfter 0 (ts.take k) = 0 ↔
      ¬ ∃ i < k, ts[i]?.any Token.isOpen ∧ ∀ j, closeAt? ts i = some j → k < j := by
  rw [depthAfter_take_eq_zero_iff]
  constructor
  · rintro h ⟨i, hi, hopen, hend⟩
    obtain ⟨j, hj, hjk⟩ := h i hi hopen
    exact Nat.lt_asymm hjk (hend j hj)
  · intro h i hi hopen
    refine Classical.not_not.1 fun hnot => h ⟨i, hi, hopen, fun j hj => ?_⟩
    have hne : k ≠ j := by
      rintro rfl
      obtain ⟨c, hc, hc'⟩ := isClose_of_closeAt? hj
      obtain rfl := Option.some.inj (ht.symm.trans hc)
      simp [hclose] at hc'
    have hle : k ≤ j := Nat.le_of_not_lt fun hlt => hnot ⟨j, hj, hlt⟩
    exact Nat.lt_of_le_of_ne hle hne

theorem after_drop {i : Nat} (hopen : ts[i]?.any Token.isOpen) :
    Group.after (ts.drop (i + 1)) =
      ⟨(ts.take ((closeAt? ts i).getD ts.length)).drop (i + 1), (closeAt? ts i).bind (ts[·]?),
        ts.drop ((ofTokens ts).skipGroup i)⟩ := by
  rw [Group.after]
  cases hclose : closeIndex? 0 (ts.drop (i + 1)) with
  | none =>
      have hnone : closeAt? ts i = none := by rw [closeAt?, if_pos hopen, hclose]; rfl
      simp [hnone, skipGroup_of_none hnone]
  | some k =>
      have hsome : closeAt? ts i = some (k + (i + 1)) := by
        rw [closeAt?, if_pos hopen, hclose]
        rfl
      have hrest : i + 1 + (k + 1) = k + (i + 1) + 1 := by omega
      simp only [hsome, skipGroup_of_closeAt? hsome, Option.getD_some, Option.bind_some,
        List.drop_take, Nat.add_sub_cancel, List.getElem?_drop, List.drop_drop, hrest,
        Nat.add_comm (i + 1) k]

theorem isExact_ofTokens (ts : List Token) : (ofTokens ts).IsExact ts where
  tokens_eq := rfl
  closeOf?_iff i j := by rw [closeOf?_ofTokens, closeAt?_eq_some_iff]
  isBalanced_iff := Tsql.isBalanced_iff
  nested i i' j j' := by
    rw [closeOf?_ofTokens, closeOf?_ofTokens]
    exact closeAt?_nested
  depth_iff k t ht _ hclose := by
    simp only [closeOf?_ofTokens]
    exact depthAfter_take_iff ht hclose
  comesTo_iff k hk := ⟨fun h => depthAfter_of_comesTo h hk,
    fun h => comesTo_of_depthAfter hk h (Nat.zero_le k) .first⟩
  split_depth k := Split.depth_behind {} ts k
  splitTop_eq separator k hopen hclose := by
    rw [← splitTop_append_eq hopen hclose, List.take_append_drop]
  group_eq i hopen := by
    rw [closeOf?_ofTokens]
    exact after_drop hopen

end TokenSlice

/-- **Matches are exact.** The parentheses of any tokens are matched without fail, and the matches
agree with counting. -/
theorem exists_isExact (ts : List Token) :
    ∃ s, TokenSlice.ofTokens? ts = some s ∧ s.IsExact ts :=
  ⟨_, TokenSlice.ofTokens?_eq ts, TokenSlice.isExact_ofTokens ts⟩

end Tsql
