import Tsql.Indexed.Basic
import Tsql.Proofs.Token.Traversal

/-!
Parts of tokens between indices.

A part may be cut at an index if each group that begins in it ends in it (`Cut`). A group in such a
part is what `Group.after` finds in the list of its tokens (`Cut.after`), and its own tokens are
such a part again (`Cut.inner`).
-/

namespace Tsql

/-! ### Parts of lists -/

section

variable {α : Type} {xs : List α} {i j k : Nat} {x : α}

theorem length_between (xs : List α) (i j : Nat) :
    (between xs i j).length = min j xs.length - i := by
  rw [between, List.length_drop, List.length_take]

theorem between_of_le (h : j ≤ i) : between xs i j = [] :=
  List.drop_eq_nil_of_le (Nat.le_trans (List.length_take_le j xs) h)

theorem between_cons (hx : xs[i]? = some x) (h : i < j) :
    between xs i j = x :: between xs (i + 1) j := by
  obtain ⟨hi, rfl⟩ := List.getElem?_eq_some_iff.1 hx
  have hlt : i < (xs.take j).length := by rw [List.length_take]; omega
  rw [between, List.drop_eq_getElem_cons hlt, List.getElem_take]
  rfl

theorem between_length (xs : List α) (i : Nat) : between xs i xs.length = xs.drop i := by
  rw [between, List.take_length]

theorem getElem?_between_of_lt (h : i + k < j) : (between xs i j)[k]? = xs[i + k]? := by
  rw [between, List.getElem?_drop, List.getElem?_take_of_lt h]

theorem drop_between (xs : List α) (i j n : Nat) :
    (between xs i j).drop n = between xs (i + n) j := by
  rw [between, between, List.drop_drop]

theorem take_between (h : i + k ≤ j) : (between xs i j).take k = between xs i (i + k) := by
  rw [between, between, List.take_drop, List.take_take, Nat.min_eq_left h]

theorem between_append (hij : i ≤ j) (hjk : j ≤ k) :
    between xs i j ++ between xs j k = between xs i k := by
  obtain ⟨n, rfl⟩ := Nat.exists_eq_add_of_le hij
  rw [← take_between hjk, ← drop_between, List.take_append_drop]

theorem between?_eq (hij : i ≤ j) (hj : j ≤ xs.length) :
    between? xs i j = some (between xs i j) :=
  if_pos ⟨hij, hj⟩

theorem difference?_eq (h : j ≤ i) : difference? i j = some (i - j) :=
  if_pos h

theorem exists_getElem? (h : i < xs.length) : ∃ x, xs[i]? = some x :=
  ⟨xs[i], List.getElem?_eq_getElem h⟩

theorem mapM_eq_some {β : Type} {f : α → Option β} {g : α → β} (h : ∀ x ∈ xs, f x = some (g x)) :
    xs.mapM f = some (xs.map g) := by
  induction xs with
  | nil => rfl
  | cons x xs ih =>
      obtain ⟨hx, hxs⟩ := List.forall_mem_cons.1 h
      simp [List.mapM_cons, hx, ih hxs]

end

section

variable {ts : List Token} {i j k : Nat} {first last : Token}

theorem Range.ofTokens_between (hfirst : ts[i]? = some first) (hlast : ts[j - 1]? = some last)
    (h : i < j) : Range.ofTokens (between ts i j) = ⟨first.start, last.stop⟩ := by
  have hlt := (List.getElem?_eq_some_iff.1 hlast).1
  have hlen : (between ts i j).length = j - i := by rw [length_between]; omega
  have hget : (between ts i j).getLast? = some last := by
    rw [List.getLast?_eq_getElem?, hlen, getElem?_between_of_lt (by omega), ← hlast]
    exact congrArg (ts[·]?) (by omega)
  rw [between_cons hfirst h] at hget ⊢
  simp [Range.ofTokens, hget]

theorem TokenSlice.before?_eq (h : 0 < j) : (ofTokens ts).before? j = ts[j - 1]? := by
  rw [before?, difference?_eq h]
  rfl

theorem TokenSlice.before?_succ (ts : List Token) (j : Nat) : (ofTokens ts).before? (j + 1) = ts[j]? :=
  before?_eq (Nat.succ_pos j)

theorem TokenSlice.any_of_before? {p : Token → Bool} (h : ((ofTokens ts).before? j).any p) :
    ts[j - 1]?.any p := by
  cases j with
  | zero => simp [before?, difference?] at h
  | succ j => rwa [before?_succ] at h

end

/-! ### Parts of tokens -/

namespace Indexed

theorem startsQuery?_eq (ts : List Token) : startsQuery? ts = some (startsQuery ts) := by
  induction ts with
  | nil => rw [startsQuery?]; rfl
  | cons t ts ih =>
      have hrest : between? (t :: ts) 1 (t :: ts).length = some ts := by
        rw [between?_eq (by simp) (Nat.le_refl _), between_length]
        rfl
      rw [startsQuery?, startsQuery]
      by_cases hword : t.isAnyKeyword [.SELECT, .WITH]
      · simp [hword]
      · by_cases hopen : t.isOpen
        · rw [if_neg hword, if_pos hopen]
          split
          · next inner heq =>
            obtain rfl := Option.some.inj (hrest.symm.trans heq)
            simp [ih, hword, hopen]
          · next heq => exact absurd (hrest.symm.trans heq) (by simp)
        · simp [hword, hopen]

theorem splitFrom?_eq {separator : TokenKind} {ts : List Token} {first depth i : Nat}
    (hfirst : first ≤ i) (hi : i ≤ ts.length) {part : List Token} {parts : List (List Token)}
    (h : splitTop separator depth (ts.drop i) = part :: parts) :
    splitFrom? separator ts first depth i (ts.drop i) =
      some ((between ts first i ++ part) :: parts) := by
  rcases Nat.lt_or_ge i ts.length with hlt | hge
  · rw [List.drop_eq_getElem_cons hlt] at h ⊢
    rw [splitFrom?]
    rw [splitTop] at h
    split
    · next hcut =>
      rw [if_pos hcut] at h
      obtain ⟨rfl, rfl⟩ := List.cons.inj h
      obtain ⟨p, ps, hps⟩ := List.exists_cons_of_ne_nil (splitTop_ne_nil separator 0 (ts.drop (i + 1)))
      rw [hcut.2, between?_eq hfirst hi, splitFrom?_eq (Nat.le_refl _) hlt hps, hps,
        between_of_le (Nat.le_refl _)]
      simp
    · next hcut =>
      rw [if_neg hcut] at h
      obtain ⟨p, ps, hps⟩ := List.exists_cons_of_ne_nil
        (splitTop_ne_nil separator (ts[i].depthAfter depth) (ts.drop (i + 1)))
      rw [hps] at h
      obtain ⟨rfl, rfl⟩ := List.cons.inj h
      rw [splitFrom?_eq (Nat.le_succ_of_le hfirst) hlt hps,
        ← between_append hfirst (Nat.le_succ i),
        between_cons (List.getElem?_eq_getElem hlt) (Nat.lt_succ_self i),
        between_of_le (Nat.le_refl (i + 1)), List.append_assoc]
      rfl
  · obtain rfl : i = ts.length := Nat.le_antisymm hi hge
    rw [List.drop_length] at h ⊢
    rw [splitTop] at h
    obtain ⟨rfl, rfl⟩ := List.cons.inj h
    rw [splitFrom?, between?_eq hfirst hi, List.append_nil]
    rfl
termination_by ts.length - i

theorem splitTop?_eq (separator : TokenKind) (ts : List Token) :
    splitTop? separator ts = some (splitTop separator 0 ts) := by
  obtain ⟨part, parts, h⟩ := List.exists_cons_of_ne_nil (splitTop_ne_nil separator 0 ts)
  rw [h]
  exact splitFrom?_eq (Nat.le_refl 0) (Nat.zero_le ts.length) h

theorem kindOf?_eq (ts : List Token) : kindOf? ts = some (.ofTokens ts) := by
  rw [kindOf?]
  split
  · next h =>
    obtain ⟨t, ht, hkind⟩ := (Option.any_eq_true _ _).1 h
    obtain ⟨ts, rfl⟩ := List.head?_eq_some_iff.1 ht
    replace hkind : t.kind = .keyword .CREATE := of_decide_eq_true hkind
    rw [between?_eq (by simp) (Nat.le_refl _), between_length, StatementKind.ofTokens, hkind]
    rfl
  · rfl

end Indexed

/-! ### Groups -/

variable {ts : List Token} {i j lo stop : Nat} {t : Token}

theorem opens_at (ht : ts[i]? = some t) (hopen : t.isOpen) : ts[i]?.any Token.isOpen := by
  rw [ht]
  exact hopen

namespace TokenSlice

theorem is_eq (ht : ts[i]? = some t) (p : Token → Bool) : (ofTokens ts).is i p = p t := by
  simp [is, ofTokens, ht]

@[simp] theorem tokens_ofTokens (ts : List Token) : (ofTokens ts).tokens = ts := rfl

theorem inside?_eq_some (h : (ofTokens ts).inside? i stop = some t) :
    i < stop ∧ ts[i]? = some t ∧ between ts i stop = t :: between ts (i + 1) stop := by
  rw [inside?] at h
  split at h
  · next hlt => exact ⟨hlt, h, between_cons h hlt⟩
  · contradiction

theorem inside?_eq_none (hstop : stop ≤ ts.length) (h : (ofTokens ts).inside? i stop = none) :
    stop ≤ i ∧ between ts i stop = [] := by
  rw [inside?] at h
  split at h
  · next hlt =>
    rw [tokens_ofTokens, List.getElem?_eq_none_iff] at h
    omega
  · next hge => exact ⟨Nat.le_of_not_lt hge, between_of_le (Nat.le_of_not_lt hge)⟩

theorem stopOf_ofTokens (ts : List Token) (i : Nat) :
    (ofTokens ts).stopOf i = (closeAt? ts i).getD ts.length := by
  rw [stopOf, closeOf?_ofTokens]
  rfl

theorem skipGroup_bounds (hopen : ts[i]?.any Token.isOpen) :
    i < (ofTokens ts).stopOf i ∧ (ofTokens ts).stopOf i ≤ (ofTokens ts).skipGroup i ∧
      (ofTokens ts).skipGroup i ≤ ts.length := by
  rw [stopOf_ofTokens]
  cases hclose : closeAt? ts i with
  | none =>
      obtain ⟨t, ht, -⟩ := (Option.any_eq_true _ _).1 hopen
      rw [skipGroup_of_none hclose]
      exact ⟨(List.getElem?_eq_some_iff.1 ht).1, Nat.le_refl _, Nat.le_refl _⟩
  | some j =>
      have := (closeAt?_eq_some hclose).2
      rw [skipGroup_of_closeAt? hclose, Option.getD_some]
      omega

end TokenSlice

open TokenSlice

/-- The tokens may be cut at the index `stop`, as far as groups are concerned that begin at `lo` or
behind it. The token behind the cut is none that could go on with the tokens in front of it. -/
structure Cut (ts : List Token) (lo stop : Nat) : Prop where
  stop_le : stop ≤ ts.length
  skip_le : ∀ i, lo ≤ i → i < stop → ts[i]?.any Token.isOpen → (ofTokens ts).skipGroup i ≤ stop
  notNumber : ts[stop]?.any (fun t => t.kind = .number) = false
  notTies : ts[stop]?.any (·.isKeyword .TIES) = false
  behindName : ts[stop]?.any Token.isOpen →
    ts[stop - 1]?.any fun p => p.isName || p.isKeyword .INSERT

namespace Cut

theorem mono (h : Cut ts lo stop) {lo' : Nat} (hlo : lo ≤ lo') : Cut ts lo' stop :=
  { h with skip_le := fun i hi => h.skip_le i (Nat.le_trans hlo hi) }

theorem length (ts : List Token) (lo : Nat) : Cut ts lo ts.length where
  stop_le := Nat.le_refl _
  skip_le _ _ _ hopen := (skipGroup_bounds hopen).2.2
  notNumber := by simp
  notTies := by simp
  behindName h := by simp at h

/-- A cut in front of the end of a group. -/
theorem inner (ts : List Token) (i : Nat) : Cut ts (i + 1) ((ofTokens ts).stopOf i) := by
  rw [stopOf_ofTokens]
  cases hclose : closeAt? ts i with
  | none => exact length ts (i + 1)
  | some j =>
      obtain ⟨c, hc, hclosed⟩ := isClose_of_closeAt? hclose
      rw [Option.getD_some]
      refine ⟨Nat.le_of_lt (List.getElem?_eq_some_iff.1 hc).1, fun k hk hkj hopen' => ?_, ?_, ?_, ?_⟩
      · obtain ⟨j', hj', hlt⟩ := exists_closeAt?_inside hclose hk hkj hopen'
        rw [skipGroup_of_closeAt? hj']
        exact hlt
      all_goals
        have hkind : c.kind = .parenClose := of_decide_eq_true hclosed
        simp [hc, hkind, Token.isKeyword, Token.isOpen]

theorem closeAt?_take (h : Cut ts lo stop) (hlo : lo ≤ i) (hi : i < stop)
    (hopen : ts[i]?.any Token.isOpen) : closeAt? (ts.take stop) i = closeAt? ts i := by
  have hskip := h.skip_le i hlo hi hopen
  cases hclose : closeAt? ts i with
  | some j =>
      rw [skipGroup_of_closeAt? hclose] at hskip
      exact closeAt?_take_eq_some_iff.2 ⟨hclose, hskip⟩
  | none =>
      rw [skipGroup_of_none hclose] at hskip
      rw [List.take_of_length_le hskip, hclose]

/-- A group is found in the tokens of a part as it is found by its index. -/
theorem after (h : Cut ts lo stop) (hlo : lo ≤ i) (hi : i < stop)
    (hopen : ts[i]?.any Token.isOpen) :
    Group.after (between ts (i + 1) stop) =
      ⟨between ts (i + 1) ((ofTokens ts).stopOf i), (closeAt? ts i).bind (ts[·]?),
        between ts ((ofTokens ts).skipGroup i) stop⟩ := by
  have hskip := h.skip_le i hlo hi hopen
  have hopen' : (ts.take stop)[i]?.any Token.isOpen := by rwa [List.getElem?_take_of_lt hi]
  have hclosed := h.closeAt?_take hlo hi hopen
  have hafter := after_drop hopen'
  rw [hclosed] at hafter
  rw [between, hafter, stopOf_ofTokens]
  cases hclose : closeAt? ts i with
  | some j =>
      rw [skipGroup_of_closeAt? hclose] at hskip
      rw [skipGroup_of_closeAt? hclose, skipGroup_of_closeAt? (hclosed.trans hclose)]
      simp only [Option.getD_some, Option.bind_some, between, List.take_take,
        Nat.min_eq_left (Nat.le_of_succ_le hskip), List.getElem?_take_of_lt (Nat.lt_of_succ_le hskip)]
  | none =>
      rw [skipGroup_of_none hclose] at hskip
      obtain rfl : stop = ts.length := Nat.le_antisymm h.stop_le hskip
      rw [skipGroup_of_none hclose, skipGroup_of_none (hclosed.trans hclose)]
      simp [between]

end Cut

namespace TokenSlice

theorem groupInner?_eq (hopen : ts[i]?.any Token.isOpen) :
    (ofTokens ts).groupInner? i = some (between ts (i + 1) ((ofTokens ts).stopOf i)) := by
  obtain ⟨hlt, hle, hlen⟩ := skipGroup_bounds hopen
  rw [groupInner?, Nat.min_eq_left hlt]
  exact between?_eq hlt (Nat.le_trans hle hlen)

theorem groupRange?_eq (hopen : ts[i]?.any Token.isOpen) :
    (ofTokens ts).groupRange? i =
      some (.ofTokens (between ts i ((ofTokens ts).skipGroup i))) := by
  obtain ⟨hlt, hle, hlen⟩ := skipGroup_bounds hopen
  rw [groupRange?]
  exact congrArg (Option.map _) (between?_eq (by omega) hlen)

theorem isQueryGroup?_eq (ht : ts[i]? = some t) :
    (ofTokens ts).isQueryGroup? i =
      some (t.isOpen && startsQuery (between ts (i + 1) ((ofTokens ts).stopOf i))) := by
  rw [isQueryGroup?, is_eq ht]
  split
  · next hopen =>
    have hany : ts[i]?.any Token.isOpen := opens_at ht hopen
    rw [groupInner?_eq hany, Option.bind_some, Indexed.startsQuery?_eq, hopen, Bool.true_and]
  · next hopen => simp [hopen]

end TokenSlice

end Tsql
