import Tsql.Token.Group

/-!
Groups in a list of tokens with more tokens behind it.

A list is closed if every group that opens in it also ends in it, that is, if `depthAfter 0` is 0.
The groups of a closed list do not change with what follows (`Group.after_append`).
-/

namespace Tsql

theorem Token.isClose_eq_false {t : Token} (h : t.isOpen) : t.isClose = false := by
  simp_all [Token.isOpen, Token.isClose]

theorem depthAfter_cons (depth : Nat) (t : Token) (ts : List Token) :
    depthAfter depth (t :: ts) = depthAfter (t.depthAfter depth) ts := rfl

theorem depthAfter_cons_of_isOpen {t : Token} (h : t.isOpen) (depth : Nat) (ts : List Token) :
    depthAfter depth (t :: ts) = depthAfter (depth + 1) ts := by
  simp [depthAfter_cons, Token.depthAfter, h]

theorem Token.flat_of_isWord {t : Token} {word : String} (h : t.isWord word) :
    t.isOpen = false ∧ t.isClose = false := by
  unfold isWord at h
  split at h
  · next hkind => simp [isOpen, isClose, hkind]
  · next hkind => simp [isOpen, isClose, hkind]
  · simp at h

theorem Token.flat_of_keyword {t : Token} {word : Keyword} (h : t.kind = .keyword word) :
    t.isOpen = false ∧ t.isClose = false := by
  simp [isOpen, isClose, h]

theorem Token.depthAfter_of_flat {t : Token} (h : t.isOpen = false ∧ t.isClose = false)
    (depth : Nat) : t.depthAfter depth = depth := by
  simp [depthAfter, h]

theorem Token.depthAfter_of_keyword {t : Token} {word : Keyword} (h : t.kind = .keyword word)
    (depth : Nat) : t.depthAfter depth = depth :=
  depthAfter_of_flat (flat_of_keyword h) depth

/-- Groups around a place only add to the depth there, up to the end of the innermost one. -/
theorem Token.depthAfter_add {t : Token} {depth : Nat} (h : ¬ (t.isClose ∧ depth = 0))
    (outer : Nat) : t.depthAfter (depth + outer) = t.depthAfter depth + outer := by
  unfold Token.depthAfter
  split
  · omega
  · split
    · next hclose =>
      have : depth ≠ 0 := fun hdepth => h ⟨hclose, hdepth⟩
      omega
    · rfl

/-- The number of open groups after a token, unless it closes one and none is open. -/
def Token.openAfter? (t : Token) (depth : Nat) : Option Nat :=
  if t.isOpen then some (depth + 1)
  else if t.isClose then if depth = 0 then none else some (depth - 1)
  else some depth

theorem openGroups?_eq (ts : List Token) :
    openGroups? ts = ts.foldlM (fun depth t => t.openAfter? depth) 0 := rfl

/-- Inside one more group the depth stays positive. -/
theorem Token.depthAfter_of_openAfter? {t : Token} {depth depth' : Nat}
    (h : t.openAfter? depth = some depth') : t.depthAfter (depth + 1) = depth' + 1 := by
  unfold openAfter? at h
  unfold depthAfter
  split at h
  · next hopen =>
    rw [if_pos hopen, Option.some.inj h]
  · next hopen =>
    rw [if_neg hopen]
    split at h
    · next hclose =>
      rw [if_pos hclose]
      split at h
      · contradiction
      · have := Option.some.inj h
        omega
    · next hclose => rw [if_neg hclose, Option.some.inj h]

theorem closeIndex?_cons (depth : Nat) (t : Token) (ts : List Token) :
    closeIndex? depth (t :: ts) =
      if t.isClose ∧ depth = 0 then some 0
      else (closeIndex? (t.depthAfter depth) ts).map (· + 1) := by
  unfold Token.depthAfter
  by_cases hopen : t.isOpen
  · simp [closeIndex?, hopen, Token.isClose_eq_false hopen]
  · by_cases hclose : t.isClose
    · cases depth <;> simp [closeIndex?, hopen, hclose]
    · simp [closeIndex?, hopen, hclose]

theorem closeIndex?_lt {depth k : Nat} {ts : List Token} (h : closeIndex? depth ts = some k) :
    k < ts.length := by
  induction ts generalizing depth k with
  | nil => simp [closeIndex?] at h
  | cons t ts ih =>
      rw [closeIndex?_cons] at h
      split at h
      · obtain rfl := Option.some.inj h
        exact Nat.succ_pos _
      · obtain ⟨j, hj, rfl⟩ := Option.map_eq_some_iff.1 h
        exact Nat.succ_lt_succ (ih hj)

theorem closeIndex?_append {depth k : Nat} {ts : List Token} (h : closeIndex? depth ts = some k)
    (more : List Token) : closeIndex? depth (ts ++ more) = some k := by
  induction ts generalizing depth k with
  | nil => simp [closeIndex?] at h
  | cons t ts ih =>
      rw [closeIndex?_cons] at h
      rw [List.cons_append, closeIndex?_cons]
      split at h
      · next hend => rw [if_pos hend, h]
      · next hend =>
        obtain ⟨j, hj, rfl⟩ := Option.map_eq_some_iff.1 h
        rw [if_neg hend, ih hj]
        rfl

theorem closeIndex?_of_openGroups {ts us : List Token} {depth depth' : Nat}
    (h : ts.foldlM (fun depth t => Token.openAfter? t depth) depth = some depth') :
    closeIndex? depth (ts ++ us) = (closeIndex? depth' us).map (· + ts.length) := by
  induction ts generalizing depth with
  | nil =>
      obtain rfl := Option.some.inj h
      simp
  | cons t ts ih =>
      rw [List.foldlM_cons] at h
      obtain ⟨depth₁, hopen, h⟩ := Option.bind_eq_some_iff.1 h
      obtain ⟨hnot, hdepth⟩ : ¬ (t.isClose ∧ depth = 0) ∧ t.depthAfter depth = depth₁ := by
        unfold Token.openAfter? at hopen
        unfold Token.depthAfter
        grind [Token.isClose_eq_false]
      rw [List.cons_append, closeIndex?_cons, if_neg hnot, hdepth, ih h, Option.map_map]
      rfl

/-- A group ends in tokens that leave nothing open, and those behind it leave nothing open
either. -/
theorem exists_closeIndex? {depth : Nat} {ts : List Token} (h : depthAfter (depth + 1) ts = 0) :
    ∃ k, closeIndex? depth ts = some k ∧ depthAfter 0 (ts.drop (k + 1)) = 0 := by
  induction ts generalizing depth with
  | nil => simp [depthAfter] at h
  | cons t ts ih =>
      rw [depthAfter_cons] at h
      rw [closeIndex?_cons]
      split
      · next hend =>
        obtain ⟨hclose, rfl⟩ := hend
        have hopen : t.isOpen = false := by simp_all [Token.isOpen, Token.isClose]
        refine ⟨0, rfl, ?_⟩
        simpa [Token.depthAfter, hopen, hclose] using h
      · next hend =>
        rw [Token.depthAfter_add hend] at h
        obtain ⟨k, hk, hrest⟩ := ih h
        exact ⟨k + 1, by simp [hk], hrest⟩

namespace Group

variable {ts : List Token}

/-- The group of an opening parenthesis in a closed list does not reach what follows the list. -/
theorem after_append (h : depthAfter 1 ts = 0) (more : List Token) :
    after (ts ++ more) = { after ts with rest := (after ts).rest ++ more } := by
  obtain ⟨k, hk, -⟩ := exists_closeIndex? h
  have hlt := closeIndex?_lt hk
  simp only [after, hk, closeIndex?_append hk]
  rw [List.take_append_of_le_length (Nat.le_of_lt hlt), List.drop_append_of_le_length hlt,
    List.getElem?_append_left hlt]

theorem inner_append (h : depthAfter 1 ts = 0) (more : List Token) :
    (after (ts ++ more)).inner = (after ts).inner := by
  rw [after_append h]

theorem tokens_append (h : depthAfter 1 ts = 0) (more : List Token) :
    (after (ts ++ more)).tokens = (after ts).tokens := by
  rw [after_append h]
  rfl

theorem rest_append (h : depthAfter 1 ts = 0) (more : List Token) :
    (after (ts ++ more)).rest = (after ts).rest ++ more := by
  rw [after_append h]

theorem depthAfter_rest (h : depthAfter 1 ts = 0) : depthAfter 0 (after ts).rest = 0 := by
  obtain ⟨k, hk, hrest⟩ := exists_closeIndex? h
  simpa only [after, hk] using hrest

/-- Balanced tokens in parentheses are what the group holds. -/
theorem after_balanced {t : Token} (h : isBalanced ts) (ht : t.isClose) (us : List Token) :
    after (ts ++ t :: us) = ⟨ts, some t, us⟩ := by
  have hopen : closeIndex? 0 (ts ++ t :: us) = some ts.length := by
    have hend : closeIndex? 0 (t :: us) = some 0 := by rw [closeIndex?_cons, if_pos ⟨ht, rfl⟩]
    rw [closeIndex?_of_openGroups (eq_of_beq h), hend, Option.map_some, Nat.zero_add]
  simp [after, hopen]

theorem rest_suffix (ts : List Token) : (after ts).rest <:+ ts := by
  rw [after]
  split
  · exact List.drop_suffix _ _
  · exact List.nil_suffix

end Group

end Tsql
