import Tsql.Proofs.Token.Queries

/-!
Cutting tokens at the separators outside all groups.

Tokens are uncut if no separator among them stands outside the groups. A cut of tokens in front of
others leaves them in one piece (`splitTop_append`), and a separator behind them ends that piece.
-/

namespace Tsql

variable {separator : TokenKind} {depth : Nat} {ts us : List Token}

/-- No separator stands outside the groups, where `depth` groups are open in front of the tokens. -/
def Uncut (separator : TokenKind) : Nat → List Token → Prop
  | _, [] => True
  | depth, t :: ts =>
    ¬ (t.kind = separator ∧ depth = 0) ∧ Uncut separator (t.depthAfter depth) ts

theorem depthAfter_eq_self (h : ∀ t ∈ ts, t.isOpen = false ∧ t.isClose = false) (depth : Nat) :
    depthAfter depth ts = depth := by
  induction ts with
  | nil => rfl
  | cons t ts ih =>
      obtain ⟨ht, hts⟩ := List.forall_mem_cons.1 h
      rw [depthAfter_cons, Token.depthAfter_of_flat ht, ih hts]

/-- Uncut tokens are the beginning of the first part. -/
theorem splitTop_append (h : Uncut separator depth ts) (us : List Token) :
    splitTop separator depth (ts ++ us) =
      (ts ++ (splitTop separator (depthAfter depth ts) us).headD []) ::
        (splitTop separator (depthAfter depth ts) us).tail := by
  induction ts generalizing depth with
  | nil =>
      have hpos := length_splitTop_pos separator depth us
      cases hparts : splitTop separator depth us with
      | nil => simp [hparts] at hpos
      | cons part parts => simp [depthAfter, hparts]
  | cons t ts ih =>
      obtain ⟨hcut, hts⟩ := h
      rw [List.cons_append, splitTop, if_neg hcut, ih hts, depthAfter_cons]
      rfl

theorem splitTop_of_uncut (h : Uncut separator depth ts) :
    splitTop separator depth ts = [ts] := by
  simpa [splitTop] using splitTop_append h []

theorem splitTop_append_separator {t : Token} (h : Uncut separator 0 ts)
    (hclosed : depthAfter 0 ts = 0) (ht : t.kind = separator) (us : List Token) :
    splitTop separator 0 (ts ++ t :: us) = ts :: splitTop separator 0 us := by
  simp [splitTop_append h, hclosed, splitTop, ht]

namespace Uncut

theorem of_ne (h : ∀ t ∈ ts, t.kind ≠ separator) (depth : Nat) : Uncut separator depth ts := by
  induction ts generalizing depth with
  | nil => trivial
  | cons t ts ih =>
      obtain ⟨ht, hts⟩ := List.forall_mem_cons.1 h
      exact ⟨fun hcut => ht hcut.1, ih hts _⟩

theorem append (hts : Uncut separator depth ts) (hus : Uncut separator (depthAfter depth ts) us) :
    Uncut separator depth (ts ++ us) := by
  induction ts generalizing depth with
  | nil => exact hus
  | cons t ts ih => exact ⟨hts.1, ih hts.2 hus⟩

/-- Inside a group nothing is cut. -/
theorem of_openAfter? {depth' : Nat}
    (h : ts.foldlM (fun depth t => Token.openAfter? t depth) depth = some depth') :
    Uncut separator (depth + 1) ts ∧ depthAfter (depth + 1) ts = depth' + 1 := by
  induction ts generalizing depth with
  | nil =>
      obtain rfl := Option.some.inj h
      exact ⟨trivial, rfl⟩
  | cons t ts ih =>
      rw [List.foldlM_cons] at h
      obtain ⟨next, hopen, hrest⟩ := Option.bind_eq_some_iff.1 h
      obtain ⟨huncut, hdepth⟩ := ih hrest
      rw [← Token.depthAfter_of_openAfter? hopen] at huncut hdepth
      exact ⟨⟨fun hcut => absurd hcut.2 (Nat.succ_ne_zero _), huncut⟩, hdepth⟩

/-- A balanced group in parentheses is not cut and leaves no group open. -/
theorem of_group {o c : Token} (ho : o.isOpen) (hts : isBalanced ts) (hc : c.isClose)
    (hne : o.kind ≠ separator) :
    Uncut separator 0 (o :: (ts ++ [c])) ∧ depthAfter 0 (o :: (ts ++ [c])) = 0 := by
  obtain ⟨huncut, hdepth⟩ : Uncut separator 1 ts ∧ depthAfter 1 ts = 1 :=
    of_openAfter? (eq_of_beq hts)
  have hopen : o.depthAfter 0 = 1 := by simp [Token.depthAfter, ho]
  have hclose : c.depthAfter 1 = 0 := by
    simp [Token.depthAfter, Token.isOpen_eq_false hc, hc]
  refine ⟨⟨fun hcut => hne hcut.1, ?_⟩, ?_⟩
  · rw [hopen]
    exact huncut.append ⟨fun hcut => by simp [hdepth] at hcut, trivial⟩
  · rw [depthAfter_cons, hopen, depthAfter_append, hdepth, depthAfter_cons, hclose]
    rfl

end Uncut

end Tsql
