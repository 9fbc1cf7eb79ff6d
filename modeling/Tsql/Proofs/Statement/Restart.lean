import Tsql.Proofs.Statement.Segments

/-!
Statements that are read one behind the other.

While tokens continue a statement they are gathered for it (`Split.Reads.gather`), as those of a
group are (`Split.reads_group`) and those of a name (`Split.reads_path`). Where a token opens a
statement as it does at the beginning of a list, the division goes on as if the list began there
(`splitStatements_append_of_opens`).
-/

namespace Tsql

namespace Split

/-! ### Behind further tokens -/

/-- The statement as it stands behind `k` further tokens. -/
def Segment.shift (k : Nat) (g : Segment) : Segment :=
  { g with first := g.first + k }

theorem gather_add (index k : Nat) (mts : List (Mark × Token)) :
    gather (index + k) mts =
      ((gather index mts).1, (gather index mts).2.map (Segment.shift k)) := by
  induction mts generalizing index with
  | nil => rfl
  | cons mt mts ih =>
      obtain ⟨mark, t⟩ := mt
      have ih := ih (index + 1)
      rw [Nat.add_right_comm] at ih
      rw [gather, gather, ih]
      cases mark <;> rfl

/-- What is gathered behind a list is what is gathered from its beginning. -/
theorem gather_marks (k : Nat) (ts : List Token) :
    gather k ((marks {} ts).zip ts) = ([], (splitStatements ts).map (Segment.shift k)) := by
  have hadd := gather_add 0 k ((marks {} ts).zip ts)
  rw [Nat.zero_add] at hadd
  rw [hadd, gather_of_none (fun _ => rfl) rfl]
  rfl

/-! ### Tokens of one statement -/

/-- All of the tokens continue the statement being read, where `behind` stands behind them. -/
inductive Reads (behind : List Token) : State → List Token → State → Prop
  | nil (s : State) : Reads behind s [] s
  | cons {s s₁ s₂ : State} {t : Token} {ts : List Token}
      (head : s.step t (ts ++ behind) = (.continues, s₁)) (tail : Reads behind s₁ ts s₂) :
      Reads behind s (t :: ts) s₂

namespace Reads

variable {behind ts us : List Token} {s s₁ s₂ : State}

theorem append (h : Reads (us ++ behind) s ts s₁) (h' : Reads behind s₁ us s₂) :
    Reads behind s (ts ++ us) s₂ := by
  induction h with
  | nil s => exact h'
  | cons head tail ih =>
      rw [← List.append_assoc] at head
      exact .cons head (ih h')

/-- What is read behind the first of the tokens. -/
theorem of_append (h : Reads behind s (ts ++ us) s₂) (h' : Reads (us ++ behind) s ts s₁) :
    Reads behind s₁ us s₂ := by
  induction h' with
  | nil s => exact h
  | @cons s s₁ s₃ t ts head tail ih =>
      cases h with
      | cons head' tail' =>
          replace head' : s.step t (ts ++ us ++ behind) = (.continues, _) := head'
          rw [List.append_assoc, head] at head'
          obtain rfl := (Prod.mk.inj head').2
          exact ih tail'

/-- The tokens are gathered for the statement. -/
theorem gather (h : Reads behind s ts s₁) (index : Nat) :
    Split.gather index ((marks s (ts ++ behind)).zip (ts ++ behind)) =
      (ts ++ (Split.gather (index + ts.length) ((marks s₁ behind).zip behind)).1,
        (Split.gather (index + ts.length) ((marks s₁ behind).zip behind)).2) := by
  induction h generalizing index with
  | nil s => rfl
  | @cons s s₁ s₂ t ts head tail ih =>
      have ih := ih (index + 1)
      rw [List.cons_append, marks, head, List.zip_cons_cons, Split.gather, ih, List.length_cons,
        Nat.add_assoc index 1, Nat.add_comm 1]
      rfl

end Reads

/-- If all tokens are gathered for the statement being read, all of them continue it. -/
theorem exists_reads_of_gather {s : State} {index : Nat} {ts : List Token}
    (h : (gather index ((marks s ts).zip ts)).1 = ts) : ∃ s', Reads [] s ts s' := by
  induction ts generalizing s index with
  | nil => exact ⟨s, .nil s⟩
  | cons t ts ih =>
      rw [marks, List.zip_cons_cons, gather] at h
      generalize hres : s.step t ts = res at h
      obtain ⟨mark, s₁⟩ := res
      cases mark with
      | continues =>
          obtain ⟨s', htail⟩ := ih (List.cons.inj h).2
          exact ⟨s', .cons ((congrArg _ (List.append_nil ts)).trans hres) htail⟩
      | opens => exact absurd h.symm (List.cons_ne_nil t ts)
      | delimits => exact absurd h.symm (List.cons_ne_nil t ts)

end Split

/-- The tokens are a group with its parentheses. -/
def IsGroup (ts : List Token) : Prop :=
  ∃ o inner c, ts = o :: (inner ++ [c]) ∧ o.isOpen ∧ isBalanced inner ∧ c.isClose

/-- The tokens are names and the dots between them. -/
def IsPath (ts : List Token) : Prop :=
  ∀ t ∈ ts, t.isName ∨ t.kind = .dot

namespace Split

variable (behind : List Token) (kind : StatementKind) (last : Token)

/-! ### Parts of statements -/

/-- Inside a group a statement goes on. -/
theorem reads_inside (r : Reading) (cases : Nat) {ts : List Token} {depth depth' : Nat}
    (h : ts.foldlM (fun depth t => Token.openAfter? t depth) depth = some depth') :
    ∃ last, Reads behind ⟨some { r with depth := depth + 1 }, cases, false⟩ ts
      ⟨some { r with depth := depth' + 1, last := last }, cases, false⟩ := by
  induction ts generalizing r depth with
  | nil =>
      obtain rfl := Option.some.inj h
      exact ⟨r.last, .nil _⟩
  | cons t ts ih =>
      rw [List.foldlM_cons] at h
      obtain ⟨depth₁, hopen, h⟩ := Option.bind_eq_some_iff.1 h
      obtain ⟨last, hreads⟩ := ih { r with last := t } h
      refine ⟨last, .cons ?_ hreads⟩
      rw [step_some _ cases (.inl (Nat.succ_ne_zero depth)), Token.depthAfter_of_openAfter? hopen]

theorem reads_group {ts : List Token} (h : IsGroup ts) :
    ∃ c, c.isClose ∧ Reads behind (reading kind last) ts (reading kind c) := by
  obtain ⟨o, inner, c, rfl, hopen, hinner, hclose⟩ := h
  have hbalanced : inner.foldlM (fun depth t => Token.openAfter? t depth) 0 = some 0 :=
    eq_of_beq hinner
  obtain ⟨inside, hreads⟩ := reads_inside ([c] ++ behind)
    { kind := kind, awaitsBody := false, last := o } 0 hbalanced
  have hkind : o.kind = .parenOpen := of_decide_eq_true hopen
  refine ⟨c, hclose, .cons ?_ (hreads.append (.cons ?_ (.nil _)))⟩
  · rw [reading, step_some _ 0 (.inr (by simp [hkind]))]
    simp [Token.depthAfter, hopen]
  · have hnot : c.isOpen = false := by
      have hkind : c.kind = .parenClose := of_decide_eq_true hclose
      simp [Token.isOpen, hkind]
    rw [step_some _ 0 (.inl (Nat.succ_ne_zero 0))]
    simp [reading, Token.depthAfter, hclose, hnot]

theorem reads_path {ts : List Token} (h : IsPath ts) :
    ∃ last', Reads behind (reading kind last) ts (reading kind last') := by
  induction ts generalizing last with
  | nil => exact ⟨last, .nil _⟩
  | cons t ts ih =>
      obtain ⟨ht, hts⟩ := List.forall_mem_cons.1 h
      obtain ⟨last', hreads⟩ := ih t hts
      refine ⟨last', .cons ?_ hreads⟩
      simp only [Token.isName, Bool.or_eq_true, decide_eq_true_eq] at ht
      refine step_other ?_ ?_ ?_
      all_goals rcases ht with (hkind | hkind) | hkind <;> simp [Token.isOpen, Token.isClose, hkind]

theorem reads_word {t : Token} {word : Keyword} (h : t.isKeyword word) (hopens : word ∉ openers)
    (hblock : word ∉ blockWords) : Reads behind (reading kind last) [t] (reading kind t) :=
  .cons (step_word (of_decide_eq_true h) hopens hblock _) (.nil _)

end Split

/-! ### Statements -/

section

open Split

variable {t u : Token} {ts us : List Token} {s s' : State}

/-- The first statement begins with tokens that are read as one. -/
theorem splitStatements_of_reads (hopens : State.step {} t (ts ++ us) = (.opens, s))
    (hreads : Reads us s ts s') :
    splitStatements (t :: (ts ++ us)) =
      ⟨0, t :: (ts ++ (gather (ts.length + 1) ((marks s' us).zip us)).1)⟩ ::
        (gather (ts.length + 1) ((marks s' us).zip us)).2 := by
  rw [splitStatements, marks, hopens, List.zip_cons_cons, gather, hreads.gather,
    Nat.add_comm (0 + 1), Nat.zero_add]

/-- Tokens are one statement just if all but the first continue it. -/
theorem splitStatements_eq_singleton_iff :
    splitStatements (t :: ts) = [⟨0, t :: ts⟩] ↔
      ∃ s s', State.step {} t ts = (.opens, s) ∧ Reads [] s ts s' := by
  constructor
  · intro h
    rw [splitStatements, marks, List.zip_cons_cons, gather] at h
    have hmark := (step_spec (s := {}) (fun _ => rfl) t ts).2.2 rfl
    generalize hres : State.step {} t ts = res at h hmark
    obtain ⟨mark, s⟩ := res
    cases mark with
    | continues => exact absurd rfl hmark
    | opens =>
        obtain ⟨hfirst, -⟩ := List.cons.inj h
        obtain ⟨s', hreads⟩ := exists_reads_of_gather (List.cons.inj (Segment.mk.inj hfirst).2).2
        exact ⟨s, s', rfl, hreads⟩
    | delimits =>
        -- the next statement would begin behind the first token
        obtain ⟨hbehind, -⟩ := gather_ordered (0 + 1) ((marks s ts).zip ts)
        have hle := hbehind ⟨0, t :: ts⟩ (h ▸ List.mem_cons_self)
        rw [Nat.add_right_comm] at hle
        exact absurd hle (Nat.not_succ_le_zero _)
  · rintro ⟨s, s', hopens, hreads⟩
    have hopens' : State.step {} t (ts ++ []) = (.opens, s) := by rwa [List.append_nil]
    have hsplit := splitStatements_of_reads hopens' hreads
    rw [List.append_nil] at hsplit
    rw [hsplit, marks, List.zip_nil_right, gather, List.append_nil]

/-- Behind tokens that are read as one statement, a token that opens the next one as it would at the
beginning begins the division anew. -/
theorem splitStatements_append_of_opens (hopens : State.step {} t (ts ++ u :: us) = (.opens, s))
    (hreads : Reads (u :: us) s ts s') (hanew : s'.step u us = State.step {} u us) :
    splitStatements (t :: (ts ++ u :: us)) =
      ⟨0, t :: ts⟩ :: (splitStatements (u :: us)).map (Segment.shift (ts.length + 1)) := by
  have hmarks : marks s' (u :: us) = marks {} (u :: us) := by
    rw [marks, marks, hanew]
  rw [splitStatements_of_reads hopens hreads, hmarks, gather_marks, List.append_nil]

end

end Tsql
