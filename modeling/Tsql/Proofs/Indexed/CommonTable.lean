import Tsql.Indexed.CommonTable
import Tsql.Proofs.Indexed.Source

/-!
The common table expressions that are read by index are those of the readers of token lists.

The readers step over single tokens that open no group and over whole groups, so no group is open in
front of the body of the statement.
-/

namespace Tsql

open TokenSlice

variable {ts : List Token}

/-- What is read by index is the list that the readers of the tokens find. -/
structure CteSpan.Reads (ts : List Token) (c : CteSpan) (l : CteList) : Prop where
  ctes : c.ctes = l.ctes
  issues : c.issues = l.issues
  groups : c.groups = l.groups.map (ts.length - ·)
  rest : l.rest = between ts c.stop ts.length

theorem CteSpan.Reads.followedBy {c d : CteSpan} {l m : CteList} (h : c.Reads ts l)
    (h' : d.Reads ts m) : (c.followedBy d).Reads ts (l.followedBy m) where
  ctes := congrArg₂ (· ++ ·) h.ctes h'.ctes
  issues := congrArg₂ (· ++ ·) h.issues h'.issues
  groups := (congrArg₂ (· ++ ·) h.groups h'.groups).trans List.map_append.symm
  rest := h'.rest

/-- No group is open in front of index `j` if none is in front of index `i`. -/
structure Passes (ts : List Token) (i j : Nat) : Prop where
  le : i ≤ j
  le_length : j ≤ ts.length
  comesTo : (ofTokens ts).ComesTo i → (ofTokens ts).ComesTo j

namespace Passes

variable {i j k : Nat} {t : Token}

theorem refl (h : i ≤ ts.length) : Passes ts i i :=
  ⟨Nat.le_refl i, h, id⟩

theorem trans (h : Passes ts i j) (h' : Passes ts j k) : Passes ts i k :=
  ⟨Nat.le_trans h.le h'.le, h'.le_length, fun hi => h'.comesTo (h.comesTo hi)⟩

theorem step (ht : ts[i]? = some t) (hopen : t.isOpen = false) : Passes ts i (i + 1) where
  le := Nat.le_succ i
  le_length := (List.getElem?_eq_some_iff.1 ht).1
  comesTo hi := hi.step (by simp [ht, hopen])

theorem group (ht : ts[i]? = some t) (hopen : t.isOpen) :
    Passes ts i ((ofTokens ts).skipGroup i) := by
  have hany : ts[i]?.any Token.isOpen := opens_at ht hopen
  obtain ⟨hlt, hle, hlen⟩ := skipGroup_bounds hany
  exact ⟨by omega, hlen, fun hi => hi.skip hany⟩

end Passes

theorem getElem?_cases (ts : List Token) (i : Nat) :
    (∃ t, ts[i]? = some t ∧ i < ts.length ∧
        between ts i ts.length = t :: between ts (i + 1) ts.length) ∨
      ts[i]? = none ∧ between ts i ts.length = [] := by
  rcases Nat.lt_or_ge i ts.length with hlt | hge
  · obtain ⟨t, ht⟩ := exists_getElem? hlt
    exact .inl ⟨t, ht, hlt, between_cons ht hlt⟩
  · exact .inr ⟨List.getElem?_eq_none hge, between_of_le hge⟩

theorem head?_between (ts : List Token) (i : Nat) : (between ts i ts.length).head? = ts[i]? := by
  rcases getElem?_cases ts i with ⟨t, ht, -, hcons⟩ | ⟨hnone, hnil⟩
  · rw [hcons, ht, List.head?_cons]
  · rw [hnil, hnone, List.head?_nil]

theorem columnList?_agrees {i : Nat} (hi : i ≤ ts.length) :
    ∃ r, (ofTokens ts).columnList? i = some r ∧ Passes ts i r.2 ∧
      CteList.columnList (between ts i ts.length) = (r.1, between ts r.2 ts.length) := by
  rw [TokenSlice.columnList?, tokens_ofTokens]
  rcases getElem?_cases ts i with ⟨t, ht, hlt, hcons⟩ | ⟨hnone, hnil⟩
  · rw [ht, hcons, CteList.columnList]
    dsimp only
    by_cases hopen : t.isOpen
    · have hany : ts[i]?.any Token.isOpen := opens_at ht hopen
      rw [if_pos hopen, isQueryGroup?_eq ht, Option.bind_some, groupInner?_eq hany,
        (Cut.length ts i).after (Nat.le_refl i) hlt hany, hopen, Bool.true_and, Bool.true_and]
      dsimp only
      cases startsQuery (between ts (i + 1) ((ofTokens ts).stopOf i)) with
      | true => exact ⟨_, rfl, .refl hi, congrArg (none, ·) hcons.symm⟩
      | false => exact ⟨_, rfl, .group ht hopen, rfl⟩
    · rw [if_neg hopen, if_neg (by simp [hopen])]
      exact ⟨_, rfl, .refl hi, congrArg (none, ·) hcons.symm⟩
  · rw [hnone, hnil]
    exact ⟨_, rfl, .refl hi, congrArg (none, ·) hnil.symm⟩

theorem skipAs_eq {i : Nat} (hi : i ≤ ts.length) :
    Passes ts i ((ofTokens ts).skipAs i) ∧
      CteList.skipAs (between ts i ts.length) =
        between ts ((ofTokens ts).skipAs i) ts.length := by
  rw [TokenSlice.skipAs]
  rcases getElem?_cases ts i with ⟨t, ht, hlt, hcons⟩ | ⟨hnone, hnil⟩
  · rw [is_eq ht, hcons, CteList.skipAs]
    split
    · next has => exact ⟨.step ht (Token.isOpen_of_isKeyword has), rfl⟩
    · exact ⟨.refl hi, hcons.symm⟩
  · rw [is, tokens_ofTokens, hnone, hnil]
    exact ⟨.refl hi, hnil.symm⟩

section

variable {nested? : List Token → Option Statement} {nested : List Token → Statement}

theorem cteWithBody?_reads (hnested : ∀ us, nested? us = some (nested us)) (name : Token)
    (columns : Option (List String)) (ranks : List Nat) {i : Nat} {t : Token}
    (ht : ts[i]? = some t) (hopen : t.isOpen) :
    ∃ c, (ofTokens ts).cteWithBody? nested? name columns (ranks.map (ts.length - ·)) i = some c ∧
      Passes ts i c.stop ∧
      c.Reads ts (CteList.withBody nested name columns ranks t (between ts (i + 1) ts.length)) := by
  have hany : ts[i]?.any Token.isOpen := opens_at ht hopen
  have hlt := (List.getElem?_eq_some_iff.1 ht).1
  have hcut := Cut.length ts i
  have hgroup := Passes.group ht hopen
  have hbefore := (hcut.group (Nat.le_refl i) hlt ht hopen).2.1
  obtain ⟨last, hlast⟩ := exists_getElem?
    (show (ofTokens ts).skipGroup i - 1 < ts.length by
      have := hgroup.le_length
      omega)
  have hrange := Range.ofTokens_between ht hlast hbefore
  rw [cteWithBody?, CteList.withBody, hcut.cons_tokens_after (Nat.le_refl i) hlt ht hopen, hrange]
  simp only [groupInner?_eq hany, hnested, before?_eq (Nat.zero_lt_of_lt hbefore), hlast,
    Option.bind_eq_bind, Option.bind_some, hcut.after (Nat.le_refl i) hlt hany]
  refine ⟨_, rfl, hgroup, rfl, rfl, ?_, rfl⟩
  rw [List.map_append, length_cons_between hlt (Nat.le_refl _), List.map_singleton,
    Nat.sub_sub_self (Nat.le_of_lt hlt)]

theorem cteWithoutBody_reads (name : Token) (columns : Option (List String)) (ranks : List Nat)
    {i : Nat} (hi : i ≤ ts.length) :
    let c := (ofTokens ts).cteWithoutBody name columns (ranks.map (ts.length - ·)) i
    Passes ts i c.stop ∧
      c.Reads ts (CteList.withoutBody name columns ranks (between ts i ts.length)) := by
  dsimp only
  rw [cteWithoutBody, CteList.withoutBody.eq_def]
  rcases getElem?_cases ts i with ⟨t, ht, hlt, hcons⟩ | ⟨hnone, hnil⟩
  · rw [is_eq ht, hcons]
    dsimp only
    split
    · next hopen =>
      have hany : ts[i]?.any Token.isOpen := opens_at ht hopen
      rw [(Cut.length ts i).after (Nat.le_refl i) hlt hany]
      exact ⟨.group ht hopen, rfl, rfl, rfl, rfl⟩
    · exact ⟨.refl hi, rfl, rfl, rfl, hcons.symm⟩
  · rw [is, tokens_ofTokens, hnone, hnil]
    exact ⟨.refl hi, rfl, rfl, rfl, hnil.symm⟩

theorem oneCte?_reads (hnested : ∀ us, nested? us = some (nested us)) (name : Token) {i : Nat}
    (hi : i ≤ ts.length) :
    ∃ c, (ofTokens ts).oneCte? nested? name i = some c ∧ Passes ts i c.stop ∧
      c.Reads ts (CteList.one nested name (between ts i ts.length)) := by
  obtain ⟨⟨columns, j⟩, hcolumns, hpass, heq⟩ := columnList?_agrees hi
  obtain ⟨hpass', heq'⟩ := skipAs_eq hpass.le_length
  rw [TokenSlice.oneCte?, CteList.one, hcolumns, heq, Option.bind_some]
  dsimp only at heq' hpass' ⊢
  rw [heq']
  generalize (ofTokens ts).skipAs j = first at hpass' ⊢
  replace hpass' := hpass.trans hpass'
  have hgroups : (if columns.isSome then [i] else []) =
      (if columns.isSome then [(between ts i ts.length).length] else []).map (ts.length - ·) := by
    rw [length_between, Nat.min_self]
    split
    · rw [List.map_singleton, Nat.sub_sub_self hi]
    · rfl
  rw [hgroups]
  generalize (if columns.isSome then [(between ts i ts.length).length] else []) = ranks
  obtain ⟨hwithout, hreads⟩ := cteWithoutBody_reads name columns ranks hpass'.le_length
  rcases getElem?_cases ts first with ⟨t, ht, hlt, hcons⟩ | ⟨hnone, hnil⟩
  · rw [hcons] at hreads ⊢
    rw [isQueryGroup?_eq ht, Option.bind_some]
    dsimp only
    by_cases hopen : t.isOpen
    · have hany : ts[first]?.any Token.isOpen := opens_at ht hopen
      rw [(Cut.length ts first).after (Nat.le_refl first) hlt hany]
      split
      · obtain ⟨c, hc, hbody, hreads⟩ := cteWithBody?_reads hnested name columns ranks ht hopen
        exact ⟨c, hc, hpass'.trans hbody, hreads⟩
      · exact ⟨_, rfl, hpass'.trans hwithout, hreads⟩
    · rw [if_neg (by simp [hopen]), if_neg (by simp [hopen])]
      exact ⟨_, rfl, hpass'.trans hwithout, hreads⟩
  · have hquery : (ofTokens ts).isQueryGroup? first = some false := by
      rw [isQueryGroup?, is, tokens_ofTokens, hnone]
      rfl
    rw [hnil] at hreads ⊢
    rw [hquery]
    exact ⟨_, rfl, hpass'.trans hwithout, hreads⟩

theorem CteList.ofTokens_of_comma {name comma : Token} {us more : List Token} (hname : name.isName)
    (hrest : (CteList.one nested name us).rest = comma :: more) (hcomma : comma.kind = .comma) :
    CteList.ofTokens nested (name :: us) =
      (CteList.one nested name us).followedBy (CteList.ofTokens nested more) := by
  rw [CteList.ofTokens, if_pos hname]
  dsimp only
  split
  · next heq =>
    obtain ⟨rfl, rfl⟩ := List.cons.inj (heq.symm.trans hrest)
    exact if_pos hcomma
  · next heq =>
    rw [heq] at hrest
    contradiction

theorem CteList.ofTokens_of_head? {name : Token} {us : List Token} (hname : name.isName)
    (hrest : ∀ t ∈ (CteList.one nested name us).rest.head?, t.kind ≠ .comma) :
    CteList.ofTokens nested (name :: us) = CteList.one nested name us := by
  rw [CteList.ofTokens, if_pos hname]
  dsimp only
  split
  · next t more heq =>
    rw [heq] at hrest
    exact if_neg (hrest t rfl)
  · rfl

/-- The list behind a `WITH` is read as it is from the tokens, and no group is open behind it. -/
theorem cteList?_reads (hnested : ∀ us, nested? us = some (nested us)) {i : Nat}
    (hi : i ≤ ts.length) :
    ∃ c, (ofTokens ts).cteList? nested? i = some c ∧ Passes ts i c.stop ∧
      c.Reads ts (CteList.ofTokens nested (between ts i ts.length)) := by
  rw [TokenSlice.cteList?, tokens_ofTokens]
  rcases getElem?_cases ts i with ⟨name, ht, hlt, hcons⟩ | ⟨hnone, hnil⟩
  · rw [dif_pos hlt, ht, hcons]
    dsimp only
    split
    · next hname =>
      obtain ⟨c, hc, hpass, hreads⟩ := oneCte?_reads hnested name (i := i + 1) hlt
      have hfirst := (Passes.step ht (Token.isOpen_of_isName hname)).trans hpass
      rw [hc, Option.bind_some]
      split
      · next hcomma =>
        obtain ⟨comma, hget, hkind⟩ := (Option.any_eq_true _ _).1 hcomma
        rw [tokens_ofTokens] at hget
        have hlt' := (List.getElem?_eq_some_iff.1 hget).1
        have hkind : comma.kind = .comma := by simpa using hkind
        have hbehind := hfirst.trans (.step hget (by simp [Token.isOpen, hkind]))
        have hle := hfirst.le
        obtain ⟨later, hlater, hpass', hreads'⟩ := cteList?_reads hnested (i := c.stop + 1) hlt'
        rw [dif_pos (Nat.lt_succ_of_le hle), hlater,
          CteList.ofTokens_of_comma hname (hreads.rest.trans (between_cons hget hlt')) hkind]
        exact ⟨_, rfl, hbehind.trans hpass', hreads.followedBy hreads'⟩
      · next hcomma =>
        refine ⟨c, rfl, hfirst, ?_⟩
        rw [CteList.ofTokens_of_head? hname]
        · exact hreads
        rw [hreads.rest, head?_between]
        intro t hget hkind
        exact hcomma (by rw [is_eq hget]; simpa using hkind)
    · next hname =>
      rw [CteList.ofTokens, if_neg hname]
      exact ⟨_, rfl, .refl hi, rfl, rfl, rfl, hcons.symm⟩
  · rw [dif_neg (Nat.not_lt.2 (List.getElem?_eq_none_iff.1 hnone)), hnil, CteList.ofTokens]
    exact ⟨_, rfl, .refl hi, rfl, rfl, rfl, hnil.symm⟩
termination_by ts.length - i

end

namespace Indexed

/-- The issues of references to later expressions, with the expressions by their indices. -/
theorem flatten_forwardReferences (front ctes : List Cte) :
    ((ctes.zipIdx front.length).map fun (c, i) =>
      (((front ++ ctes).drop (i + 1)).filter fun l => c.body.refersTo l.name).map fun l =>
        (⟨.cteForwardReference c.name l.name, c.range⟩ : Issue)).flatten =
      CteList.forwardReferences ctes := by
  induction ctes generalizing front with
  | nil => rfl
  | cons c ctes ih =>
      have hrest := ih (front ++ [c])
      rw [List.length_append, List.length_singleton, List.append_assoc, List.singleton_append]
        at hrest
      have hdrop : (front ++ c :: ctes).drop (front.length + 1) = ctes := by
        rw [← List.singleton_append, ← List.append_assoc]
        exact List.drop_left' (by simp)
      rw [List.zipIdx_cons, List.map_cons, List.flatten_cons, hrest]
      dsimp only
      rw [hdrop]
      rfl

theorem forwardReferences?_eq (ctes : List Cte) :
    forwardReferences? ctes = some (CteList.forwardReferences ctes) := by
  have hlater : ∀ x ∈ ctes.zipIdx, between? ctes (x.2 + 1) ctes.length =
      some (ctes.drop (x.2 + 1)) := by
    rintro ⟨c, i⟩ hmem
    have hlt : i < ctes.length := List.snd_lt_of_mem_zipIdx hmem
    dsimp only
    rw [between?_eq hlt (Nat.le_refl _), between_length]
  rw [forwardReferences?, mapM_eq_some (g := fun (x : Cte × Nat) =>
    ((ctes.drop (x.2 + 1)).filter fun l => x.1.body.refersTo l.name).map fun l =>
      (⟨.cteForwardReference x.1.name l.name, x.1.range⟩ : Issue)) fun x hx => by
        simp [hlater x hx]]
  exact congrArg some (flatten_forwardReferences [] ctes)

end Indexed

end Tsql
