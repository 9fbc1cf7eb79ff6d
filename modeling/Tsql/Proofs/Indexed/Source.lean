import Tsql.Indexed.Source
import Tsql.Proofs.Indexed.Basic
import Tsql.Proofs.Statement.Readers
import Tsql.Proofs.Statement.Regions

/-!
The readers of tables by index are those of token lists.
-/

namespace Tsql

open TokenSlice

variable {ts : List Token} {lo stop : Nat}

/-- What a reader finds from index `i` on in a part that ends at `stop`, and the index that it comes
to, are what a reader of the tokens of the part finds and leaves. -/
structure Agrees {α : Type} (ts : List Token) (i stop : Nat) (r : α × Nat) (l : α × List Token) :
    Prop where
  eq : l = (r.1, between ts r.2 stop)
  le : i ≤ r.2
  le_stop : r.2 ≤ stop

namespace Agrees

variable {α β : Type} {i j : Nat} {r : α × Nat} {l : α × List Token}

theorem map (f : α → β) (h : Agrees ts j stop r l) (hij : i ≤ j) :
    Agrees ts i stop (f r.1, r.2) (f l.1, l.2) where
  eq := by rw [h.eq]
  le := Nat.le_trans hij h.le
  le_stop := h.le_stop

theorem at_index (a : α) (hij : i ≤ j) (hj : j ≤ stop) {us : List Token}
    (h : between ts j stop = us) : Agrees ts i stop (a, j) (a, us) :=
  ⟨congrArg (a, ·) h.symm, hij, hj⟩

end Agrees

/-- A reader by index comes from `i` to `j` in a part that ends at `stop` where a reader of the
tokens of the part leaves `us`. -/
structure Reaches (ts : List Token) (i stop j : Nat) (us : List Token) : Prop where
  eq : us = between ts j stop
  le : i ≤ j
  le_stop : j ≤ stop

theorem Reaches.from_le {i i' j : Nat} {us : List Token} (h : Reaches ts i' stop j us)
    (hi : i ≤ i') : Reaches ts i stop j us :=
  ⟨h.eq, Nat.le_trans hi h.le, h.le_stop⟩

/-! ### Ranges -/

theorem tail_between {α : Type} (xs : List α) (i j : Nat) :
    (between xs i j).tail = between xs (i + 1) j := by
  rw [← List.drop_one, drop_between]

theorem Range.taken_between {i j k : Nat} (hij : i ≤ j) (hjk : j ≤ k) (hk : k ≤ ts.length) :
    Range.taken (between ts i k) (between ts j k) = .ofTokens (between ts i j) := by
  have hlen : (between ts i k).length - (between ts j k).length = j - i := by
    rw [length_between, length_between]
    omega
  obtain ⟨n, rfl⟩ := Nat.exists_eq_add_of_le hij
  rw [Range.taken, hlen, Nat.add_sub_cancel_left, take_between hjk]

/-- The range of what has been taken, by its first token and the one in front of the rest. -/
theorem Range.taken_eq {i j : Nat} {first last : Token} (hfirst : ts[i]? = some first)
    (hlast : ts[j - 1]? = some last) (hij : i < j) (hj : j ≤ stop) (hstop : stop ≤ ts.length) :
    Range.taken (first :: between ts (i + 1) stop) (between ts j stop) = ⟨first.start, last.stop⟩ := by
  rw [← between_cons hfirst (Nat.lt_of_lt_of_le hij hj), taken_between (Nat.le_of_lt hij) hj hstop,
    ofTokens_between hfirst hlast hij]

/-! ### Names and aliases -/

theorem nameTail_agrees {i : Nat} (hstop : stop ≤ ts.length) (hi : i ≤ stop) :
    Agrees ts i stop ((ofTokens ts).nameTail i stop) (nameTail (between ts i stop)) := by
  rw [TokenSlice.nameTail]
  split
  · next t ht =>
    obtain ⟨hlt, -, hcons⟩ := inside?_eq_some ht
    rw [hcons]
    split
    · next hdot =>
      split
      · next u hu =>
        obtain ⟨hlt', -, hcons'⟩ := inside?_eq_some hu
        rw [hcons', nameTail, if_pos hdot]
        split
        · exact (nameTail_agrees hstop hlt').map _ (by omega)
        · rw [← hcons']
          split
          · exact (nameTail_agrees hstop hlt).map _ (Nat.le_succ i)
          · exact .at_index none (Nat.le_succ i) hlt rfl
      · next hnone =>
        rw [(inside?_eq_none hstop hnone).2]
        simp only [nameTail, hdot, if_true]
        exact .at_index none (Nat.le_succ i) hlt (inside?_eq_none hstop hnone).2
    · next hdot =>
      rw [nameTail.eq_def]
      dsimp only
      rw [if_neg hdot]
      exact .at_index _ (Nat.le_refl i) hi hcons
  · next hnone =>
    rw [(inside?_eq_none hstop hnone).2, nameTail]
    exact .at_index _ (Nat.le_refl i) hi (inside?_eq_none hstop hnone).2
termination_by stop - i

theorem tableName?_agrees (hstop : stop ≤ ts.length) {i : Nat} (hi : i ≤ stop) :
    ∃ r, (ofTokens ts).tableName? i stop = some r ∧
      Agrees ts i stop r (tableName (between ts i stop)) ∧
      ∀ table, r.1 = some table →
        i < r.2 ∧ ∃ t, ts[i]? = some t ∧ table.range.start = t.start := by
  rw [TokenSlice.tableName?]
  split
  · next t ht =>
    obtain ⟨hlt, hget, hcons⟩ := inside?_eq_some ht
    rw [hcons, tableName]
    split
    · obtain ⟨heq, hle, hlast⟩ := nameTail_agrees (i := i + 1) hstop hlt
      rw [heq]
      generalize (ofTokens ts).nameTail (i + 1) stop = r at hle hlast
      obtain ⟨parts, next⟩ := r
      dsimp only at hle hlast ⊢
      obtain ⟨last, hgetLast⟩ := exists_getElem? (show next - 1 < ts.length by omega)
      cases parts with
      | none => exact ⟨_, rfl, .at_index none (by omega) hlast rfl, by simp⟩
      | some parts =>
          dsimp only
          rw [before?_eq (by omega), hgetLast, Range.taken_eq hget hgetLast hle hlast hstop]
          refine ⟨_, rfl, .at_index _ (by omega) hlast rfl, fun table htable => ⟨hle, t, hget, ?_⟩⟩
          rw [← Option.some.inj htable, TableRef.range_ofParts]
    · exact ⟨_, rfl, .at_index none (Nat.le_refl i) hi hcons, by simp⟩
  · next hnone =>
    rw [(inside?_eq_none hstop hnone).2, tableName]
    exact ⟨_, rfl, .at_index none (Nat.le_refl i) hi (inside?_eq_none hstop hnone).2, by simp⟩

theorem tableAlias_agrees (hstop : stop ≤ ts.length) {i : Nat} (hi : i ≤ stop) :
    Agrees ts i stop ((ofTokens ts).tableAlias i stop) (tableAlias (between ts i stop)) := by
  rw [TokenSlice.tableAlias]
  split
  · next t ht =>
    obtain ⟨hlt, -, hcons⟩ := inside?_eq_some ht
    rw [hcons, tableAlias.eq_def]
    dsimp only
    split
    · split
      · next a ha =>
        obtain ⟨hlt', -, hcons'⟩ := inside?_eq_some ha
        rw [hcons']
        dsimp only
        split
        · exact .at_index _ (by omega) hlt' rfl
        · split
          · exact .at_index _ (by omega) hlt' rfl
          · exact .at_index _ (by omega) hlt hcons'
      · next hnone =>
        rw [(inside?_eq_none hstop hnone).2]
        exact .at_index _ (by omega) hlt (inside?_eq_none hstop hnone).2
    · split
      · exact .at_index _ (by omega) hlt rfl
      · exact .at_index _ (Nat.le_refl i) hi hcons
  · next hnone =>
    rw [(inside?_eq_none hstop hnone).2, tableAlias]
    exact .at_index _ (Nat.le_refl i) hi (inside?_eq_none hstop hnone).2

/-! ### What stands behind a part -/

theorem inside?_eq_head? (hstop : stop ≤ ts.length) (i : Nat) :
    (ofTokens ts).inside? i stop = (between ts i stop).head? := by
  cases h : (ofTokens ts).inside? i stop with
  | some t => rw [(inside?_eq_some h).2.2]; rfl
  | none => rw [(inside?_eq_none hstop h).2]; rfl

theorem Cut.group (h : Cut ts lo stop) {i : Nat} {t : Token} (hlo : lo ≤ i) (hlt : i < stop)
    (hget : ts[i]? = some t) (hopen : t.isOpen) :
    ts[i]?.any Token.isOpen ∧ i < (ofTokens ts).skipGroup i ∧ (ofTokens ts).skipGroup i ≤ stop := by
  have hany : ts[i]?.any Token.isOpen := opens_at hget hopen
  obtain ⟨hbefore, hle, -⟩ := skipGroup_bounds hany
  exact ⟨hany, Nat.lt_of_lt_of_le hbefore hle, h.skip_le i hlo hlt hany⟩

theorem Cut.cons_tokens_after (h : Cut ts lo stop) {i : Nat} {t : Token} (hlo : lo ≤ i)
    (hlt : i < stop) (hget : ts[i]? = some t) (hopen : t.isOpen) :
    t :: (Group.after (between ts (i + 1) stop)).tokens =
      between ts i ((ofTokens ts).skipGroup i) := by
  obtain ⟨hany, hbefore, hskip⟩ := h.group hlo hlt hget hopen
  have happend := Group.tokens_append_rest (between ts (i + 1) stop)
  rw [h.after hlo hlt hany, ← between_append hbefore hskip] at happend
  rw [h.after hlo hlt hany, List.append_cancel_right happend, between_cons hget hbefore]

theorem Cut.isClosed_after (h : Cut ts lo stop) {i : Nat} (hlo : lo ≤ i) (hlt : i < stop)
    (hany : ts[i]?.any Token.isOpen) :
    (Group.after (between ts (i + 1) stop)).isClosed = ((ofTokens ts).closeOf? i).isSome := by
  rw [h.after hlo hlt hany, closeOf?_ofTokens, Group.isClosed]
  cases hclose : closeAt? ts i with
  | none => rfl
  | some j =>
      obtain ⟨t, ht, -⟩ := isClose_of_closeAt? hclose
      simp [ht]

/-- A group behind a token of a part that is no name begins in the part. -/
theorem Cut.any_isOpen (h : Cut ts lo stop) {i : Nat} {t : Token} (ht : ts[i]? = some t)
    (hlt : i < stop) (hname : t.isName = false) (hinsert : t.isKeyword .INSERT = false) :
    ts[i + 1]?.any Token.isOpen = startsOpen (between ts (i + 1) stop) := by
  rw [startsOpen, ← inside?_eq_head? h.stop_le, inside?]
  split
  · rfl
  · next hge =>
    obtain rfl : stop = i + 1 := by omega
    have hbehind := h.behindName
    rw [Nat.add_sub_cancel, ht] at hbehind
    simpa [hname, hinsert] using hbehind

/-- A group behind a keyword of a part other than `INSERT` begins in the part. -/
theorem Cut.any_isOpen_of_keyword (h : Cut ts lo stop) {i : Nat} {t : Token} {word : Keyword}
    (ht : ts[i]? = some t) (hlt : i < stop) (hkind : t.kind = .keyword word)
    (hword : word ≠ .INSERT) :
    ts[i + 1]?.any Token.isOpen = startsOpen (between ts (i + 1) stop) :=
  h.any_isOpen ht hlt (by simp [Token.isName, hkind]) (by simp [Token.isKeyword, hkind, hword])

/-! ### Hints and conditions -/

theorem isHintGroup?_eq {i : Nat} (hopen : ts[i]?.any Token.isOpen) :
    (ofTokens ts).isHintGroup? i =
      some (areHints (between ts (i + 1) ((ofTokens ts).stopOf i))) := by
  rw [isHintGroup?, groupInner?_eq hopen]
  rfl

theorem skipHints?_reaches (h : Cut ts lo stop) {i : Nat} (hlo : lo ≤ i) (hi : i ≤ stop) :
    ∃ j, (ofTokens ts).skipHints? i stop = some j ∧
      Reaches ts i stop j (skipHints (between ts i stop)) := by
  rw [TokenSlice.skipHints?]
  split
  · next t ht =>
    obtain ⟨hlt, hget, hcons⟩ := inside?_eq_some ht
    rw [hcons, skipHints, startsOpen, ← inside?_eq_head? h.stop_le]
    split
    · next hwith =>
      obtain ⟨u, hu, hopen⟩ := (Option.any_eq_true _ _).1 (Bool.and_eq_true_iff.1 hwith).2
      obtain ⟨hlt', hget', hcons'⟩ := inside?_eq_some hu
      obtain ⟨hany, hbefore, hskip⟩ := h.group (i := i + 1) (by omega) hlt' hget' hopen
      obtain ⟨j, hj, hreach⟩ := skipHints?_reaches h (i := (ofTokens ts).skipGroup (i + 1)) (by omega) hskip
      rw [dif_pos (by omega), hcons', List.tail_cons, h.after (by omega) hlt' hany]
      exact ⟨j, hj, hreach.from_le (by omega)⟩
    · by_cases hopen : t.isOpen
      · obtain ⟨hany, hbefore, hskip⟩ := h.group hlo hlt hget hopen
        rw [if_pos hopen, isHintGroup?_eq hany, Option.bind_some, h.after hlo hlt hany, hopen,
          Bool.true_and, dif_pos hbefore]
        split
        · obtain ⟨j, hj, hreach⟩ :=
            skipHints?_reaches h (i := (ofTokens ts).skipGroup i) (by omega) hskip
          exact ⟨j, hj, hreach.from_le (by omega)⟩
        · exact ⟨i, rfl, hcons.symm, Nat.le_refl i, hi⟩
      · simp only [hopen, Bool.false_and, Bool.false_eq_true, if_false]
        exact ⟨i, rfl, hcons.symm, Nat.le_refl i, hi⟩
  · next hnone =>
    have hnil := (inside?_eq_none h.stop_le hnone).2
    rw [hnil, skipHints]
    exact ⟨i, rfl, hnil.symm, Nat.le_refl i, hi⟩
termination_by stop - i

theorem Cut.startsJoin_eq (h : Cut ts lo stop) {i : Nat} {t : Token} (ht : ts[i]? = some t)
    (hlt : i < stop) :
    Region.startsJoin t ts[i + 1]?.toList = Region.startsJoin t (between ts (i + 1) stop) := by
  have hhead : startsOpen ts[i + 1]?.toList = ts[i + 1]?.any Token.isOpen := by
    cases ts[i + 1]? <;> rfl
  rw [Region.startsJoin, Region.startsJoin, hhead]
  by_cases hside : t.isAnyKeyword [.LEFT, .RIGHT]
  · obtain ⟨word, hword, hkind⟩ := Token.exists_kind_of_isAnyKeyword hside
    rw [h.any_isOpen_of_keyword ht hlt hkind (by rintro rfl; simp at hword)]
  · simp [hside]

theorem skipCondition?_reaches (h : Cut ts lo stop) {i : Nat} (hlo : lo ≤ i) (hi : i ≤ stop) :
    ∃ j, (ofTokens ts).skipCondition? i stop = some j ∧
      Reaches ts i stop j (skipCondition (between ts i stop)) := by
  rw [TokenSlice.skipCondition?]
  split
  · next t ht =>
    obtain ⟨hlt, hget, hcons⟩ := inside?_eq_some ht
    rw [hcons, skipCondition, tokens_ofTokens, h.startsJoin_eq hget hlt]
    split
    · next hopen =>
      obtain ⟨hany, hbefore, hskip⟩ := h.group hlo hlt hget hopen
      obtain ⟨j, hj, hreach⟩ :=
        skipCondition?_reaches h (i := (ofTokens ts).skipGroup i) (by omega) hskip
      rw [dif_pos (by omega), h.after hlo hlt hany]
      exact ⟨j, hj, hreach.from_le (by omega)⟩
    · split
      · exact ⟨i, rfl, hcons.symm, Nat.le_refl i, hi⟩
      · obtain ⟨j, hj, hreach⟩ := skipCondition?_reaches h (i := i + 1) (by omega) hlt
        exact ⟨j, hj, hreach.from_le (Nat.le_succ i)⟩
  · next hnone =>
    have hnil := (inside?_eq_none h.stop_le hnone).2
    rw [hnil, skipCondition, Nat.min_eq_left hi]
    exact ⟨i, rfl, hnil.symm, Nat.le_refl i, hi⟩
termination_by stop - i

/-! ### Tables -/

theorem columnNames?_agrees (h : Cut ts lo stop) {i : Nat} (hlo : lo ≤ i) (hi : i ≤ stop)
    (mayHave : Bool) :
    ∃ r, (ofTokens ts).columnNames? mayHave i stop = some r ∧
      Agrees ts i stop r
        (if mayHave then columnNames (between ts i stop) else ([], between ts i stop)) := by
  rw [TokenSlice.columnNames?]
  cases mayHave with
  | false => exact ⟨_, rfl, .at_index _ (Nat.le_refl i) hi rfl⟩
  | true =>
      rw [if_pos rfl, Bool.true_and]
      cases ht : (ofTokens ts).inside? i stop with
      | some t =>
          obtain ⟨hlt, hget, hcons⟩ := inside?_eq_some ht
          rw [hcons, columnNames, Option.any_some]
          split
          · next hopen =>
            obtain ⟨hany, hbefore, hskip⟩ := h.group hlo hlt hget hopen
            rw [groupInner?_eq hany, h.after hlo hlt hany]
            exact ⟨_, rfl, .at_index _ (by omega) hskip rfl⟩
          · exact ⟨_, rfl, .at_index _ (Nat.le_refl i) hi hcons⟩
      | none =>
          rw [(inside?_eq_none h.stop_le ht).2, columnNames]
          exact ⟨_, rfl, .at_index _ (Nat.le_refl i) hi (inside?_eq_none h.stop_le ht).2⟩

/-- The arguments of a function begin at the index if they are the first of the tokens from there
on. -/
theorem isCall?_eq (h : Cut ts lo stop) {i : Nat} (hlo : lo ≤ i) :
    ∃ isCall, (ofTokens ts).isCall? i stop = some isCall ∧
      callArguments (between ts i stop) =
        (if isCall then some (between ts ((ofTokens ts).skipGroup i) stop) else none) ∧
      (isCall → i < (ofTokens ts).skipGroup i ∧ (ofTokens ts).skipGroup i ≤ stop) := by
  rw [TokenSlice.isCall?]
  cases ht : (ofTokens ts).inside? i stop with
  | some t =>
      obtain ⟨hlt, hget, hcons⟩ := inside?_eq_some ht
      rw [hcons, callArguments]
      by_cases hopen : t.isOpen
      · obtain ⟨hany, hbefore, hskip⟩ := h.group hlo hlt hget hopen
        rw [Option.any_some, if_pos hopen, isHintGroup?_eq hany, h.after hlo hlt hany, hopen,
          Bool.true_and]
        exact ⟨_, rfl, rfl, fun _ => ⟨hbefore, hskip⟩⟩
      · rw [Option.any_some, if_neg hopen]
        simp only [hopen, Bool.false_and, Bool.false_eq_true, if_false]
        exact ⟨false, rfl, rfl, by simp⟩
  | none =>
      rw [(inside?_eq_none h.stop_le ht).2]
      exact ⟨false, rfl, rfl, by simp⟩

theorem namedTable?_agrees (h : Cut ts lo stop) {i : Nat} (hlo : lo ≤ i) (hi : i ≤ stop) :
    ∃ r, (ofTokens ts).namedTable? i stop = some r ∧
      Agrees ts i stop r (namedTable (between ts i stop)) := by
  obtain ⟨⟨table, next⟩, hname, ⟨heq, hle, hlast⟩, hstart⟩ := tableName?_agrees h.stop_le hi
  rw [TokenSlice.namedTable?, hname, namedTable, heq]
  cases table with
  | none => exact ⟨_, rfl, .at_index none hle hlast rfl⟩
  | some table =>
      obtain ⟨hlt, first, hget, htable⟩ := hstart table rfl
      dsimp only at hle hlast hlt ⊢
      obtain ⟨isCall, hisCall, harguments, hbounds⟩ := isCall?_eq h (i := next) (by omega)
      have hsome : (callArguments (between ts next stop)).isSome = isCall := by
        rw [harguments]; cases isCall <;> rfl
      have hbehind : (callArguments (between ts next stop)).getD (between ts next stop) =
          between ts (if isCall then (ofTokens ts).skipGroup next else next) stop := by
        rw [harguments]; cases isCall <;> rfl
      have hcall : next ≤ (if isCall then (ofTokens ts).skipGroup next else next) ∧
          (if isCall then (ofTokens ts).skipGroup next else next) ≤ stop := by
        cases isCall with
        | true => exact ⟨Nat.le_of_lt (hbounds rfl).1, (hbounds rfl).2⟩
        | false => exact ⟨Nat.le_refl next, hlast⟩
      obtain ⟨j, hj, heqj, hlej, hlastj⟩ := skipHints?_reaches h (by omega) hcall.2
      have halias := tableAlias_agrees h.stop_le hlastj
      obtain ⟨⟨columns, k⟩, hk, heqk, hlek, hlastk⟩ := columnNames?_agrees h
        (i := ((ofTokens ts).tableAlias j stop).2) (by have := halias.le; omega) halias.le_stop
        (((ofTokens ts).tableAlias j stop).1.isSome && isCall)
      have hle' := halias.le
      dsimp only at hlek hlastk
      obtain ⟨after, hafter, heqa, hlea, hlasta⟩ := skipHints?_reaches h (i := k) (by omega) hlastk
      have hstop := h.stop_le
      obtain ⟨last, hgetLast⟩ := exists_getElem? (show after - 1 < ts.length by omega)
      have hrange : Range.taken (between ts i stop) (between ts after stop) =
          ⟨first.start, last.stop⟩ := by
        rw [between_cons hget (by omega), Range.taken_eq hget hgetLast (by omega) hlasta hstop]
      rw [hbehind, heqj, halias.eq, hsome, heqk, heqa, hrange]
      simp only [hisCall, hj, hk, hafter, Option.bind_eq_bind, Option.bind_some,
        Nat.max_eq_left (show i + 1 ≤ after by omega), before?_eq (show 0 < after by omega),
        hgetLast, htable]
      exact ⟨_, rfl, .at_index _ (by omega) hlasta rfl⟩

/-! ### Lists of tables -/

namespace Sources

/-- What was found in tokens that end at an index, with its groups by their indices. -/
def byIndex (stop : Nat) (found : Sources) : Sources :=
  { found with groups := found.groups.map (stop - ·) }

theorem byIndex_append (stop : Nat) (a b : Sources) :
    (a ++ b).byIndex stop = a.byIndex stop ++ b.byIndex stop :=
  congrArg (Sources.mk _ _ _) List.map_append

theorem byIndex_single {i stop : Nat} (h : i ≤ stop) (tables : List TableRef)
    (subqueries : List Subquery) (issues : List Issue) :
    (Sources.mk tables subqueries issues [stop - i]).byIndex stop =
      ⟨tables, subqueries, issues, [i]⟩ := by
  simp [byIndex, Nat.sub_sub_self h]

/-- What is found in front of other tokens has the same indices as on its own. -/
theorem byIndex_inFrontOf {inner stop : Nat} (h : inner ≤ stop) (found : Sources) :
    (found.inFrontOf (stop - inner)).byIndex stop = found.byIndex inner := by
  have hrank : ∀ rank, stop - (rank + (stop - inner)) = inner - rank := fun rank => by omega
  simp only [byIndex, inFrontOf, List.map_map, Function.comp_def, hrank]

end Sources

/-- The rank of a token of a part from its index. -/
theorem length_cons_between {t : Token} {i : Nat} (hlt : i < stop) (hstop : stop ≤ ts.length) :
    (t :: between ts (i + 1) stop).length = stop - i := by
  rw [List.length_cons, length_between, Nat.min_eq_left hstop]
  omega

section

variable {nested? : List Token → Option Statement} {nested : List Token → Statement}
  {clauseOf : Nat → Option Clause} {clause : Clause}

theorem derivedTable?_eq (h : Cut ts lo stop) (hnested : ∀ us, nested? us = some (nested us))
    {i : Nat} {t : Token} (hlo : lo ≤ i) (hlt : i < stop) (hget : ts[i]? = some t)
    (hopen : t.isOpen) (hclause : clauseOf i = some clause) :
    ∃ table found next,
      (ofTokens ts).derivedTable? nested? clauseOf i stop =
        some (table, found.byIndex stop, next) ∧
      derivedTable nested clause t (between ts (i + 1) stop) =
        (table, found, between ts next stop) ∧ i < next ∧ next ≤ stop := by
  obtain ⟨hany, hbefore, hskip⟩ := h.group hlo hlt hget hopen
  have halias := tableAlias_agrees h.stop_le hskip
  obtain ⟨⟨columns, next⟩, hcolumns, heq, hle, hlast⟩ := columnNames?_agrees h
    (i := ((ofTokens ts).tableAlias ((ofTokens ts).skipGroup i) stop).2)
    (by have := halias.le; omega) halias.le_stop
    ((ofTokens ts).tableAlias ((ofTokens ts).skipGroup i) stop).1.isSome
  have hle' := halias.le
  have hstop := h.stop_le
  dsimp only at hle hlast
  obtain ⟨last, hgetLast⟩ := exists_getElem? (show next - 1 < ts.length by omega)
  have hrange : Range.taken (t :: between ts (i + 1) stop) (between ts next stop) =
      ⟨t.start, last.stop⟩ := Range.taken_eq hget hgetLast (by omega) hlast hstop
  have htokens := h.cons_tokens_after hlo hlt hget hopen
  have hstart : (Range.ofTokens (between ts i ((ofTokens ts).skipGroup i))).start = t.start := by
    rw [← htokens, Range.ofTokens_cons]
  rw [TokenSlice.derivedTable?, derivedTable, htokens, h.isClosed_after hlo hlt hany]
  simp only [h.after hlo hlt hany, halias.eq, heq, groupInner?_eq hany, hnested,
    groupRange?_eq hany, hcolumns, Option.bind_eq_bind, Option.bind_some,
    before?_eq (show 0 < next by omega), hgetLast, hclause, hrange, hstart]
  rw [length_cons_between hlt hstop]
  cases ((ofTokens ts).tableAlias ((ofTokens ts).skipGroup i) stop).1 with
  | none =>
      refine ⟨_, _, _, ?_, rfl, by omega, hlast⟩
      rw [Sources.byIndex_single (Nat.le_of_lt hlt)]
      rfl
  | some name =>
      refine ⟨_, _, _, ?_, rfl, by omega, hlast⟩
      rw [Sources.byIndex_single (Nat.le_of_lt hlt)]
      rfl

/-- Of the tokens behind a parenthesis, those that its group does not hold. -/
theorem length_sub_inner {i : Nat} (hstop : stop ≤ ts.length) (hany : ts[i]?.any Token.isOpen)
    (hinside : (ofTokens ts).stopOf i ≤ stop) :
    (between ts (i + 1) stop).length - (between ts (i + 1) ((ofTokens ts).stopOf i)).length =
      stop - (ofTokens ts).stopOf i := by
  have hbounds := skipGroup_bounds hany
  rw [length_between, length_between]
  omega

/-- What is read behind a `PIVOT` at an index, with its parentheses or without. -/
theorem behindPivot_eq (h : Cut ts lo stop) {i : Nat} {t : Token} (hlo : lo ≤ i) (hlt : i < stop)
    (hget : ts[i]? = some t) {word : Keyword} (hkind : t.kind = .keyword word)
    (hword : word ≠ .INSERT) :
    i < (ofTokens ts).behindPivot (i + 1) stop ∧
      between ts ((ofTokens ts).behindPivot (i + 1) stop) stop =
        behindPivot (between ts (i + 1) stop) := by
  have hstop := h.stop_le
  have hahead := h.any_isOpen_of_keyword hget hlt hkind hword
  rw [TokenSlice.behindPivot, behindPivot]
  split
  · next hopens =>
    rw [startsOpen, ← inside?_eq_head? hstop] at hopens
    obtain ⟨u, hu, hopen⟩ := (Option.any_eq_true _ _).1 hopens
    obtain ⟨hlt', hget', hcons'⟩ := inside?_eq_some hu
    obtain ⟨hany, hbefore, hskip⟩ := h.group (i := i + 1) (by omega) hlt' hget' hopen
    have halias := tableAlias_agrees hstop hskip
    rw [hcons', List.tail_cons, h.after (by omega) hlt' hany, halias.eq]
    exact ⟨by have := halias.le; omega, rfl⟩
  · next hopens =>
    rw [← hahead] at hopens
    have hnone : closeAt? ts (i + 1) = none := by rw [closeAt?, if_neg hopens]
    have halias : (ofTokens ts).tableAlias ts.length stop = (none, ts.length) := by
      rw [TokenSlice.tableAlias, inside?, if_neg (Nat.not_lt.2 hstop)]
    rw [skipGroup_of_none hnone, halias]
    exact ⟨by omega, between_of_le hstop⟩

/-- The words that a list of tables steps over without looking at what follows. -/
theorem flat_of_joins {t : Token}
    (h : t.kind = .comma || t.isAnyKeyword (.APPLY :: Region.joinWords)) :
    t.isKeyword .ON = false ∧ t.isKeyword .AS = false ∧ t.isAnyKeyword [.PIVOT, .UNPIVOT] = false ∧
      t.isOpen = false ∧ t.isName = false := by
  rcases Bool.or_eq_true_iff.1 h with hcomma | hjoin
  · have hkind : t.kind = .comma := of_decide_eq_true hcomma
    simp [Token.isKeyword, Token.isAnyKeyword, Token.isOpen, Token.isName, hkind]
  · obtain ⟨word, hword, hkind⟩ := Token.exists_kind_of_isAnyKeyword hjoin
    have hother : word ≠ .ON ∧ word ≠ .AS ∧ word ∉ [.PIVOT, .UNPIVOT] := by
      revert hword
      cases word <;> decide
    simpa [Token.isKeyword, Token.isAnyKeyword, Token.isOpen, Token.isName, hkind] using hother

/-- A table that begins with a name is read from at least one token. -/
theorem namedTable?_moves {lo stop i : Nat} {t : Token} {us : List Token} (h : Cut ts lo stop)
    (hlo : lo ≤ i) (hlt : i < stop) (hcons : between ts i stop = t :: us) (hname : t.isName) :
    ∃ table next, (ofTokens ts).namedTable? i stop = some (table, next) ∧
      namedTable (t :: us) = (table, between ts next stop) ∧ i < next := by
  obtain ⟨⟨table, next⟩, hnamed, heq, hle, hlast⟩ := namedTable?_agrees h hlo (Nat.le_of_lt hlt)
  rw [hcons] at heq
  have hshort : (namedTable (t :: us)).2.length < (t :: us).length := length_namedTable_lt hname
  rw [heq, ← hcons, length_between, length_between, Nat.min_eq_left h.stop_le] at hshort
  dsimp only at hle hlast
  exact ⟨table, next, hnamed, heq, by omega⟩

theorem tableList?_eq {lo stop i : Nat} (h : Cut ts lo stop)
    (hnested : ∀ us, nested? us = some (nested us))
    (hclause : ∀ k, lo ≤ k → k < stop → clauseOf k = some clause) (hlo : lo ≤ i) :
    (ofTokens ts).tableList? nested? clauseOf i stop =
      some ((tableList nested clause (between ts i stop)).byIndex stop) := by
  rw [TokenSlice.tableList?]
  split
  · next t ht =>
    obtain ⟨hlt, hget, hcons⟩ := inside?_eq_some ht
    rw [hcons, tableList]
    split
    · next hjoins =>
      obtain ⟨hon, has, hpivot, hopen, hname⟩ := flat_of_joins hjoins
      simp only [hon, has, hpivot, hopen, hname, Bool.false_eq_true, if_false, dif_neg,
        not_false_eq_true]
      exact tableList?_eq h hnested hclause (by omega)
    split
    · obtain ⟨j, hj, heq, hle, -⟩ := skipCondition?_reaches h (i := i + 1) (by omega) hlt
      rw [hj, heq, Option.bind_some, dif_pos (Nat.lt_of_succ_le hle)]
      exact tableList?_eq h hnested hclause (by omega)
    split
    · rw [tableList?_eq h hnested hclause (i := i + 2) (by omega), tail_between,
        Sources.byIndex_append]
      rfl
    split
    · next hpivot =>
      obtain ⟨word, hword, hkind⟩ := Token.exists_kind_of_isAnyKeyword hpivot
      obtain ⟨hbefore, heq⟩ := behindPivot_eq h hlo hlt hget hkind (by rintro rfl; simp at hword)
      rw [dif_pos hbefore, ← heq]
      exact tableList?_eq h hnested hclause (by omega)
    split
    · next hopen =>
      obtain ⟨hany, hbefore, hskip⟩ := h.group hlo hlt hget hopen
      have hinside := (skipGroup_bounds hany).2.1
      rw [isQueryGroup?_eq hget, Option.bind_some, hopen, Bool.true_and]
      dsimp only
      split
      · next hquery =>
        obtain ⟨table, found, next, hderived, heq, hle, hlast⟩ :=
          derivedTable?_eq h hnested hlo hlt hget hopen (hclause i hlo hlt)
        rw [hderived, heq, h.after hlo hlt hany, if_pos hquery, Option.bind_some,
          Nat.max_eq_left hle]
        dsimp only
        rw [tableList?_eq h hnested hclause (i := next) (by omega), Sources.byIndex_append,
          Sources.byIndex_append]
        rfl
      · next hquery =>
        have hmore := length_sub_inner h.stop_le hany (Nat.le_trans hinside hskip)
        rw [h.after hlo hlt hany, if_neg hquery, Nat.max_eq_left hbefore,
          Nat.min_eq_left (Nat.le_trans hinside hskip),
          tableList?_eq (Cut.inner ts i) hnested
            (fun k hk hkstop => hclause k (by omega) (by omega)) (Nat.le_refl (i + 1)),
          tableList?_eq h hnested hclause (i := (ofTokens ts).skipGroup i) (by omega),
          Sources.byIndex_append, hmore, Sources.byIndex_inFrontOf (Nat.le_trans hinside hskip)]
        rfl
    split
    · next hname =>
      obtain ⟨table, next, hnamed, heq, hbefore⟩ := namedTable?_moves h hlo hlt hcons hname
      rw [hnamed, heq, Option.bind_some]
      dsimp only
      rw [Nat.max_eq_left hbefore, tableList?_eq h hnested hclause (i := next) (by omega),
        Sources.byIndex_append]
      rfl
    · exact tableList?_eq h hnested hclause (by omega)
  · next hnone =>
    rw [(inside?_eq_none h.stop_le hnone).2, tableList]
    rfl
termination_by stop - i

/-! ### Targets -/

theorem skipRowCount_reaches (h : Cut ts lo stop) {i : Nat} {t : Token} (hlo : lo ≤ i)
    (hlt : i < stop) (hget : ts[i]? = some t) (htop : t.isKeyword .TOP) :
    Reaches ts (i + 1) stop ((ofTokens ts).skipRowCount (i + 1))
      (skipRowCount (between ts (i + 1) stop)) := by
  rw [TokenSlice.skipRowCount]
  cases hu : (ofTokens ts).inside? (i + 1) stop with
  | some u =>
      obtain ⟨hlt', hget', hcons'⟩ := inside?_eq_some hu
      rw [hcons', skipRowCount, is_eq hget', is_eq hget']
      split
      · next hopen =>
        obtain ⟨hany, hbefore, hskip⟩ := h.group (i := i + 1) (by omega) hlt' hget' hopen
        rw [h.after (by omega) hlt' hany]
        exact ⟨rfl, Nat.le_of_lt hbefore, hskip⟩
      · simp only [decide_eq_true_eq]
        split
        · exact ⟨rfl, Nat.le_succ _, hlt'⟩
        · exact ⟨hcons'.symm, Nat.le_refl _, hlt⟩
  | none =>
      obtain ⟨hge, hnil⟩ := inside?_eq_none h.stop_le hu
      obtain rfl : stop = i + 1 := by omega
      have hahead := h.any_isOpen_of_keyword hget hlt (Token.kind_of_isKeyword htop) (by decide)
      rw [hnil] at hahead
      rw [hnil, skipRowCount, is, is, tokens_ofTokens, hahead, h.notNumber]
      exact ⟨hnil.symm, Nat.le_refl _, Nat.le_refl _⟩

theorem skipTargetWords?_reaches (h : Cut ts lo stop) {i : Nat} (hlo : lo ≤ i) (hi : i ≤ stop) :
    ∃ j, (ofTokens ts).skipTargetWords? i stop = some j ∧
      Reaches ts i stop j (skipTargetWords (between ts i stop)) := by
  rw [TokenSlice.skipTargetWords?]
  split
  · next t ht =>
    obtain ⟨hlt, hget, hcons⟩ := inside?_eq_some ht
    rw [hcons, skipTargetWords]
    split
    · obtain ⟨j, hj, hreach⟩ := skipTargetWords?_reaches h (i := i + 1) (by omega) hlt
      exact ⟨j, hj, hreach.from_le (Nat.le_succ i)⟩
    split
    · next htop =>
      obtain ⟨heq, hle, hlast⟩ := skipRowCount_reaches h hlo hlt hget htop
      obtain ⟨j, hj, hreach⟩ := skipTargetWords?_reaches h (by omega) hlast
      rw [dif_pos (Nat.lt_of_succ_le hle), heq]
      exact ⟨j, hj, hreach.from_le (by omega)⟩
    · exact ⟨i, rfl, hcons.symm, Nat.le_refl i, hi⟩
  · next hnone =>
    have hnil := (inside?_eq_none h.stop_le hnone).2
    rw [hnil, skipTargetWords]
    exact ⟨i, rfl, hnil.symm, Nat.le_refl i, hi⟩
termination_by stop - i

theorem targetTable?_eq (h : Cut ts lo stop) (hnested : ∀ us, nested? us = some (nested us))
    (hclause : ∀ k, lo ≤ k → k < stop → clauseOf k = some .target) {i : Nat} (hlo : lo ≤ i)
    (hi : i ≤ stop) :
    (ofTokens ts).targetTable? nested? clauseOf i stop =
      some ((targetTable nested (between ts i stop)).map id (Sources.byIndex stop)) := by
  obtain ⟨first, hfirst, heq, hle, hlast⟩ := skipTargetWords?_reaches h hlo hi
  rw [TokenSlice.targetTable?, targetTable, hfirst, heq, Option.bind_some]
  cases ht : (ofTokens ts).inside? first stop with
  | some t =>
      obtain ⟨hlt, hget, hcons⟩ := inside?_eq_some ht
      rw [hcons, Option.any_some]
      dsimp only
      split
      · next hopen =>
        obtain ⟨hany, hbefore, hskip⟩ := h.group (i := first) (by omega) hlt hget hopen
        have hinside := (skipGroup_bounds hany).2.1
        rw [isQueryGroup?_eq hget, Option.bind_some, hopen, Bool.true_and,
          h.after (by omega) hlt hany]
        dsimp only
        split
        · obtain ⟨table, found, next, hderived, heq', -, -⟩ :=
            derivedTable?_eq h hnested (i := first) (by omega) hlt hget hopen
              (hclause first (by omega) hlt)
          rw [hderived, heq']
          rfl
        · have hmore := length_sub_inner h.stop_le hany (Nat.le_trans hinside hskip)
          rw [Nat.min_eq_left (Nat.le_trans hinside hskip),
            tableList?_eq (Cut.inner ts first) hnested
              (fun k hk hkstop => hclause k (by omega) (by omega)) (Nat.le_refl (first + 1)),
            hmore, Prod.map_apply, Sources.byIndex_inFrontOf (Nat.le_trans hinside hskip)]
          rfl
      · obtain ⟨⟨table, next⟩, hnamed, heq', -, -⟩ := namedTable?_agrees h (i := first) (by omega) hlast
        rw [hnamed, ← hcons, heq']
        rfl
  | none =>
      have hnil := (inside?_eq_none h.stop_le ht).2
      obtain ⟨⟨table, next⟩, hnamed, heq', -, -⟩ := namedTable?_agrees h (i := first) (by omega) hlast
      have hnamedNil : namedTable [] = (none, []) := by simp [namedTable, tableName]
      rw [hnil, hnamedNil] at heq'
      obtain rfl : table = none := (Prod.mk.inj heq').1.symm
      rw [hnil, hnamed]
      rfl

end

end Tsql
