import Tsql.Indexed.Column
import Tsql.Proofs.Indexed.Source

/-!
The columns that are read by index are those of the readers of token lists.
-/

namespace Tsql

open TokenSlice

variable {ts : List Token} {lo stop : Nat}

/-! ### Groups that are all of the tokens -/

theorem drop_eq_between {α : Type} (xs : List α) (i : Nat) : xs.drop i = between xs i xs.length :=
  (between_length xs i).symm

/-- A group is all that is left of the tokens if it ends at the last of them. -/
theorem Group.isWhole_eq {i : Nat} (hopen : ts[i]?.any Token.isOpen) :
    ((after (ts.drop (i + 1))).isClosed && (after (ts.drop (i + 1))).rest.isEmpty) =
      decide (closeAt? ts i = some (ts.length - 1)) := by
  have hcut := Cut.length ts i
  have hlt : i < ts.length := by
    obtain ⟨t, ht, -⟩ := (Option.any_eq_true _ _).1 hopen
    exact (List.getElem?_eq_some_iff.1 ht).1
  rw [drop_eq_between, hcut.isClosed_after (Nat.le_refl i) hlt hopen,
    hcut.after (Nat.le_refl i) hlt hopen, closeOf?_ofTokens]
  cases hclose : closeAt? ts i with
  | none => simp
  | some j =>
      have hj := (closeAt?_eq_some hclose).2
      have hlen : (between ts (j + 1) ts.length).isEmpty = decide (j = ts.length - 1) := by
        rw [Bool.eq_iff_iff, List.isEmpty_iff_length_eq_zero, length_between, decide_eq_true_eq]
        omega
      rw [skipGroup_of_closeAt? hclose]
      simp [hlen]

theorem Group.inner_of_closeAt? {i j : Nat} (h : closeAt? ts i = some j) :
    (after (ts.drop (i + 1))).inner = between ts (i + 1) j := by
  obtain ⟨hopen, hj⟩ := closeAt?_eq_some h
  rw [drop_eq_between, (Cut.length ts i).after (Nat.le_refl i) (by omega) hopen, stopOf_ofTokens, h]
  rfl

namespace Indexed

/-! ### Casts -/

theorem lastAs?_eq (xs : List Token) {us : List Token} {depth i : Nat} (h : xs.drop i = us) :
    behindLastAs? depth us = (lastAs? depth i us).map fun k => xs.drop (k + 1) := by
  induction us generalizing depth i with
  | nil => rfl
  | cons t us ih =>
      have hrest : xs.drop (i + 1) = us := by rw [← List.drop_drop, h]; rfl
      rw [behindLastAs?, lastAs?, ih hrest]
      cases lastAs? (t.depthAfter depth) (i + 1) us with
      | some k => rfl
      | none =>
          split
          · simp [hrest]
          · rfl

theorem lastAs?_lt {us : List Token} {depth i k : Nat} (h : lastAs? depth i us = some k) :
    k < i + us.length := by
  induction us generalizing depth i with
  | nil => contradiction
  | cons t us ih =>
      rw [lastAs?] at h
      rw [List.length_cons]
      rcases Option.or_eq_some_iff.1 h with hlater | ⟨-, hhere⟩
      · have := ih hlater
        omega
      · split at hhere
        · cases hhere
          omega
        · contradiction

theorem castTarget?_eq {function : Token}
    (h : ["CAST", "TRY_CAST", "CONVERT", "TRY_CONVERT"].any function.isWord)
    (arguments : List Token) :
    castTarget? function arguments = some (castTarget function arguments) := by
  rw [castTarget?, castTarget]
  split
  · have hlast : behindLastAs? 0 arguments =
        (lastAs? 0 0 arguments).map fun k => arguments.drop (k + 1) := lastAs?_eq arguments rfl
    rw [hlast]
    cases hk : lastAs? 0 0 arguments with
    | none => rfl
    | some k =>
        have hlt := lastAs?_lt hk
        have hpart : between? arguments (k + 1) arguments.length =
            some (arguments.drop (k + 1)) := by
          rw [between?_eq (by omega) (Nat.le_refl _), between_length]
        exact hpart
  · next hcast =>
    have hor : ((function.isWord "CAST" || function.isWord "TRY_CAST") ||
        (function.isWord "CONVERT" || function.isWord "TRY_CONVERT")) = true := by
      simpa [Bool.or_assoc] using h
    have hconvert := (Bool.or_eq_true_iff.1 hor).resolve_left hcast
    rw [splitTop?_eq, if_pos hconvert]
    rfl

theorem castType?_eq (expression : List Token) :
    castType? expression = some (Tsql.castType? expression) := by
  rw [castType?.eq_def]
  cases expression with
  | nil => rfl
  | cons function rest =>
      dsimp only
      split
      · next hword =>
        rw [ofTokens?_eq, difference?_eq (by simp)]
        simp only [Option.bind_eq_bind, Option.bind_some, closeOf?_ofTokens]
        cases rest with
        | nil => rfl
        | cons t rest =>
            have hget : (function :: t :: rest)[1]? = some t := rfl
            rw [Tsql.castType?]
            by_cases hopen : t.isOpen
            · have hany : (function :: t :: rest)[1]?.any Token.isOpen := hopen
              have hwhole := Group.isWhole_eq hany
              rw [show (function :: t :: rest).drop (1 + 1) = rest from rfl] at hwhole
              rw [hopen, Bool.true_and, hwhole]
              by_cases hclose : closeAt? (function :: t :: rest) 1 =
                  some ((function :: t :: rest).length - 1)
              · have hinner := Group.inner_of_closeAt? hclose
                have hbounds := (closeAt?_eq_some hclose).2
                rw [show (function :: t :: rest).drop (1 + 1) = rest from rfl] at hinner
                rw [if_pos hclose, if_pos (decide_eq_true hclose), hinner,
                  between?_eq (by omega) (by omega), Option.bind_some, castTarget?_eq hword,
                  Option.bind_some]
                cases castTarget function _ with
                | nil => rfl
                | cons => rfl
              · rw [if_neg hclose, if_neg (by simpa using hclose)]
                rfl
            · have hclose : closeAt? (function :: t :: rest) 1 = none := by
                rw [closeAt?, if_neg (by simpa using hopen)]
              rw [if_neg (by simp [hclose]), if_neg (by simp [hopen])]
              rfl
      · next hword =>
        have htarget (arguments : List Token) : castTarget function arguments = [] := by
          simp only [List.any_cons, List.any_nil, Bool.or_false, Bool.or_eq_true, not_or] at hword
          simp [castTarget, hword]
        cases rest with
        | nil => rfl
        | cons t rest => simp [Tsql.castType?, htarget]

/-! ### Items of a select list -/

theorem withoutLast?_eq (front back : List Token) :
    withoutLast? (front ++ back) back.length = some front := by
  have hlen : (front ++ back).length - back.length = front.length := by simp
  rw [withoutLast?, difference?_eq (by simp), hlen, Option.bind_some,
    between?_eq (Nat.zero_le _) (by simp), between, List.take_left]
  rfl

theorem splitAlias?_eq (item : List Token) : splitAlias? item = some (splitAlias item) := by
  rw [splitAlias?, splitAlias]
  rcases hreverse : item.reverse with _ | ⟨last, _ | ⟨before, rest⟩⟩
  · rfl
  · rfl
  · have hitem : item = (rest.reverse ++ [before]) ++ [last] := by
      rw [← List.reverse_reverse item, hreverse]
      simp
    have hone : withoutLast? item 1 = some (before :: rest).reverse := by
      rw [hitem, List.reverse_cons]
      exact withoutLast?_eq (rest.reverse ++ [before]) [last]
    have htwo : withoutLast? item 2 = some rest.reverse := by
      rw [hitem, List.append_assoc]
      exact withoutLast?_eq rest.reverse [before, last]
    have hlen : 3 ≤ item.length ↔ (!rest.isEmpty) = true := by
      rw [hitem]
      cases rest <;> simp
    dsimp only
    rw [hone, htwo]
    simp only [hlen, Bool.and_eq_true, decide_eq_true_eq, Option.map_some]
    grind

theorem itemParts?_eq (item : List Token) : itemParts? item = some (Tsql.itemParts? item) := by
  rw [itemParts?.eq_def, Tsql.itemParts?.eq_def]
  cases item with
  | nil => rfl
  | cons t rest =>
      cases rest with
      | nil => 
        dsimp only
        split
        · rfl
        · rw [splitAlias?_eq]
          simp [splitAlias]
      | cons op expression =>
          have hpart : between? (t :: op :: expression) 2 (t :: op :: expression).length =
              some expression := by
            rw [between?_eq (by simp) (Nat.le_refl _), between_length]
            rfl
          dsimp only
          rw [hpart, splitAlias?_eq]
          split
          · rfl
          · cases expression with
            | nil => simp
            | cons u us => cases t.isName <;> cases hop : op.isOperator "=" <;> simp [hop]

/-! ### Dotted names -/

/-- Whether names stand at the even indices and dots at the odd ones, where the first index is
given. -/
def isDotted (n : Nat) (expression : List Token) : Bool :=
  (expression.zipIdx n).all fun (t, i) => if i % 2 = 0 then t.isName else t.kind = .dot

theorem isDotted_cons (n : Nat) (t : Token) (us : List Token) :
    isDotted n (t :: us) =
      ((if n % 2 = 0 then t.isName else t.kind = .dot) && isDotted (n + 1) us) := by
  simp [isDotted, List.zipIdx_cons]

theorem isDotted_add_two (n : Nat) (us : List Token) : isDotted (n + 2) us = isDotted n us := by
  induction us generalizing n with
  | nil => rfl
  | cons t us ih =>
      rw [isDotted_cons, isDotted_cons, Nat.add_right_comm, ih, Nat.add_mod_right]

theorem isDotted_cons_cons (t dot : Token) (us : List Token) :
    isDotted 0 (t :: dot :: us) = (t.isName && dot.kind = .dot && isDotted 0 us) := by
  rw [isDotted_cons, isDotted_cons, isDotted_add_two]
  simp [Bool.and_assoc]

/-- The last two parts of a dotted name by their indices. -/
theorem columnPath?_of_isDotted {expression : List Token} (hodd : expression.length % 2 ≠ 0)
    (h : isDotted 0 expression) :
    ∃ column, expression.getLast? = some column ∧
      Tsql.columnPath? expression = some (column.text,
        if 3 ≤ expression.length then expression[expression.length - 3]?.map Token.text
        else none) := by
  match expression with
  | [] => simp at hodd
  | [t] =>
      have hname : t.isName := by simpa [isDotted] using h
      exact ⟨t, rfl, by simp [Tsql.columnPath?, hname]⟩
  | [t, dot] => simp at hodd
  | t :: dot :: u :: us =>
      rw [isDotted_cons_cons, Bool.and_eq_true, Bool.and_eq_true, decide_eq_true_eq] at h
      obtain ⟨⟨hname, hdot⟩, hrest⟩ := h
      have hodd' : (u :: us).length % 2 ≠ 0 := by
        simp only [List.length_cons] at hodd ⊢
        omega
      obtain ⟨column, hlast, hpath⟩ := columnPath?_of_isDotted hodd' hrest
      refine ⟨column, by simpa using hlast, ?_⟩
      rw [Tsql.columnPath?, hpath, hname, hdot]
      cases us with
      | nil => simp
      | cons v us =>
          cases us with
          | nil => simp at hodd'
          | cons w us =>
              obtain ⟨q, hq⟩ : ∃ q, (u :: v :: w :: us)[us.length]? = some q :=
                exists_getElem? (by simp only [List.length_cons]; omega)
              have hlen : (u :: v :: w :: us).length - 3 = us.length := rfl
              have hlen' : (t :: dot :: u :: v :: w :: us).length - 3 = us.length + 2 := rfl
              rw [hlen, hlen', hq, List.getElem?_cons_succ, List.getElem?_cons_succ, hq]
              simp

theorem columnPath?_eq_none {expression : List Token}
    (h : expression.length % 2 = 0 ∨ isDotted 0 expression = false) :
    Tsql.columnPath? expression = none := by
  match expression with
  | [] => rfl
  | [t] =>
      have hname : t.isName = false := by simpa [isDotted] using h
      simp [Tsql.columnPath?, hname]
  | t :: dot :: us =>
      rw [Tsql.columnPath?]
      split
      · next hhead =>
        rw [Bool.and_eq_true] at hhead
        have hrest : us.length % 2 = 0 ∨ isDotted 0 us = false := by
          rw [isDotted_cons_cons, hhead.1, hhead.2] at h
          rwa [List.length_cons, List.length_cons, Nat.add_assoc, Nat.add_mod_right,
            Bool.true_and, Bool.true_and] at h
        rw [columnPath?_eq_none hrest]
      · rfl

theorem columnPath?_eq (expression : List Token) :
    columnPath? expression = some (Tsql.columnPath? expression) := by
  rw [columnPath?]
  dsimp only
  split
  · next h =>
    rw [columnPath?_eq_none (by simpa [isDotted] using h)]
  · next h =>
    have hnot : expression.length % 2 ≠ 0 ∧ isDotted 0 expression := by
      simpa [isDotted, not_or] using h
    obtain ⟨column, hlast, hpath⟩ := columnPath?_of_isDotted hnot.1 hnot.2
    rw [hlast, hpath]
    dsimp only
    split
    · next hlen =>
      obtain ⟨q, hq⟩ := exists_getElem? (show expression.length - 3 < expression.length by omega)
      simp [difference?_eq hlen, hq]
    · rfl

/-! ### Columns -/

theorem column?_eq (unnamed : Nat) (expression : List Token) (name : Option String) :
    column? unnamed expression name =
      some (.ofExpression expression name
          ("expr" ++ toString (if needsPlaceholder expression name then unnamed + 1 else unnamed)),
        if needsPlaceholder expression name then unnamed + 1 else unnamed) := by
  rw [column?, columnPath?_eq, castType?_eq, ColumnRef.ofExpression, needsPlaceholder]
  cases starColumn? expression with
  | some star => simp
  | none =>
      cases Tsql.columnPath? expression with
      | some path => simp
      | none => simp

theorem columnsFrom?_eq (unnamed : Nat) (items : List (List Token)) :
    columnsFrom? unnamed items = some (columnsFrom unnamed items) := by
  induction items generalizing unnamed with
  | nil => rfl
  | cons item items ih =>
      rw [columnsFrom?, columnsFrom, itemParts?_eq, Option.bind_some]
      cases Tsql.itemParts? item with
      | none => exact ih unnamed
      | some parts => simp [column?_eq, ih]

theorem columnDefinition?_eq (ts : List Token) :
    columnDefinition? ts = some (Tsql.columnDefinition? ts) := by
  cases ts with
  | nil => rfl
  | cons t ts =>
      rw [columnDefinition?, Tsql.columnDefinition?]
      split
      · have hstop : (ts.findIdx? fun u => u.isAnyKeyword typeEnds).getD ts.length =
            ts.findIdx fun u => u.isAnyKeyword typeEnds :=
          List.findIdx_eq_getD_findIdx?.symm
        have hpart : between? ts 0 (ts.findIdx fun u => u.isAnyKeyword typeEnds) =
            some (ts.takeWhile fun u => !u.isAnyKeyword typeEnds) := by
          rw [between?_eq (Nat.zero_le _) List.findIdx_le_length, between, List.drop_zero,
            List.takeWhile_eq_take_findIdx_not]
          simp
        dsimp only
        rw [hstop, hpart]
        rfl
      · rfl

theorem columnDefinitions?_eq (ts : List Token) :
    columnDefinitions? ts = some (columnDefinitions ts) := by
  have hparts : (splitTop .comma 0 ts).mapM columnDefinition? =
      some ((splitTop .comma 0 ts).map Tsql.columnDefinition?) :=
    mapM_eq_some fun part _ => columnDefinition?_eq part
  have hreduce (columns : List (Option ColumnRef)) : columns.reduceOption = columns.filterMap id :=
    rfl
  simp only [columnDefinitions?, splitTop?_eq, hparts, Option.bind_eq_bind, Option.bind_some,
    columnDefinitions, hreduce, List.filterMap_map]
  rfl

end Indexed

/-! ### Select lists -/

theorem skipSelectWords?_reaches (h : Cut ts lo stop) {i : Nat} (hlo : lo ≤ i) (hi : i ≤ stop) :
    ∃ j, (ofTokens ts).skipSelectWords? i stop = some j ∧
      Reaches ts i stop j (skipSelectWords (between ts i stop)) := by
  rw [TokenSlice.skipSelectWords?]
  split
  · next t ht =>
    obtain ⟨hlt, hget, hcons⟩ := inside?_eq_some ht
    have hties : (ofTokens ts).is (i + 1) (·.isKeyword .TIES) =
        (between ts (i + 1) stop).head?.any fun u => u.isKeyword .TIES := by
      rw [← inside?_eq_head? h.stop_le, inside?, is]
      split
      · rfl
      · obtain rfl : stop = i + 1 := by omega
        exact h.notTies
    rw [hcons, skipSelectWords, ← hties]
    split
    · obtain ⟨j, hj, hreach⟩ := skipSelectWords?_reaches h (i := i + 1) (by omega) hlt
      exact ⟨j, hj, hreach.from_le (Nat.le_succ i)⟩
    split
    · next htop =>
      obtain ⟨heq, hle, hlast⟩ := skipRowCount_reaches h hlo hlt hget htop
      obtain ⟨j, hj, hreach⟩ := skipSelectWords?_reaches h (by omega) hlast
      rw [dif_pos (Nat.lt_of_succ_le hle), heq]
      exact ⟨j, hj, hreach.from_le (by omega)⟩
    split
    · next hwith =>
      rw [hties, Bool.and_eq_true] at hwith
      have hlt' : i + 1 < stop := by
        obtain ⟨u, hu, -⟩ := (Option.any_eq_true _ _).1 hwith.2
        rw [← inside?_eq_head? h.stop_le] at hu
        exact lt_of_inside? hu
      obtain ⟨j, hj, hreach⟩ := skipSelectWords?_reaches h (i := i + 2) (by omega) hlt'
      rw [tail_between]
      exact ⟨j, hj, hreach.from_le (by omega)⟩
    · exact ⟨i, rfl, hcons.symm, Nat.le_refl i, hi⟩
  · next hnone =>
    have hnil := (inside?_eq_none h.stop_le hnone).2
    rw [hnil, skipSelectWords]
    exact ⟨i, rfl, hnil.symm, Nat.le_refl i, hi⟩
termination_by stop - i

/-- The items of a select list give what those of its tokens give. There is one without tokens in
place of none. -/
theorem selectItems?_eq (h : Cut ts lo stop) {i : Nat} (hlo : lo ≤ i) (hi : i ≤ stop) :
    ∃ items, (ofTokens ts).selectItems? i stop = some items ∧
      columnsFrom 0 items = columnsFrom 0 (selectItems (between ts i stop)) ∧
      selectIssues items = selectIssues (selectItems (between ts i stop)) := by
  obtain ⟨first, hfirst, heq, -, hlast⟩ := skipSelectWords?_reaches h hlo hi
  rw [TokenSlice.selectItems?, hfirst, selectItems, heq]
  by_cases hempty : stop ≤ first
  · rw [between_of_le hempty]
    exact ⟨[], by simp [hempty], rfl, rfl⟩
  · refine ⟨_, ?_, rfl, rfl⟩
    simp [hempty, between?_eq hlast h.stop_le, Indexed.splitTop?_eq]

end Tsql
