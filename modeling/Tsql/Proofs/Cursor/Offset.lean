import Tsql.Completion.Mark

/-!
The place behind a beginning of a text, in bytes and as line and column.

Reading a beginning of the text moves the position forward by `advance` and the offset by `size`;
`offsetAt` takes the one to the other.
-/

namespace Tsql

namespace Position

theorem advance_add_line (p : Position) (k : Nat) (cs : List Char) :
    (⟨p.line + k, p.col⟩ : Position).advance cs =
      ⟨(p.advance cs).line + k, (p.advance cs).col⟩ := by
  induction cs generalizing p with
  | nil => rfl
  | cons c cs ih =>
      rw [advance_cons, advance_cons, ← ih]
      unfold next
      by_cases h : c = '\n'
      · simp [h, Nat.add_right_comm]
      · simp [h]

/-- A column more at the start is a column more at the end, unless there is a line feed between. -/
theorem advance_add_col (p : Position) (cs : List Char) :
    (⟨p.line, p.col + 1⟩ : Position).advance cs =
      if '\n' ∈ cs then p.advance cs else ⟨p.line, (p.advance cs).col + 1⟩ := by
  induction cs generalizing p with
  | nil => rfl
  | cons c cs ih =>
      rw [advance_cons, advance_cons]
      by_cases h : c = '\n'
      · simp [h, next]
      · simp only [next, if_neg h, List.mem_cons, Ne.symm h, false_or]
        exact ih ⟨p.line, p.col + 1⟩

theorem line_advance_of_notMem (p : Position) {cs : List Char} (h : '\n' ∉ cs) :
    (p.advance cs).line = p.line := by
  rw [line_advance, List.count_eq_zero.2 h, Nat.add_zero]

theorem one_le_col_advance (p : Position) (h : 1 ≤ p.col) (cs : List Char) :
    1 ≤ (p.advance cs).col := by
  induction cs generalizing p with
  | nil => exact h
  | cons c cs ih =>
      refine ih _ ?_
      unfold next
      split
      · exact Nat.le_refl 1
      · exact Nat.le_add_left 1 p.col

end Position

namespace Text

theorem takeSize_size_append (as bs : List Char) : takeSize (size as) (as ++ bs) = as := by
  induction as with
  | nil =>
      cases bs with
      | nil => rfl
      | cons b bs =>
          have := Char.utf8Size_pos b
          simp only [List.nil_append, size_nil, takeSize]
          rw [if_neg (by omega)]
  | cons a as ih =>
      rw [size_cons, List.cons_append, takeSize, if_pos (Nat.le_add_right _ _),
        Nat.add_sub_cancel_left, ih]

/-- The characters of a text that begins at byte `offset`, each with its own offset. -/
def offsets (offset : Nat) : List Char → List (Nat × Char)
  | [] => []
  | c :: cs => (offset, c) :: offsets (offset + c.utf8Size) cs

theorem map_snd_offsets (offset : Nat) (cs : List Char) : (offsets offset cs).map Prod.snd = cs := by
  induction cs generalizing offset with
  | nil => rfl
  | cons c cs ih => rw [offsets, List.map_cons, ih]

theorem offsets_append (offset : Nat) (as bs : List Char) :
    offsets offset (as ++ bs) = offsets offset as ++ offsets (offset + size as) bs := by
  induction as generalizing offset with
  | nil => rfl
  | cons a as ih => simp [offsets, ih, Nat.add_assoc]

theorem bounds_of_mem_offsets {offset : Nat} {cs : List Char} {x : Nat × Char}
    (h : x ∈ offsets offset cs) : offset ≤ x.1 ∧ x.1 < offset + size cs := by
  induction cs generalizing offset with
  | nil => contradiction
  | cons c cs ih =>
      have hpos := Char.utf8Size_pos c
      rw [size_cons]
      rcases List.mem_cons.1 h with rfl | h
      · dsimp only
        omega
      · have hbounds := ih h
        omega

theorem exists_of_mem_offsets {offset : Nat} {cs : List Char} {x : Nat × Char}
    (h : x ∈ offsets offset cs) :
    ∃ before behind, cs = before ++ x.2 :: behind ∧ x.1 = offset + size before := by
  induction cs generalizing offset with
  | nil => contradiction
  | cons c cs ih =>
      rcases List.mem_cons.1 h with rfl | h
      · exact ⟨[], cs, rfl, rfl⟩
      · obtain ⟨before, behind, rfl, hx⟩ := ih h
        exact ⟨c :: before, behind, rfl, by rw [hx, size_cons, Nat.add_assoc]⟩

end Text

namespace Cursor

theorem positionAt_size (before behind : List Char) :
    positionAt (before ++ behind) (Text.size before) = Position.origin.advance before := by
  rw [positionAt, Text.takeSize_size_append]

theorem offsetAt_advance (as bs : List Char) :
    offsetAt (as ++ bs) (Position.origin.advance as) = Text.size as := by
  induction as with
  | nil =>
      cases bs with
      | nil => rfl
      | cons b bs => simp [offsetAt, Position.origin]
  | cons a as ih =>
      have hpos : 1 ≤ (Position.origin.advance as).line := by
        rw [Position.line_advance]
        exact Nat.le_add_right 1 _
      rw [List.cons_append, Text.size_cons, Position.advance_cons]
      by_cases ha : a = '\n'
      · have hnext : Position.origin.next a = ⟨Position.origin.line + 1, Position.origin.col⟩ := by
          rw [Position.next, if_pos ha]
          rfl
        rw [hnext, Position.advance_add_line, offsetAt, if_neg (by omega), if_pos ha,
          Nat.add_sub_cancel, ih]
      · have hnext : Position.origin.next a = ⟨Position.origin.line, Position.origin.col + 1⟩ := by
          rw [Position.next, if_neg ha]
        rw [hnext, Position.advance_add_col]
        -- `a` moves the column only if the cursor is still on the first line
        by_cases hmem : '\n' ∈ as
        · have hline : (Position.origin.advance as).line ≠ 1 := by
            rw [Position.line_advance]
            have := List.count_pos_iff.2 hmem
            show 1 + _ ≠ 1
            omega
          rw [if_pos hmem, offsetAt, if_neg hline, if_neg ha, ih]
        · obtain ⟨col, hcol⟩ : ∃ col, Position.origin.advance as = ⟨1, col⟩ :=
            ⟨(Position.origin.advance as).col,
              Position.ext (Position.line_advance_of_notMem .origin hmem) rfl⟩
          have hle := Position.one_le_col_advance .origin (Nat.le_refl 1) as
          rw [hcol] at ih hle ⊢
          have hin : ¬ (col + 1 ≤ 1 ∨ a = '\n') := fun h => h.elim (by simp at hle; omega) ha
          rw [if_neg hmem]
          show offsetAt (a :: (as ++ bs)) ⟨1, col + 1⟩ = _
          rw [offsetAt, if_pos rfl, if_neg hin, Nat.add_sub_cancel, ih]

/-- The character behind the cursor. -/
def charAt? (cs : List Char) (p : Position) : Option Char :=
  (cs.drop (Text.takeSize (offsetAt cs p) cs).length).head?

theorem charAt?_advance (as bs : List Char) :
    charAt? (as ++ bs) (Position.origin.advance as) = bs.head? := by
  rw [charAt?, offsetAt_advance, Text.takeSize_size_append, List.drop_left]

end Cursor

end Tsql
