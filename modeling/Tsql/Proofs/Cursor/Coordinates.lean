import Tsql.Completion.Mark
import Tsql.Proofs.Cursor.Offset

/-!
The three ways to say where a cursor is agree: bytes before it, line and column, and a mark in the
text.

A line and a column always mean a place between two characters, later ones no earlier place
(`offsetAt_mono`). Each place has a line and a column (`offsetAt_positionAt`), which are also those
of the offsets inside the character behind it (`positionAt_inside`) and those of a mark that stands
there (`CursorMark.exists_cut`).
-/

namespace Tsql

namespace Text

/-- A part of the bytes of a character is not taken. -/
theorem takeSize_inside {before behind : List Char} {c : Char} {offset : Nat}
    (hlow : size before ≤ offset) (hhigh : offset < size before + c.utf8Size) :
    takeSize offset (before ++ c :: behind) = before := by
  induction before generalizing offset with
  | nil =>
      rw [size_nil, Nat.zero_add] at hhigh
      rw [List.nil_append, takeSize, if_neg (Nat.not_le.2 hhigh)]
  | cons b before ih =>
      rw [size_cons] at hlow hhigh
      have hrest : takeSize (offset - b.utf8Size) (before ++ c :: behind) = before :=
        ih (by omega) (by omega)
      rw [List.cons_append, takeSize, if_pos (by omega), hrest]

end Text

namespace CursorMark

theorem exists_cut {cs : List Char} (h : '|' ∈ cs) :
    ∃ before behind, cut? cs = some (before, behind) := by
  induction cs with
  | nil => contradiction
  | cons c cs ih =>
      by_cases hc : c = '|'
      · exact ⟨[], cs, if_pos hc⟩
      · obtain ⟨before, behind, hcut⟩ := ih ((List.mem_cons.1 h).resolve_left (Ne.symm hc))
        refine ⟨c :: before, behind, ?_⟩
        rw [cut?, if_neg hc, hcut]
        rfl

end CursorMark

namespace Cursor

variable {cs : List Char}

/-- The offset is that of a place in front of a character or at the end of the text. -/
def IsPlace (cs : List Char) (offset : Nat) : Prop :=
  ∃ before behind, cs = before ++ behind ∧ offset = Text.size before

theorem IsPlace.zero (cs : List Char) : IsPlace cs 0 :=
  ⟨[], cs, rfl, rfl⟩

theorem IsPlace.cons {offset : Nat} (h : IsPlace cs offset) (c : Char) :
    IsPlace (c :: cs) (c.utf8Size + offset) := by
  obtain ⟨before, behind, rfl, rfl⟩ := h
  exact ⟨c :: before, behind, rfl, rfl⟩

/-- The cursor does not come behind the character `c` that its text begins with. -/
def StopsAt (c : Char) (p : Position) : Prop :=
  p.line = 1 ∧ (p.col ≤ 1 ∨ c = '\n')

instance (c : Char) (p : Position) : Decidable (StopsAt c p) :=
  inferInstanceAs (Decidable (_ ∧ _))

/-- The line and the column in the text without its first character `c`. -/
def behind (c : Char) (p : Position) : Position :=
  if p.line = 1 then ⟨1, p.col - 1⟩ else ⟨if c = '\n' then p.line - 1 else p.line, p.col⟩

theorem offsetAt_cons (c : Char) (cs : List Char) (p : Position) :
    offsetAt (c :: cs) p = if StopsAt c p then 0 else c.utf8Size + offsetAt cs (behind c p) := by
  obtain ⟨line, col⟩ := p
  by_cases hline : line = 1
  · simp [offsetAt, StopsAt, behind, hline]
  · simp [offsetAt, StopsAt, behind, hline]

theorem isPlace_offsetAt (cs : List Char) (p : Position) : IsPlace cs (offsetAt cs p) := by
  induction cs generalizing p with
  | nil => exact .zero []
  | cons c cs ih =>
      rw [offsetAt_cons]
      split
      · exact .zero _
      · exact (ih _).cons c

section

variable {c : Char} {p q : Position} (hline : 1 ≤ p.line) (h : p ≤ q)

include hline h

/-- A cursor in front of one that stops does too. -/
theorem StopsAt.of_le (hq : StopsAt c q) : StopsAt c p := by
  obtain ⟨hfirst, hstop⟩ := hq
  rw [Position.le_def] at h
  exact ⟨by omega, hstop.imp_left fun hcol => by omega⟩

/-- Behind a character that both cursors pass they stand in the same order. -/
theorem behind_le_behind (hp : ¬ StopsAt c p) :
    1 ≤ (behind c p).line ∧ behind c p ≤ behind c q := by
  rw [Position.le_def] at h ⊢
  unfold behind
  by_cases hfirst : p.line = 1
  · have hnot := not_or.1 fun hstop => hp ⟨hfirst, hstop⟩
    by_cases hfirst' : q.line = 1
    · have hcol : p.col ≤ q.col := by omega
      simp only [hfirst, hfirst', if_true]
      exact ⟨Nat.le_refl 1, .inr ⟨trivial, Nat.sub_le_sub_right hcol 1⟩⟩
    · simp only [hfirst, hfirst', hnot.2, if_true, if_false]
      omega
  · have hlater : q.line ≠ 1 := by omega
    simp only [hfirst, hlater, if_false]
    split <;> omega

end

theorem offsetAt_mono (cs : List Char) {p q : Position} (hline : 1 ≤ p.line) (h : p ≤ q) :
    offsetAt cs p ≤ offsetAt cs q := by
  induction cs generalizing p q with
  | nil => exact Nat.le_refl 0
  | cons c cs ih =>
      rw [offsetAt_cons, offsetAt_cons]
      by_cases hp : StopsAt c p
      · rw [if_pos hp]
        exact Nat.zero_le _
      · obtain ⟨hline', hle⟩ := behind_le_behind hline h hp
        rw [if_neg hp, if_neg fun hq => hp (hq.of_le hline h)]
        exact Nat.add_le_add_left (ih hline' hle) _

theorem offsetAt_positionAt {offset : Nat} (h : IsPlace cs offset) :
    offsetAt cs (positionAt cs offset) = offset := by
  obtain ⟨before, behind, rfl, rfl⟩ := h
  rw [positionAt_size, offsetAt_advance]

theorem positionAt_inside {before behind : List Char} {c : Char} {offset : Nat}
    (hlow : Text.size before ≤ offset) (hhigh : offset < Text.size before + c.utf8Size) :
    positionAt (before ++ c :: behind) offset =
      positionAt (before ++ c :: behind) (Text.size before) := by
  rw [positionAt_size, positionAt, Text.takeSize_inside hlow hhigh]

/-- Places, lines and columns, and marks say the same. -/
theorem coordinates_agree :
    (∀ (cs : List Char) (offset : Nat), IsPlace cs offset →
      offsetAt cs (positionAt cs offset) = offset) ∧
    (∀ (cs : List Char) (p q : Position), 1 ≤ p.line → p ≤ q → offsetAt cs p ≤ offsetAt cs q) ∧
    (∀ (cs : List Char) (p : Position),
      IsPlace cs (offsetAt cs p) ∧ offsetAt cs p ≤ Text.size cs) ∧
    (∀ (before behind : List Char) (c : Char) (offset : Nat), Text.size before ≤ offset →
      offset < Text.size before + c.utf8Size →
        positionAt (before ++ c :: behind) offset =
          positionAt (before ++ c :: behind) (Text.size before)) ∧
    ∀ cs : List Char, '|' ∈ cs → ∃ p, CursorMark.position? cs = some p ∧
      CursorMark.offset? cs = some (offsetAt (CursorMark.erase cs) p) := by
  refine ⟨fun cs offset => offsetAt_positionAt, fun cs p q => offsetAt_mono cs,
    fun cs p => ⟨isPlace_offsetAt cs p, offsetAt_le_size cs p⟩,
    fun before behind c offset => positionAt_inside, fun cs hmark => ?_⟩
  obtain ⟨before, behind, hcut⟩ := CursorMark.exists_cut hmark
  refine ⟨Position.origin.advance before, ?_, ?_⟩
  · rw [CursorMark.position?, hcut]
    rfl
  · rw [CursorMark.offset?, hcut, CursorMark.erase_of_cut? hcut, offsetAt_advance]
    rfl

/-- The last line of this text is empty, and its second character has two bytes. -/
theorem coordinates_agree_wide :
    let cs := ['a', 'é', '\n']
    IsPlace cs 4 ∧ positionAt cs 4 = ⟨2, 1⟩ ∧ offsetAt cs ⟨2, 1⟩ = 4 ∧
      offsetAt cs ⟨1, 9⟩ ≤ offsetAt cs ⟨2, 1⟩ ∧ positionAt cs 2 = positionAt cs 1 ∧
      CursorMark.offset? ['a', 'é', '|', '\n', '|'] = some 3 := by
  intro cs
  obtain ⟨hplace, hmono, -, hinside, hmark⟩ := coordinates_agree
  have hend : IsPlace cs 4 := ⟨cs, [], rfl, by decide⟩
  have hposition : positionAt cs 4 = ⟨2, 1⟩ := by decide
  refine ⟨hend, hposition, hposition ▸ hplace cs 4 hend,
    hmono cs ⟨1, 9⟩ ⟨2, 1⟩ (by decide) (by decide),
    hinside ['a'] ['\n'] 'é' 2 (by decide) (by decide), ?_⟩
  obtain ⟨p, hp, hoffset⟩ := hmark ['a', 'é', '|', '\n', '|'] (by decide)
  obtain rfl : (⟨1, 3⟩ : Position) = p := Option.some.inj ((by decide : _ = _).trans hp)
  exact hoffset

end Cursor

end Tsql
