import Tsql.Text.Basic

/-!
Positions in a text and ranges between them. Lines and columns count from 1, columns in
characters. Positions are ordered as they stand in the text; a range does not hold its end.
-/

namespace Tsql

structure Position where
  line : Nat
  col : Nat
  deriving DecidableEq, Inhabited, Repr

namespace Position

instance : LT Position :=
  ⟨fun p q => p.line < q.line ∨ p.line = q.line ∧ p.col < q.col⟩

instance : LE Position :=
  ⟨fun p q => p.line < q.line ∨ p.line = q.line ∧ p.col ≤ q.col⟩

theorem lt_def {p q : Position} : p < q ↔ p.line < q.line ∨ p.line = q.line ∧ p.col < q.col :=
  Iff.rfl

theorem le_def {p q : Position} : p ≤ q ↔ p.line < q.line ∨ p.line = q.line ∧ p.col ≤ q.col :=
  Iff.rfl

instance (p q : Position) : Decidable (p < q) :=
  inferInstanceAs (Decidable (p.line < q.line ∨ p.line = q.line ∧ p.col < q.col))

instance (p q : Position) : Decidable (p ≤ q) :=
  inferInstanceAs (Decidable (p.line < q.line ∨ p.line = q.line ∧ p.col ≤ q.col))

@[ext] theorem ext {p q : Position} (hl : p.line = q.line) (hc : p.col = q.col) : p = q := by
  cases p; cases q; simp_all

theorem le_refl (p : Position) : p ≤ p :=
  le_def.2 (.inr ⟨rfl, Nat.le_refl _⟩)

theorem le_trans {p q r : Position} (h₁ : p ≤ q) (h₂ : q ≤ r) : p ≤ r := by
  rw [le_def] at *; omega

theorem lt_irrefl (p : Position) : ¬ p < p := by
  rw [lt_def]; omega

theorem lt_of_lt_of_le {p q r : Position} (h₁ : p < q) (h₂ : q ≤ r) : p < r := by
  rw [lt_def] at *; rw [le_def] at h₂; omega

theorem lt_of_le_of_lt {p q r : Position} (h₁ : p ≤ q) (h₂ : q < r) : p < r := by
  rw [lt_def] at *; rw [le_def] at h₁; omega

theorem le_of_lt {p q : Position} (h : p < q) : p ≤ q := by
  rw [lt_def] at h; rw [le_def]; omega

theorem not_lt {p q : Position} : ¬ p < q ↔ q ≤ p := by
  rw [lt_def, le_def]; omega

theorem not_le {p q : Position} : ¬ p ≤ q ↔ q < p := by
  rw [lt_def, le_def]; omega

theorem le_antisymm {p q : Position} (h₁ : p ≤ q) (h₂ : q ≤ p) : p = q := by
  rw [le_def] at h₁ h₂
  ext <;> omega

theorem le_total (p q : Position) : p ≤ q ∨ q ≤ p := by
  rw [le_def, le_def]; omega

/-- Position of the first character of a text. -/
def origin : Position := ⟨1, 1⟩

/-- The position after the character `c` at `p`. -/
def next (p : Position) (c : Char) : Position :=
  if c = '\n' then ⟨p.line + 1, 1⟩ else ⟨p.line, p.col + 1⟩

/-- The position after the text `cs` that starts at `p`. -/
def advance (p : Position) (cs : List Char) : Position :=
  cs.foldl next p

@[simp] theorem advance_nil (p : Position) : p.advance [] = p := rfl

@[simp] theorem advance_cons (p : Position) (c : Char) (cs : List Char) :
    p.advance (c :: cs) = (p.next c).advance cs := rfl

@[simp] theorem advance_append (p : Position) (as bs : List Char) :
    p.advance (as ++ bs) = (p.advance as).advance bs :=
  List.foldl_append ..

theorem lt_next (p : Position) (c : Char) : p < p.next c := by
  rw [lt_def, next]
  split <;> simp

theorem le_advance (p : Position) (cs : List Char) : p ≤ p.advance cs := by
  induction cs generalizing p with
  | nil => exact le_refl p
  | cons c cs ih => exact le_trans (le_of_lt (lt_next p c)) (ih _)

theorem line_advance (p : Position) (cs : List Char) :
    (p.advance cs).line = p.line + cs.count '\n' := by
  induction cs generalizing p with
  | nil => simp
  | cons c cs ih =>
    rw [advance_cons, ih, List.count_cons, next]
    by_cases h : c = '\n'
    · simp [h]; omega
    · simp [h]

end Position

structure Range where
  start : Position
  stop : Position
  deriving DecidableEq, Inhabited, Repr

namespace Range

def contains (r : Range) (p : Position) : Bool :=
  r.start ≤ p && p < r.stop

/-- Also holds for the end of the range: a cursor right after it still belongs to it. -/
def touches (r : Range) (p : Position) : Bool :=
  r.start ≤ p && p ≤ r.stop

def overlaps (r s : Range) : Bool :=
  r.start < s.stop && s.start < r.stop

end Range

end Tsql
