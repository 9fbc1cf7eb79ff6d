import Tsql.Position

/-!
The ways to say where a cursor is: by line and column, by the bytes before it, and by a mark in the
text.

A cursor stands between two characters. A column past the end of its line means the end of the line,
a line past the end of the text the end of the text; a byte offset inside a character means the place
before that character. The mark is a bar; the first bar is the mark, any other is text.
-/

namespace Tsql.Cursor

/-- Number of bytes before the cursor at a line and column, both counted from 1. -/
def offsetAt : List Char → Position → Nat
  | [], _ => 0
  | c :: cs, ⟨line, col⟩ =>
    if line = 1 then
      if col ≤ 1 ∨ c = '\n' then 0 else c.utf8Size + offsetAt cs ⟨1, col - 1⟩
    else c.utf8Size + offsetAt cs ⟨if c = '\n' then line - 1 else line, col⟩

/-- The place of the cursor behind the given number of bytes. -/
def positionAt (cs : List Char) (offset : Nat) : Position :=
  Position.origin.advance (Text.takeSize offset cs)

theorem offsetAt_le_size (cs : List Char) (p : Position) : offsetAt cs p ≤ Text.size cs := by
  induction cs generalizing p with
  | nil => simp [offsetAt]
  | cons c cs ih =>
    simp only [offsetAt, Text.size_cons]
    split
    · split
      · omega
      · exact Nat.add_le_add_left (ih _) _
    · exact Nat.add_le_add_left (ih _) _

end Tsql.Cursor

namespace Tsql.CursorMark

/-- The text before the mark and the text behind it. -/
def cut? : List Char → Option (List Char × List Char)
  | [] => none
  | c :: cs =>
    if c = '|' then some ([], cs) else (cut? cs).map fun (before, behind) => (c :: before, behind)

/-- Number of bytes before the mark. -/
def offset? (cs : List Char) : Option Nat :=
  (cut? cs).map fun p => Text.size p.1

/-- Line and column of the mark. -/
def position? (cs : List Char) : Option Position :=
  (cut? cs).map fun p => Position.origin.advance p.1

/-- The text without the mark. -/
def erase (cs : List Char) : List Char :=
  cs.erase '|'

theorem erase_of_cut? {cs before behind : List Char} (h : cut? cs = some (before, behind)) :
    erase cs = before ++ behind := by
  induction cs generalizing before with
  | nil => simp [cut?] at h
  | cons c cs ih => grind [cut?, erase, Option.map_eq_some_iff]

end Tsql.CursorMark
