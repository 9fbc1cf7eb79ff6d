import Tsql.Text.Alphabetic
import Tsql.Text.Numeric

/-!
Character classes. Blanks, letters and digits follow Unicode; letter case is folded for ASCII
letters only, as identifiers and keywords are compared that way.

The last definitions read natural numbers in decimal.
-/

namespace Tsql.Text

/-! ### Classes -/

def inRanges (ranges : List (Nat × Nat)) (c : Char) : Bool :=
  ranges.any fun r => r.1 ≤ c.toNat && c.toNat ≤ r.2

def blankRanges : List (Nat × Nat) :=
  [(0x9, 0xD), (0x20, 0x20), (0x85, 0x85), (0xA0, 0xA0), (0x1680, 0x1680), (0x2000, 0x200A),
   (0x2028, 0x2029), (0x202F, 0x202F), (0x205F, 0x205F), (0x3000, 0x3000)]

/-- White space, the Unicode property. -/
def isBlank (c : Char) : Bool :=
  inRanges blankRanges c

def isAlphabetic (c : Char) : Bool :=
  if c.toNat < 128 then c.isAlpha else inRanges alphabeticRanges c

def isNumeric (c : Char) : Bool :=
  if c.toNat < 128 then c.isDigit else inRanges numericRanges c

def isAlphanumeric (c : Char) : Bool :=
  isAlphabetic c || isNumeric c

/-- First character of an unquoted name. -/
def startsWord (c : Char) : Bool :=
  isAlphabetic c || c = '_' || c = '@' || c = '#'

/-- Character inside an unquoted name. -/
def isWordChar (c : Char) : Bool :=
  isAlphanumeric c || c = '_' || c = '@' || c = '#' || c = '$'

/-- The code points of the blanks. -/
def blankCodes : List Nat :=
  blankRanges.flatMap fun r => List.range' r.1 (r.2 - r.1 + 1)

theorem toNat_mem_blankCodes {c : Char} (h : isBlank c) : c.toNat ∈ blankCodes := by
  simp only [isBlank, inRanges, List.any_eq_true, Bool.and_eq_true, decide_eq_true_eq] at h
  obtain ⟨r, hr, hlo, hhi⟩ := h
  simp only [blankCodes, List.mem_flatMap, List.mem_range']
  exact ⟨r, hr, c.toNat - r.1, by omega, by omega⟩

theorem isWordChar_of_isBlank {c : Char} (h : isBlank c) : isWordChar c = false := by
  have hall : ∀ n ∈ blankCodes, isWordChar (Char.ofNat n) = false := by decide +kernel
  simpa using hall _ (toNat_mem_blankCodes h)

theorem isWordChar_of_startsWord {c : Char} (h : startsWord c) : isWordChar c := by
  simp only [startsWord, isWordChar, isAlphanumeric, Bool.or_eq_true] at h ⊢
  grind

theorem isWordChar_of_isDigit {c : Char} (h : c.isDigit) : isWordChar c := by
  have h' : c.toNat < 128 := by
    simp only [Char.isDigit, Bool.and_eq_true, decide_eq_true_eq] at h
    have := h.2
    simp only [UInt32.le_iff_toNat_le] at this
    have : c.toNat ≤ 57 := by simpa using this
    omega
  simp [isWordChar, isAlphanumeric, isNumeric, h', h]

/-! ### Decimal numbers -/

def natOfDigits (cs : List Char) : Nat :=
  cs.foldl (fun n c => n * 10 + (c.toNat - '0'.toNat)) 0

/-- An unsigned number of 64 bits, with or without a plus sign. -/
def readSize? (cs : List Char) : Option Nat :=
  let digits := if cs.head? = some '+' then cs.tail else cs
  if digits.isEmpty || !digits.all Char.isDigit then none
  else some (natOfDigits digits) |>.filter (· < UInt64.size)

end Tsql.Text
