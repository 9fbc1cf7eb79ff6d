import Tsql.Text.Class

/-!
Operations on text as a list of characters: size in bytes, trimming, cutting into lines and words,
comparing without regard to ASCII letter case.

Cutting loses nothing: the lines of a text, joined by line feeds, are the text (`joinLines_lines`),
and what trimming takes from either end is blank.
-/

namespace Tsql.Text

/-- Number of bytes of the text in UTF-8. -/
def size : List Char → Nat
  | [] => 0
  | c :: cs => c.utf8Size + size cs

@[simp] theorem size_nil : size [] = 0 := rfl

@[simp] theorem size_cons (c : Char) (cs : List Char) : size (c :: cs) = c.utf8Size + size cs := rfl

@[simp] theorem size_append (as bs : List Char) : size (as ++ bs) = size as + size bs := by
  induction as with
  | nil => simp
  | cons a as ih => simp [ih, Nat.add_assoc]

/-- The longest beginning of the text with at most `n` bytes. -/
def takeSize : Nat → List Char → List Char
  | _, [] => []
  | n, c :: cs => if c.utf8Size ≤ n then c :: takeSize (n - c.utf8Size) cs else []

theorem takeSize_prefix (n : Nat) (cs : List Char) : takeSize n cs <+: cs := by
  induction cs generalizing n with
  | nil => exact List.nil_prefix
  | cons c cs ih =>
    rw [takeSize]
    split
    · exact List.cons_prefix_cons.2 ⟨rfl, ih _⟩
    · exact List.nil_prefix

def trimStart (cs : List Char) : List Char :=
  cs.dropWhile isBlank

def trimEnd (cs : List Char) : List Char :=
  (cs.reverse.dropWhile isBlank).reverse

def trim (cs : List Char) : List Char :=
  trimEnd (trimStart cs)

/-- The blanks that `trimStart` removes. -/
def leadingBlanks (cs : List Char) : List Char :=
  cs.takeWhile isBlank

@[simp] theorem leadingBlanks_append_trimStart (cs : List Char) :
    leadingBlanks cs ++ trimStart cs = cs :=
  List.takeWhile_append_dropWhile

/-- The parts of the text between the characters that satisfy `p`. -/
def split (p : Char → Bool) : List Char → List (List Char)
  | [] => [[]]
  | c :: cs =>
    if p c then [] :: split p cs
    else match split p cs with
      | [] => [[c]]
      | part :: parts => (c :: part) :: parts

/-- The lines of the text; a text that ends in a line feed has an empty last line. -/
def lines (cs : List Char) : List (List Char) :=
  split (· = '\n') cs

/-- The maximal runs of characters that are not blank. -/
def words (cs : List Char) : List (List Char) :=
  (split isBlank cs).filter (!·.isEmpty)

def joinWith (sep : List Char) : List (List Char) → List Char
  | [] => []
  | [part] => part
  | part :: parts => part ++ sep ++ joinWith sep parts

def joinLines (ls : List (List Char)) : List Char :=
  joinWith ['\n'] ls

theorem split_ne_nil (p : Char → Bool) (cs : List Char) : split p cs ≠ [] := by
  cases cs with
  | nil => simp [split]
  | cons c cs =>
    simp only [split]
    split
    · simp
    · split <;> simp

theorem joinLines_lines (cs : List Char) : joinLines (lines cs) = cs := by
  induction cs with
  | nil => rfl
  | cons c cs ih =>
    simp only [joinLines, lines, split] at ih ⊢
    match h : split (· = '\n') cs with
    | [] => exact absurd h (split_ne_nil _ cs)
    | part :: parts =>
      rw [h] at ih
      split
      · next hc => simp_all [joinWith]
      · cases parts <;> simp_all [joinWith]

theorem length_lines (cs : List Char) : (lines cs).length = cs.count '\n' + 1 := by
  induction cs with
  | nil => rfl
  | cons c cs ih =>
    simp only [lines, split] at ih ⊢
    match h : split (· = '\n') cs with
    | [] => exact absurd h (split_ne_nil _ cs)
    | part :: parts =>
      rw [h] at ih
      split
      · next hc => simp_all
      · next hc => simp_all

/-- Equal up to the case of ASCII letters. -/
def sameFolded (a b : List Char) : Bool :=
  a.map Char.toLower == b.map Char.toLower

@[simp] theorem sameFolded_refl (a : List Char) : sameFolded a a := by
  simp [sameFolded]

theorem sameFolded_comm (a b : List Char) : sameFolded a b = sameFolded b a := by
  simp [sameFolded, Bool.beq_comm]

end Tsql.Text
