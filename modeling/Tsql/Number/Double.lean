/-!
Floating-point numbers of 64 bits: at most 53 binary digits in steps of at least `2 ^ -1074`, below
`2 ^ 1024`. A result between two of them is rounded to the nearest one, and a tie goes to the one
with the even mantissa.

The text of a number has the fewest decimal digits that lead back to it, and of those the nearest.
-/

namespace Tsql

/-- The number `mantissa * 2 ^ exponent`, or its negative. Zero has a sign too. -/
structure Double where
  isNegative : Bool := false
  mantissa : Nat
  exponent : Int
  deriving DecidableEq, Repr

namespace Double

def minExponent : Int := -1074

def maxExponent : Int := 971

def zero : Double :=
  { mantissa := 0, exponent := minExponent }

def isZero (x : Double) : Bool :=
  x.mantissa = 0

def withSign (x : Double) (isNegative : Bool) : Double :=
  { x with isNegative := isNegative }

/-- The whole number nearest to `num / den`; a tie goes to the even one. -/
def roundDiv (num den : Nat) : Nat :=
  let q := num / den
  let twice := 2 * (num % den)
  if den < twice ∨ den = twice ∧ q % 2 = 1 then q + 1 else q

/-- Rounding goes up by half a unit at most. -/
theorem roundDiv_le (num den : Nat) : 2 * (roundDiv num den * den) ≤ 2 * num + den := by
  have h := Nat.div_add_mod' num den
  simp only [roundDiv]
  generalize num / den = q at h ⊢
  generalize num % den = r at h ⊢
  split
  · rw [Nat.add_mul]; omega
  · omega

/-- Rounding goes down by half a unit at most. -/
theorem le_roundDiv (num den : Nat) (h : 0 < den) :
    2 * num ≤ 2 * (roundDiv num den * den) + den := by
  have hr := Nat.mod_lt num h
  have hq := Nat.div_add_mod' num den
  simp only [roundDiv]
  generalize num / den = q at hq ⊢
  generalize num % den = r at hr hq ⊢
  split
  · rw [Nat.add_mul]; omega
  · omega

/-- The fraction `num / den * base ^ e`. -/
def scale (base num den : Nat) (e : Int) : Nat × Nat :=
  if 0 ≤ e then (num * Nat.pow base e.toNat, den) else (num, den * Nat.pow base (-e).toNat)

/-- The exponent with which `num / den` has 53 binary digits, if that is not too small. -/
def exponentFor (num den : Nat) : Int :=
  let e : Int := num.log2 - den.log2 - 52
  let (n, d) := scale 2 num den (-e)
  max (if n < d * Nat.pow 2 52 then e - 1 else e) minExponent

/-- The nearest number to `num / den`, if there is one in the range. -/
def ofFraction? (num den : Nat) : Option Double :=
  let e := exponentFor num den
  let (n, d) := scale 2 num den (-e)
  let m := roundDiv n d
  let x : Double :=
    if m = Nat.pow 2 53 then { mantissa := Nat.pow 2 52, exponent := e + 1 }
    else { mantissa := m, exponent := e }
  if maxExponent < x.exponent then none else if m = 0 then some zero else some x

/-- The size of the number as a fraction. -/
def fraction (x : Double) : Nat × Nat :=
  scale 2 x.mantissa 1 x.exponent

/-- The size of a product. -/
def mul? (x y : Double) : Option Double :=
  ofFraction? (x.fraction.1 * y.fraction.1) (x.fraction.2 * y.fraction.2)

/-- The size of a quotient. -/
def div? (x y : Double) : Option Double :=
  ofFraction? (x.fraction.1 * y.fraction.2) (x.fraction.2 * y.fraction.1)

/-- The greatest power of ten in the range. -/
def maxPower : Nat := 308

def tenTo? (n : Nat) : Option Double :=
  ofFraction? (Nat.pow 10 n) 1

/-- The number divided by `10 ^ n`, a power of ten in the range after the other. -/
def shrink (x : Double) (n : Nat) : Double :=
  if n ≤ maxPower then ((tenTo? n).bind x.div?).getD zero
  else if x.isZero then x
  else shrink (((tenTo? maxPower).bind x.div?).getD zero) (n - maxPower)
termination_by n
decreasing_by simp only [maxPower] at *; omega

/-- The number `significand * 10 ^ exponent`. The significand, the power of ten and their product
are rounded one after the other. -/
def ofDecimal? (significand : Nat) (exponent : Int) : Option Double := do
  let x ← ofFraction? significand 1
  if x.isZero then some x
  else if exponent < 0 then some (x.shrink (-exponent).toNat)
  else if maxPower < exponent then none
  else x.mul? (← tenTo? exponent.toNat)

end Double

end Tsql

namespace Tsql.Double

/-- The power of ten of the first digit of a fraction that is not zero. -/
def leadingPower (num den : Nat) : Int :=
  if den ≤ num then (Nat.toDigits 10 (num / den)).length - 1
  else -(Nat.toDigits 10 (den / num)).length

/-- The number `digits * 10 ^ power` if it leads back to `x`. -/
def leadsTo (x : Double) (digits : Nat) (power : Int) : Bool :=
  let (n, d) := scale 10 digits 1 power
  ofFraction? n d == some (x.withSign false)

/-- Digits and the power of ten of the last of them, with `count` digits: the nearer neighbour of
the number if both lead back to it. -/
def digits? (x : Double) (count : Nat) : Option (Nat × Int) :=
  let (num, den) := x.fraction
  let power := leadingPower num den - (count - 1 : Nat)
  let (n, d) := scale 10 num den (-power)
  let nearest := roundDiv n d
  let other := if nearest = n / d then nearest + 1 else n / d
  if x.leadsTo nearest power then some (nearest, power)
  else if x.leadsTo other power then some (other, power)
  else none

/-- The most digits that a number needs. -/
def maxDigits : Nat := 17

def shortest (x : Double) : Nat × Int :=
  ((List.range maxDigits).findSome? fun k => x.digits? (k + 1)).getD (0, 0)

/-- Without the zeros at the end. -/
def significant (digits : List Char) : List Char :=
  (digits.reverse.dropWhile (· = '0')).reverse

def zeros (n : Int) : List Char :=
  List.replicate n.toNat '0'

/-- The smallest and the greatest power of ten of a first digit for which no power is written. -/
def positionalPowers : Int × Int := (-5, 15)

/-- Digits with a point, or with a power of ten where there were too many zeros. -/
def layout (digits : List Char) (leading : Int) : List Char :=
  if leading < positionalPowers.1 ∨ positionalPowers.2 < leading then
    let sign := if leading < 0 then '-' else '+'
    let fraction := if digits.length ≤ 1 then [] else '.' :: digits.drop 1
    digits.take 1 ++ fraction ++ 'e' :: sign :: Nat.toDigits 10 leading.natAbs
  else if leading < 0 then '0' :: '.' :: zeros (-leading - 1) ++ digits
  else
    let whole := digits.take (leading.toNat + 1)
    let fraction := digits.drop (leading.toNat + 1)
    whole ++ zeros (leading + 1 - whole.length) ++
      '.' :: (if fraction.isEmpty then ['0'] else fraction)

def text (x : Double) : String :=
  let size :=
    if x.isZero then ['0', '.', '0']
    else
      let (n, power) := x.shortest
      let digits := Nat.toDigits 10 n
      layout (significant digits) (power + digits.length - 1)
  String.ofList (if x.isNegative then '-' :: size else size)

end Tsql.Double
