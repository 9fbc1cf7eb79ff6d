import Tsql.Json.Quoted
import Tsql.Text.Class

/-!
Numbers and words of JSON text.

A number keeps the digits that fit into 64 bits; digits behind them only count places. It is an
integer if it is written without a point and a power of ten and fits into 64 bits; minus zero is
not an integer.
-/

namespace Tsql.Json

/-- A number with digits appended as long as it stays below `2 ^ 64`, and how many they are. -/
def appendDigits (n : Nat) : List Char → Nat × Nat
  | [] => (n, 0)
  | c :: cs =>
    let next := n * 10 + (c.toNat - '0'.toNat)
    if next < UInt64.size then
      let (m, count) := appendDigits next cs
      (m, count + 1)
    else (n, 0)

theorem appendDigits_lt {n : Nat} (h : n < UInt64.size) (cs : List Char) :
    (appendDigits n cs).1 < UInt64.size := by
  induction cs generalizing n with
  | nil => simpa [appendDigits]
  | cons c cs ih =>
    simp only [appendDigits]
    split
    · next hlt => exact ih hlt
    · exact h

/-- The greatest power of ten that can be written. -/
def maxWrittenPower : Nat := 2147483647

/-- Number of the digits with which a power becomes too great. -/
def overlongPower? (ds : List Char) : Option Nat :=
  let zeros := (ds.takeWhile (· = '0')).length
  let counted := ds.drop zeros
  ((List.range 12).find? fun k => maxWrittenPower < Text.natOfDigits (counted.take k)).map
    (zeros + ·)

/-- The value of a whole number with its sign, if it is an integer. -/
def integer? (isNegative : Bool) (n : Nat) : Option Json :=
  if !isNegative then some (int n)
  else if n ≠ 0 ∧ n ≤ UInt64.size / 2 then some (int (-n))
  else none

namespace Reader

def digits : Reader (List Char) := do
  let ds := (← get).rest.takeWhile Char.isDigit
  drop ds.length
  return ds

/-- The number `significand * 10 ^ power`. -/
def decimalOf (isNegative : Bool) (significand : Nat) (power : Int) : Reader Json := do
  match Double.ofDecimal? significand power with
  | some x => return .decimal (x.withSign isNegative)
  | none => failHere .hugeNumber

/-- The rest of a number from its power of ten on, with the places that the digits before it
count. -/
def powerTail (isNegative : Bool) (significand : Nat) (places : Int) : Reader Json := do
  drop 1
  let sign := (← peek?).filter fun c => c = '+' || c = '-'
  drop sign.toList.length
  match ← peek? with
  | none => failHere .endInValue
  | some c => if !c.isDigit then failNext .badNumber
  let start ← get
  let ds ← digits
  let isSmall := sign = some '-'
  match (overlongPower? ds).filter fun _ => significand ≠ 0 && !isSmall with
  | some k =>
    set (start.drop k)
    failHere .hugeNumber
  | none =>
    let power : Int := Text.natOfDigits ds
    decimalOf isNegative significand (if isSmall then places - power else places + power)

/-- The rest of a number from its point on. -/
def fractionTail (isNegative : Bool) (significand : Nat) (places : Int) : Reader Json := do
  drop 1
  let ds ← digits
  if ds.isEmpty then
    match ← peek? with
    | some _ => failNext .badNumber
    | none => failHere .endInValue
  let (n, count) := appendDigits significand ds
  match ← peek? with
  | some 'e' | some 'E' => powerTail isNegative n (places - count)
  | _ => decimalOf isNegative n (places - count)

/-- The digits of a whole number: one zero, or digits without a zero in front. -/
def wholeDigits : Reader (List Char) := do
  match ← peek? with
  | none => failHere .endInValue
  | some '0' =>
    drop 1
    if (← peek?).any Char.isDigit then failNext .badNumber
    return ['0']
  | some c => if c.isDigit then digits else failNext .badNumber

/-- A number behind its sign. -/
def number (isNegative : Bool) : Reader Json := do
  let ds ← wholeDigits
  let (n, count) := appendDigits 0 ds
  let places : Int := (ds.length - count : Nat)
  match ← peek? with
  | some '.' => fractionTail isNegative n places
  | some 'e' | some 'E' => powerTail isNegative n places
  | _ =>
    match (integer? isNegative n).filter fun _ => places = 0 with
    | some j => return j
    | none => decimalOf isNegative n places

/-- The characters of a word, one after the other. -/
def word : List Char → Reader Unit
  | [] => return
  | c :: cs => do
    match ← peek? with
    | none => failHere .endInValue
    | some d =>
      if d ≠ c then failNext .noWord
      drop 1
      word cs

/-- A value that is neither a list nor an object. -/
def scalar : Reader Json := do
  match ← peek? with
  | some '"' =>
    drop 1
    return .str (← quoted)
  | some 'n' =>
    word ['n', 'u', 'l', 'l']
    return .null
  | some 't' =>
    word ['t', 'r', 'u', 'e']
    return .bool true
  | some 'f' =>
    word ['f', 'a', 'l', 's', 'e']
    return .bool false
  | some '-' =>
    drop 1
    number true
  | some c => if c.isDigit then number false else failNext .noValue
  | none => failHere .endInValue

end Reader

end Tsql.Json
