import Tsql.Number.Double

/-!
JSON values. A number is an integer of 64 bits, or else a floating-point number, which no setting
here takes. The fields of an object keep their order, repeated names included.
-/

namespace Tsql

inductive Json
  | null
  | bool (b : Bool)
  | int (n : Int)
  | decimal (x : Double)
  | str (s : String)
  | arr (items : List Json)
  | obj (fields : List (String × Json))
  deriving Inhabited, Repr

namespace Json

def ofNat (n : Nat) : Json :=
  int n

/-- `null` for nothing. -/
def ofOption {α : Type} (encode : α → Json) : Option α → Json
  | none => null
  | some a => encode a

def ofList {α : Type} (encode : α → Json) (xs : List α) : Json :=
  arr (xs.map encode)

def isNull : Json → Bool
  | null => true
  | _ => false

def toStr? : Json → Option String
  | str s => some s
  | _ => none

def toBool? : Json → Option Bool
  | bool b => some b
  | _ => none

/-- An unsigned integer of 64 bits. -/
def toSize? : Json → Option Nat
  | int n => if 0 ≤ n ∧ n < UInt64.size then some n.toNat else none
  | _ => none

/-- The value of the last field with the given name. -/
def get? (name : String) : Json → Option Json
  | obj fields => (fields.reverse.find? fun f => f.1 == name).map Prod.snd
  | _ => none

/-- The pairs without those whose first part comes again later. -/
def lastOfEachName {α : Type} : List (String × α) → List (String × α)
  | [] => []
  | d :: ds =>
    if ds.any fun later => later.1 == d.1 then lastOfEachName ds else d :: lastOfEachName ds

end Json

end Tsql
