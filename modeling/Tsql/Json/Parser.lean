import Tsql.Json.Literal

/-!
Lists, objects and whole values of JSON text. Arrays and objects nest at most 127 deep.

A value that nobody asks for is skipped. It has to have the right form, but its numbers may have any
size, its strings may hold halves of pairs, and it may nest without limit.
-/

namespace Tsql.Json

/-- What is open around a value. -/
inductive Bracket
  | list
  | object
  deriving DecidableEq, Repr

namespace Bracket

def closing : Bracket → Char
  | list => ']'
  | object => '\x7d'

def endCause : Bracket → Cause
  | list => .endInList
  | object => .endInObject

def separatorCause : Bracket → Cause
  | list => .noListSeparator
  | object => .noObjectSeparator

def ofChar? : Char → Option Bracket
  | '[' => some list
  | '\x7b' => some object
  | _ => none

end Bracket

namespace Reader

/-- The colon behind a key. -/
def colon : Reader Unit := do
  match ← skipSpace with
  | some ':' => drop 1
  | some _ => failNext .noColon
  | none => failHere .endInObject

def skipPower : Reader Unit := do
  drop 1
  if (← peek?).any fun c => c = '+' || c = '-' then drop 1
  if (← digits).isEmpty then failNext .badNumber

def skipFraction : Reader Unit := do
  drop 1
  if (← digits).isEmpty then failNext .badNumber
  match ← peek? with
  | some 'e' | some 'E' => skipPower
  | _ => return

def skipNumber : Reader Unit := do
  match ← peek? with
  | some '0' =>
    drop 1
    if (← peek?).any Char.isDigit then failNext .badNumber
  | _ => if (← digits).isEmpty then failNext .badNumber
  match ← peek? with
  | some '.' => skipFraction
  | some 'e' | some 'E' => skipPower
  | _ => return

def skipScalar : Reader Unit := do
  match ← peek? with
  | some '"' =>
    drop 1
    skipString
  | some 'n' => word ['n', 'u', 'l', 'l']
  | some 't' => word ['t', 'r', 'u', 'e']
  | some 'f' => word ['f', 'a', 'l', 's', 'e']
  | some '-' =>
    drop 1
    skipNumber
  | some c => if c.isDigit then skipNumber else failNext .noValue
  | none => failHere .endInValue

/-- The key of a field and its colon. -/
def skipKey : Reader Unit := do
  match ← skipSpace with
  | some '"' =>
    drop 1
    skipString
    colon
  | some _ => failNext .noKey
  | none => failHere .endInObject

/-- Goes behind the brackets that are closed next, and behind the comma that may come if there has
been a value; what is still open is the answer. -/
def skipClosing (hasValue : Bool) : List Bracket → Reader (List Bracket)
  | [] => return []
  | b :: around => do
    match ← skipSpace with
    | none => failHere b.endCause
    | some c =>
      if c = b.closing then
        drop 1
        skipClosing true around
      else if !hasValue then return b :: around
      else if c = ',' then
        drop 1
        return b :: around
      else failNext b.separatorCause

/-- Goes behind a value and all that is open around it. Each value takes a character. -/
def skipWithin : Nat → List Bracket → Reader Unit
  | 0, _ => return
  | fuel + 1, around => do
    let c ← valueStart
    let stillOpen ←
      match Bracket.ofChar? c with
      | some b =>
        drop 1
        skipClosing false (b :: around)
      | none =>
        skipScalar
        skipClosing true around
    match stillOpen with
    | [] => return
    | .list :: _ => skipWithin fuel stillOpen
    | .object :: _ =>
      skipKey
      skipWithin fuel stillOpen

/-- Goes behind the next value. -/
def skipValue : Reader Unit := do
  skipWithin ((← get).rest.length + 1) []

end Reader

end Tsql.Json

namespace Tsql.Json.Reader

/-- Whether there is one more item in a list. -/
def hasItem (isFirst : Bool) : Reader Bool := do
  match ← skipSpace with
  | none => failHere .endInList
  | some ']' => return false
  | some c =>
    if isFirst then return true
    else if c = ',' then
      drop 1
      match ← skipSpace with
      | some ']' => failNext .trailingComma
      | some _ => return true
      | none => failHere .endInValue
    else failNext .noListSeparator

/-- Whether there is one more field in an object. -/
def hasField (isFirst : Bool) : Reader Bool := do
  match ← skipSpace with
  | none => failHere .endInObject
  | some '\x7d' => return false
  | some '"' => if isFirst then return true else failNext .noObjectSeparator
  | some c =>
    if isFirst then failNext .noKey
    else if c = ',' then
      drop 1
      match ← skipSpace with
      | some '"' => return true
      | some '\x7d' => failNext .trailingComma
      | some _ => failNext .noKey
      | none => failHere .endInValue
    else failNext .noObjectSeparator

def closeList : Reader Unit := do
  match ← skipSpace with
  | some ']' => drop 1
  | some ',' =>
    drop 1
    match ← skipSpace with
    | some ']' => failNext .trailingComma
    | _ => failNext .trailingText
  | some _ => failNext .trailingText
  | none => failHere .endInList

def closeObject : Reader Unit := do
  match ← skipSpace with
  | some '\x7d' => drop 1
  | some ',' => failNext .trailingComma
  | some _ => failNext .trailingText
  | none => failHere .endInObject

/-- The key of a field, from its opening quote on. -/
def key : Reader String := do
  drop 1
  quoted

/-- The items up to the end of a list, behind those that are `done`, last first. Each item takes a
character. -/
def itemsWithin {α : Type} (item : Reader α) (isFirst : Bool) (done : List α) :
    Nat → Reader (List α)
  | 0 => return done.reverse
  | fuel + 1 => do
    if ← hasItem isFirst then
      let a ← item
      itemsWithin item false (a :: done) fuel
    else return done.reverse

/-- The fields up to the end of an object, with values that may hang on the state and the key. -/
def fieldsWithin {σ : Type} (field : σ → String → Reader σ) (isFirst : Bool) (s : σ) :
    Nat → Reader σ
  | 0 => return s
  | fuel + 1 => do
    if ← hasField isFirst then
      let next ← field s (← key)
      fieldsWithin field false next fuel
    else return s

/-- A list, from its bracket on. -/
def items {α : Type} (item : Reader α) : Reader (List α) := do
  drop 1
  closed closeList do itemsWithin item true [] ((← get).rest.length + 1)

/-- An object, from its brace on. A field is read behind its key. -/
def fields {σ : Type} (field : σ → String → Reader σ) (start : σ) : Reader σ := do
  drop 1
  closed closeObject do fieldsWithin field true start ((← get).rest.length + 1)

/-- A value, by what to do about lists and objects. -/
def valueWith (list object : Reader Json) : Reader Json := do
  match ← valueStart with
  | '[' => list
  | '\x7b' => object
  | _ => scalar

/-- A value that nests at most so deep. -/
def valueWithin : Nat → Reader Json
  | 0 => valueWith (failNext .tooDeep) (failNext .tooDeep)
  | depth + 1 =>
    valueWith (do return .arr (← items (valueWithin depth)))
      (do
        let done ← fields (fun done name => do
          colon
          return (name, ← valueWithin depth) :: done) []
        return .obj done.reverse)

def maxNesting : Nat := 127

def value : Reader Json :=
  valueWithin maxNesting

end Tsql.Json.Reader

namespace Tsql.Json

/-- Reads a text that holds one value. -/
def parse (text : String) : Except ReadError Json :=
  Reader.value.run text

def parse? (text : String) : Option Json :=
  (parse text).toOption

end Tsql.Json
