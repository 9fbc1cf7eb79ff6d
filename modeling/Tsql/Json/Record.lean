import Tsql.Json.Fault
import Tsql.Json.Parser

/-!
Reading JSON text as data of a given form. What is not of the form is a fault as soon as it is
reached, also where the text goes wrong further on.

A record is an object, or an array of the values of its fields in their order. Fields with other
names are skipped.
-/

namespace Tsql.Json

/-! ### Values of an expected kind -/

def wrongType {α : Type} (j : Json) (expected : String) : Except Cause α :=
  .error (.wrongType j.shape expected)

/-- A text, under the name that messages give to what is expected. -/
def asText (expected : String) : Json → Except Cause String
  | .str s => .ok s
  | j => j.wrongType expected

def asString : Json → Except Cause String :=
  asText "a string"

def asBool : Json → Except Cause Bool
  | .bool b => .ok b
  | j => j.wrongType "a boolean"

/-- An unsigned integer of 64 bits. -/
def asSize : Json → Except Cause Nat
  | .int n => if 0 ≤ n then .ok n.toNat else .error (.wrongValue n "usize")
  | j => j.wrongType "usize"

def asNull : Json → Except Cause Unit
  | .null => .ok ()
  | j => j.wrongType "unit"

/-- A value that may be `null`. -/
def orNull {α : Type} (decode : Json → Except Cause α) : Json → Except Cause (Option α)
  | .null => .ok none
  | j => some <$> decode j

/-! ### Readers -/

/-- A field of the records `α`, with the reader that puts its value into a record. -/
structure Field (α : Type) where
  name : String
  isRequired : Bool := false
  put : α → Reader α

namespace Reader

/-- A value that is no list and no object, decoded. -/
def decoded {α : Type} (decode : Json → Except Cause α) : Reader α := do
  let c ← valueStart
  let j ←
    match c with
    | '[' => pure (.arr [])
    | '\x7b' => pure (.obj [])
    | _ => scalar
  match decode j with
  | .ok a => return a
  | .error cause => failHere cause

def string : Reader String :=
  decoded asString

def bool : Reader Bool :=
  decoded asBool

def size : Reader Nat :=
  decoded asSize

/-- What the reader takes, or `null`. -/
def orNull {α : Type} (r : Reader α) : Reader (Option α) := do
  match ← skipSpace with
  | some 'n' =>
    word ['n', 'u', 'l', 'l']
    return none
  | _ => return some (← r)

/-- A list whose items the reader takes. -/
def listOf {α : Type} (item : Reader α) : Reader (List α) := do
  if (← valueStart) = '[' then items item
  else decoded fun j => j.wrongType "a sequence"

/-- An object with values that the reader takes, in the order of the text. -/
def mapOf {α : Type} (item : Reader α) : Reader (List (String × α)) := do
  if (← valueStart) = '\x7b' then
    let done ← fields (fun done name => do
      colon
      return (name, ← item) :: done) []
    return done.reverse
  else decoded fun j => j.wrongType "a map"

/-- A fault that is placed where the record ends. -/
def failOpen {α : Type} (cause : Cause) : Reader α :=
  throw { cause := cause }

/-- The fields of a record in an array, one after the other; there may be too few of them. -/
def fieldsInOrder {α : Type} (kind : String) (total : Nat) (isFirst : Bool) (a : α) :
    List (Field α) → Reader α
  | [] => return a
  | f :: fs => do
    if ← hasItem isFirst then
      fieldsInOrder kind total false (← f.put a) fs
    else if f.isRequired then
      let count := total - (fs.length + 1)
      failOpen (.wrongLength count (kind ++ " with " ++ toString total ++ " elements"))
    else fieldsInOrder kind total isFirst a fs

/-- A field of a record in an object, behind its key. The names of the fields that have come go
with the record. -/
def fieldByName {α : Type} (fs : List (Field α)) (s : α × List String) (name : String) :
    Reader (α × List String) :=
  match fs.find? fun f => f.name = name with
  | none => do
    colon
    skipValue
    return s
  | some f => do
    if s.2.contains name then failOpen (.repeatedField name)
    colon
    return (← f.put s.1, name :: s.2)

/-- The fields of a record in an object. -/
def fieldsByName {α : Type} (fs : List (Field α)) (a : α) : Reader α := do
  let (a, names) ← fieldsWithin (fieldByName fs) true (a, []) ((← get).rest.length + 1)
  match fs.find? fun f => f.isRequired && !names.contains f.name with
  | some f => failOpen (.missingField f.name)
  | none => return a

/-- A record, with the name that messages give to its kind; fields that do not come are left as they
are in `start`. -/
def record {α : Type} (kind : String) (fs : List (Field α)) (start : α) : Reader α := do
  match ← valueStart with
  | '[' =>
    drop 1
    closed closeList (fieldsInOrder kind fs.length true start fs)
  | '\x7b' =>
    drop 1
    closed closeObject (fieldsByName fs start)
  | _ => decoded fun j => j.wrongType kind

/-- A name out of a list of known ones. -/
def variant {α : Type} (known : List (String × α)) : Reader α :=
  decoded fun j => do
    let name ← asText "variant identifier" j
    match known.lookup name with
    | some a => return a
    | none => throw (.unknownVariant name (known.map Prod.fst))

/-- A variant as its name alone, or as an object with the name and what goes with it. A reader takes
what goes with a variant; `bare` is the variant without it, if it can be so. -/
def tagged {α : Type} (known : List (String × Option α × Reader α)) : Reader α := do
  match ← valueStart with
  | '"' =>
    match (← variant known).1 with
    | some a => return a
    | none => failOpen .bareVariant
  | '\x7b' =>
    drop 1
    let (_, r) ← variant known
    colon
    let a ← r
    match ← skipSpace with
    | some '\x7d' =>
      drop 1
      return a
    | some _ => failHere .noValue
    | none => failHere .endInObject
  | _ => failNext .noValue

end Reader

end Tsql.Json
