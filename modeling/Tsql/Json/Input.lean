import Tsql.Json.Fault

/-!
Reading text from its beginning to its end. A reader takes characters from the input, and stops at
the first fault; faults have their place in bytes.
-/

namespace Tsql.Json

/-- What is left to read, and the number of bytes before it. -/
structure Input where
  rest : List Char
  offset : Nat := 0
  deriving Repr

def Input.drop (i : Input) (count : Nat) : Input :=
  ⟨i.rest.drop count, i.offset + Text.size (i.rest.take count)⟩

/-- Taking characters moves them from what is left to what has been read. -/
theorem Input.offset_drop (i : Input) (count : Nat) :
    (i.drop count).offset + Text.size (i.drop count).rest = i.offset + Text.size i.rest := by
  simp only [Input.drop]
  rw [Nat.add_assoc, ← Text.size_append, List.take_append_drop]

/-- A cause, and the number of bytes before its place. The fault of a record as a whole is placed
when the reading of the record ends. -/
structure Fault where
  cause : Cause
  offset : Option Nat := none
  deriving Repr

abbrev Reader := EStateM Fault Input

namespace Reader

/-- The next character. -/
def peek? : Reader (Option Char) :=
  return (← get).rest.head?

def drop (count : Nat) : Reader Unit :=
  modify fun i => i.drop count

/-- Stops before the next character. -/
def failHere {α : Type} (cause : Cause) : Reader α := do
  throw { cause := cause, offset := some (← get).offset }

/-- Stops behind the next byte, if there is one. -/
def failNext {α : Type} (cause : Cause) : Reader α := do
  let i ← get
  throw { cause := cause, offset := some (if i.rest.isEmpty then i.offset else i.offset + 1) }

def isSpace (c : Char) : Bool :=
  c = ' ' || c = '\n' || c = '\t' || c = '\r'

/-- Goes to the next character that is not blank. -/
def skipSpace : Reader (Option Char) := do
  drop ((← get).rest.takeWhile isSpace).length
  peek?

/-- The first character of a value. -/
def valueStart : Reader Char := do
  match ← skipSpace with
  | some c => return c
  | none => failHere .endInValue

/-- Reads the inside of a list or an object and then its end. A fault without a place is placed
behind as much of the end as there is. -/
def closed {α : Type} (close : Reader Unit) (inside : Reader α) : Reader α := fun i =>
  match inside i with
  | .ok a j =>
    match close j with
    | .ok _ k => .ok a k
    | .error e k => .error e k
  | .error e j =>
    match e.offset, close j with
    | some _, _ => .error e j
    | none, .ok _ k => .error { e with offset := some k.offset } k
    | none, .error _ k => .error { e with offset := some k.offset } k

/-- Reads the whole of a text. -/
def run {α : Type} (r : Reader α) (text : String) : Except ReadError α :=
  let whole : Reader α := do
    let a ← r
    match ← skipSpace with
    | none => return a
    | some _ => failNext .trailingText
  match EStateM.run whole { rest := text.toList } with
  | .ok a _ => .ok a
  | .error e _ => .error { cause := e.cause, place := e.offset.map (placeAt text.toList) }

end Reader

end Tsql.Json
