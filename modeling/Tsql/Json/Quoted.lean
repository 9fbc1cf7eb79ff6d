import Tsql.Json.Input

/-!
Strings of JSON text, with their escapes.

A string that is read is checked to the end: an escaped half of a pair of code units must come with
the other half. A string that is skipped only has to be closed, with escapes of the right form.
-/

namespace Tsql.Json

def hexDigit? (c : Char) : Option Nat :=
  if c.isDigit then some (c.toNat - '0'.toNat)
  else if 'a' ≤ c ∧ c ≤ 'f' then some (c.toNat - 'a'.toNat + 10)
  else if 'A' ≤ c ∧ c ≤ 'F' then some (c.toNat - 'A'.toNat + 10)
  else none

def hex4? (a b c d : Char) : Option Nat := do
  let a ← hexDigit? a
  let b ← hexDigit? b
  let c ← hexDigit? c
  let d ← hexDigit? d
  some (((a * 16 + b) * 16 + c) * 16 + d)

/-- The character of an escape with one letter. -/
def escaped? : Char → Option Char
  | '"' => some '"'
  | '\\' => some '\\'
  | '/' => some '/'
  | 'b' => some '\x08'
  | 'f' => some '\x0c'
  | 'n' => some '\n'
  | 'r' => some '\r'
  | 't' => some '\t'
  | _ => none

def stop {α : Type} (cause : Cause) (offset : Nat) : Except Fault α :=
  .error { cause := cause, offset := some offset }

/-- The code unit of four digits to base 16, which take the next four bytes. -/
def codeUnit (offset : Nat) (cs : List Char) : Except Fault Nat :=
  match cs with
  | a :: b :: c :: d :: _ =>
    match hex4? a b c d with
    | some n => .ok n
    | none => stop .badEscape (offset + 4)
  | _ =>
    if Text.size cs < 4 then stop .endInString (offset + Text.size cs)
    else stop .badEscape (offset + 4)

def isHighHalf (n : Nat) : Bool :=
  0xD800 ≤ n && n < 0xDC00

def isLowHalf (n : Nat) : Bool :=
  0xDC00 ≤ n && n < 0xE000

/-- The character that two halves of a pair make. -/
def paired (high low : Nat) : Char :=
  Char.ofNat (0x10000 + (high - 0xD800) * 0x400 + (low - 0xDC00))

/-- The character of the escape that stands behind a backslash, and the number of characters that
the escape takes. -/
def unescape (offset : Nat) : List Char → Except Fault (Char × Nat)
  | [] => stop .endInString offset
  | 'u' :: cs => do
    let n ← codeUnit (offset + 1) cs
    if isLowHalf n then stop .loneHalf (offset + 5)
    else if !isHighHalf n then return (Char.ofNat n, 5)
    else
      match cs.drop 4 with
      | [] => stop .endInString (offset + 5)
      | ['\\'] => stop .endInString (offset + 6)
      | '\\' :: 'u' :: more =>
        let low ← codeUnit (offset + 7) more
        if isLowHalf low then return (paired n low, 11) else stop .loneHalf (offset + 11)
      | '\\' :: _ => stop .missingHalf (offset + 7)
      | _ => stop .missingHalf (offset + 6)
  | c :: _ =>
    match escaped? c with
    | some c => .ok (c, 1)
    | none => stop .badEscape (offset + 1)

/-- The number of characters that the escape behind a backslash takes, whatever it stands for. -/
def escapeWidth (offset : Nat) : List Char → Except Fault Nat
  | [] => stop .endInString offset
  | 'u' :: cs => do
    let _ ← codeUnit (offset + 1) cs
    return 5
  | c :: _ => if (escaped? c).isSome then .ok 1 else stop .badEscape (offset + 1)

/-- The characters up to the closing quote, behind those that have been `done`, last first. -/
def unquote (done : List Char) (offset : Nat) (cs : List Char) :
    Except Fault (List Char × Input) :=
  match cs with
  | [] => stop .endInString offset
  | c :: cs =>
    if c = '"' then .ok (done.reverse, ⟨cs, offset + 1⟩)
    else if c = '\\' then
      match unescape (offset + 1) cs with
      | .ok (e, width) => unquote (e :: done) (offset + 1 + width) (cs.drop width)
      | .error fault => .error fault
    else if c.toNat < 0x20 then stop .controlCharacter (offset + 1)
    else unquote (c :: done) (offset + c.utf8Size) cs
termination_by cs.length
decreasing_by all_goals simp; try omega

/-- What comes behind the closing quote. -/
def skipQuoted (offset : Nat) (cs : List Char) : Except Fault Input :=
  match cs with
  | [] => stop .endInString offset
  | c :: cs =>
    if c = '"' then .ok ⟨cs, offset + 1⟩
    else if c = '\\' then
      match escapeWidth (offset + 1) cs with
      | .ok width => skipQuoted (offset + 1 + width) (cs.drop width)
      | .error fault => .error fault
    else if c.toNat < 0x20 then stop .controlCharacter offset
    else skipQuoted (offset + c.utf8Size) cs
termination_by cs.length
decreasing_by all_goals simp; try omega

namespace Reader

/-- The text of a string, behind the quote that opens it. -/
def quoted : Reader String := do
  let i ← get
  match unquote [] i.offset i.rest with
  | .ok (cs, j) =>
    set j
    return String.ofList cs
  | .error fault => throw fault

/-- Goes behind a string, from behind the quote that opens it. -/
def skipString : Reader Unit := do
  let i ← get
  match skipQuoted i.offset i.rest with
  | .ok j => set j
  | .error fault => throw fault

end Reader

end Tsql.Json
