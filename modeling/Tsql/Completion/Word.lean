import Tsql.Delimited

/-!
The word in front of a cursor: what has been typed of it, and the name before a dot in front of it.
-/

namespace Tsql

namespace Text

/-- The text before the last `c` and the text behind it. -/
def splitAtLast? (c : Char) (cs : List Char) : Option (List Char × List Char) :=
  match cs.reverse.dropWhile (· ≠ c) with
  | [] => none
  | _ :: before => some (before.reverse, (cs.reverse.takeWhile (· ≠ c)).reverse)

/-- The text without the characters of a name at its end. -/
def beforeWord (cs : List Char) : List Char :=
  (cs.reverse.dropWhile isWordChar).reverse

/-- The characters of a name at the end of the text. -/
def lastWord (cs : List Char) : List Char :=
  (cs.reverse.takeWhile isWordChar).reverse

@[simp] theorem beforeWord_append_lastWord (cs : List Char) :
    beforeWord cs ++ lastWord cs = cs := by
  rw [beforeWord, lastWord, ← List.reverse_append, List.takeWhile_append_dropWhile,
    List.reverse_reverse]

end Text

/-- A name in front of a dot. -/
structure Qualifier where
  name : String
  isQuoted : Bool
  /-- The text before the name. -/
  before : List Char
  deriving Repr

namespace Qualifier

/-- A name between delimiters, given the text up to the closing one. -/
def quoted? (opening close : Char) (cs : List Char) : Option Qualifier :=
  (Text.splitAtLast? opening cs).map fun (before, inner) =>
    ⟨String.ofList (Delimited.undoubled close inner), true, before⟩

/-- The name that the text ends with. Digits alone at its start make it a number. -/
def atEnd? (cs : List Char) : Option Qualifier :=
  if cs.getLast? = some ']' then quoted? '[' ']' cs.dropLast
  else if cs.getLast? = some '"' then quoted? '"' '"' cs.dropLast
  else
    match Text.lastWord cs with
    | [] => none
    | c :: word =>
      if c.isDigit then none else some ⟨String.ofList (c :: word), false, Text.beforeWord cs⟩

/-- The name in front of a dot at the end of the text. -/
def beforeDot? (cs : List Char) : Option Qualifier :=
  if cs.getLast? = some '.' then atEnd? cs.dropLast else none

end Qualifier

/-- What stands in front of a cursor. -/
structure CursorWord where
  /-- The word typed so far, without a bracket that opens it. -/
  typed : String
  /-- The character before the word. -/
  trigger : Option Char
  /-- The name before the dot in front of the word. -/
  qualifier : Option String
  /-- The qualifier is quoted, or the word is in an open bracket. -/
  isBracketed : Bool
  /-- Number of bytes before the word and its qualifier. -/
  start : Nat
  deriving DecidableEq, Repr

namespace CursorWord

/-- The word with the text `head` before it. -/
def behind (head typed : List Char) (trigger : Option Char) (inBracket : Bool) : CursorWord :=
  let qualifier := Qualifier.beforeDot? head
  { typed := String.ofList (Delimited.undoubled ']' typed)
    trigger := trigger
    qualifier := qualifier.map Qualifier.name
    isBracketed := qualifier.any Qualifier.isQuoted || inBracket
    start := Text.size ((qualifier.map Qualifier.before).getD head) }

/-- The word at the end of a text. Inside an open bracket it reaches back to the last bracket that
opens. -/
def atEnd (cs : List Char) (inBracket : Bool) : CursorWord :=
  match if inBracket then Text.splitAtLast? '[' cs else none with
  | some (head, typed) => behind head typed (some '[') inBracket
  | none => behind (Text.beforeWord cs) (Text.lastWord cs) (Text.beforeWord cs).getLast? inBracket

end CursorWord

end Tsql
