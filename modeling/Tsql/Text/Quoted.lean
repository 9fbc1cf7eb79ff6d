import Tsql.Text.Class
import Tsql.Text.Invisible

/-!
Text in quotes as messages show it: a quote, a backslash and the characters that cannot be seen by
themselves are written with a backslash, all else as it is.
-/

namespace Tsql.Text

/-- The lower-case digits of a number to base 16. -/
def hexDigits (n : Nat) : List Char :=
  Nat.toDigits 16 n

/-- A character that would be lost on a reader: a mark, a blank, a control, or no character at
all. -/
def isInvisible (c : Char) : Bool :=
  if c.toNat < 128 then c.toNat < 0x20 || c.toNat = 0x7F else inRanges invisibleRanges c

def quotedChar (c : Char) : List Char :=
  if c = '"' then ['\\', '"']
  else if c = '\\' then ['\\', '\\']
  else if c = '\n' then ['\\', 'n']
  else if c = '\r' then ['\\', 'r']
  else if c = '\t' then ['\\', 't']
  else if c.toNat = 0 then ['\\', '0']
  else if isInvisible c then ['\\', 'u', '\x7b'] ++ hexDigits c.toNat ++ ['\x7d']
  else [c]

/-- The text in quotes. -/
def quoted (s : String) : String :=
  String.ofList ('"' :: s.toList.flatMap quotedChar ++ ['"'])

/-- The texts in quotes, separated by commas and in brackets. -/
def quotedList (ss : List String) : String :=
  "[" ++ ", ".intercalate (ss.map quoted) ++ "]"

/-- The text in quotes, marked as being there or not. -/
def quotedOption : Option String → String
  | some s => "Some(" ++ quoted s ++ ")"
  | none => "None"

end Tsql.Text
