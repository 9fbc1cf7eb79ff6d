import Tsql.Json.Basic
import Tsql.Number.Double

/-!
Writing JSON text, on one line or indented by two blanks for each level. Characters outside ASCII
stay as they are; quotes, backslashes and control characters are escaped.
-/

namespace Tsql.Json

def hexDigit (n : Nat) : Char :=
  if n < 10 then Char.ofNat ('0'.toNat + n) else Char.ofNat ('a'.toNat + (n - 10))

def escape (c : Char) : List Char :=
  match c with
  | '"' => ['\\', '"']
  | '\\' => ['\\', '\\']
  | '\n' => ['\\', 'n']
  | '\r' => ['\\', 'r']
  | '\t' => ['\\', 't']
  | '\x08' => ['\\', 'b']
  | '\x0c' => ['\\', 'f']
  | c =>
    if c.toNat < 0x20 then
      ['\\', 'u', '0', '0', hexDigit (c.toNat / 16), hexDigit (c.toNat % 16)]
    else [c]

def quote (s : String) : String :=
  "\"" ++ String.ofList (s.toList.flatMap escape) ++ "\""

def scalar : Json → String
  | null => "null"
  | bool true => "true"
  | bool false => "false"
  | int n => toString n
  | decimal x => x.text
  | str s => quote s
  | arr _ => ""
  | obj _ => ""

mutual

def compact : Json → String
  | arr items => "[" ++ compactItems items ++ "]"
  | obj fields => "\x7b" ++ compactFields fields ++ "\x7d"
  | j => scalar j

def compactItems : List Json → String
  | [] => ""
  | [j] => compact j
  | j :: js => compact j ++ "," ++ compactItems js

def compactFields : List (String × Json) → String
  | [] => ""
  | [(name, j)] => quote name ++ ":" ++ compact j
  | (name, j) :: fields => quote name ++ ":" ++ compact j ++ "," ++ compactFields fields

end

def newline (level : Nat) : String :=
  "\n" ++ String.ofList (List.replicate (2 * level) ' ')

mutual

/-- The text of a value inside `level` arrays and objects. -/
def prettyAt (level : Nat) : Json → String
  | arr [] => "[]"
  | obj [] => "\x7b\x7d"
  | arr items => "[" ++ prettyItems (level + 1) items ++ newline level ++ "]"
  | obj fields => "\x7b" ++ prettyFields (level + 1) fields ++ newline level ++ "\x7d"
  | j => scalar j

def prettyItems (level : Nat) : List Json → String
  | [] => ""
  | [j] => newline level ++ prettyAt level j
  | j :: js => newline level ++ prettyAt level j ++ "," ++ prettyItems level js

def prettyFields (level : Nat) : List (String × Json) → String
  | [] => ""
  | [(name, j)] => newline level ++ quote name ++ ": " ++ prettyAt level j
  | (name, j) :: fields =>
    newline level ++ quote name ++ ": " ++ prettyAt level j ++ "," ++ prettyFields level fields

end

def pretty (j : Json) : String :=
  prettyAt 0 j

end Tsql.Json
