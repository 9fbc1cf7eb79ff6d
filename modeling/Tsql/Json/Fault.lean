import Tsql.Json.Basic
import Tsql.Number.Double
import Tsql.Text.Basic
import Tsql.Text.Quoted

/-!
What can be wrong with JSON text, and with a value in place of another.
-/

namespace Tsql.Json

/-- A value without what is inside lists and objects. -/
inductive Shape
  | null
  | bool (b : Bool)
  | int (n : Int)
  | decimal (x : Double)
  | str (s : String)
  | list
  | object
  deriving DecidableEq, Repr

def shape : Json → Shape
  | .null => .null
  | .bool b => .bool b
  | .int n => .int n
  | .decimal x => .decimal x
  | .str s => .str s
  | .arr _ => .list
  | .obj _ => .object

def Shape.text : Shape → String
  | null => "null"
  | bool b => "boolean `" ++ (if b then "true" else "false") ++ "`"
  | int n => "integer `" ++ toString n ++ "`"
  | decimal x => "floating point `" ++ x.text ++ "`"
  | str s => "string " ++ Text.quoted s
  | list => "sequence"
  | object => "map"

inductive Cause
  /-- The text ends where a value has to come, or inside a number or word. -/
  | endInValue
  | endInList
  | endInObject
  | endInString
  | noColon
  | noListSeparator
  | noObjectSeparator
  | noWord
  | noValue
  | badEscape
  | badNumber
  | hugeNumber
  | controlCharacter
  | noKey
  /-- An escape for the second half of a pair without the first, or the other way round. -/
  | loneHalf
  /-- The escape for the first half of a pair is the last of its kind. -/
  | missingHalf
  | trailingComma
  | trailingText
  | tooDeep
  | wrongType (found : Shape) (expected : String)
  | wrongValue (found : Int) (expected : String)
  | wrongLength (found : Nat) (expected : String)
  | missingField (name : String)
  | repeatedField (name : String)
  | unknownVariant (name : String) (known : List String)
  /-- The name of a variant alone, where the variant has a value. -/
  | bareVariant
  deriving DecidableEq, Repr

def Cause.message : Cause → String
  | endInValue => "EOF while parsing a value"
  | endInList => "EOF while parsing a list"
  | endInObject => "EOF while parsing an object"
  | endInString => "EOF while parsing a string"
  | noColon => "expected `:`"
  | noListSeparator => "expected `,` or `]`"
  | noObjectSeparator => "expected `,` or `\x7d`"
  | noWord => "expected ident"
  | noValue => "expected value"
  | badEscape => "invalid escape"
  | badNumber => "invalid number"
  | hugeNumber => "number out of range"
  | controlCharacter =>
    "control character (\\u0000-\\u001F) found while parsing a string"
  | noKey => "key must be a string"
  | loneHalf => "lone leading surrogate in hex escape"
  | missingHalf => "unexpected end of hex escape"
  | trailingComma => "trailing comma"
  | trailingText => "trailing characters"
  | tooDeep => "recursion limit exceeded"
  | wrongType found expected => "invalid type: " ++ found.text ++ ", expected " ++ expected
  | wrongValue found expected =>
    "invalid value: integer `" ++ toString found ++ "`, expected " ++ expected
  | wrongLength found expected => "invalid length " ++ toString found ++ ", expected " ++ expected
  | missingField name => "missing field `" ++ name ++ "`"
  | repeatedField name => "duplicate field `" ++ name ++ "`"
  | unknownVariant name known =>
    "unknown variant `" ++ name ++ "`, expected one of " ++
      ", ".intercalate (known.map fun k => "`" ++ k ++ "`")
  | bareVariant => "invalid type: unit variant, expected newtype variant"

/-- Lines count from 1; a column is the number of bytes of the line that have been looked at. -/
structure Place where
  line : Nat
  column : Nat
  deriving DecidableEq, Repr

/-- The place behind the first `offset` bytes of a text. -/
def placeAt (text : List Char) (offset : Nat) : Place :=
  let before := Text.takeSize offset text
  let line := before.reverse.takeWhile (· ≠ '\n')
  ⟨1 + before.count '\n', Text.size line + (offset - Text.size before)⟩

/-- A cause, with its place where it comes from a text. -/
structure ReadError where
  cause : Cause
  place : Option Place := none
  deriving DecidableEq, Repr

def ReadError.message (e : ReadError) : String :=
  e.cause.message ++ e.place.elim "" fun p =>
    " at line " ++ toString p.line ++ " column " ++ toString p.column

end Tsql.Json
