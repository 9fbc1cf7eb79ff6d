import Tsql.Delimited
import Tsql.Keyword
import Tsql.Position

/-!
Tokens: the flat lexical elements of SQL text, and readable text for them. In it blanks are
normalised: none around a dot, none inside parentheses, none before a comma, none between a name and
an opening parenthesis, one elsewhere.
-/

namespace Tsql

/-! ### Tokens -/

inductive TokenKind
  | number
  | identifier
  | keyword (word : Keyword)
  | operator
  | quoted
  | bracketed
  | dot
  | comma
  | parenOpen
  | parenClose
  | semicolon
  deriving DecidableEq, Repr

/-- A token and where it stands. The text is as written, except that a bracketed name is without
its delimiters and with doubled ones made single. -/
structure Token where
  kind : TokenKind
  text : String
  start : Position
  stop : Position
  deriving DecidableEq, Repr

namespace Token

def range (t : Token) : Range :=
  ⟨t.start, t.stop⟩

def isKeyword (t : Token) (word : Keyword) : Bool :=
  t.kind = .keyword word

/-- Whether the token is one of the given reserved words. -/
def isAnyKeyword (t : Token) (words : List Keyword) : Bool :=
  match t.kind with
  | .keyword word => words.contains word
  | _ => false

/-- Whether the token can name an object. -/
def isName (t : Token) : Bool :=
  t.kind = .identifier || t.kind = .bracketed

def isOperator (t : Token) (op : String) : Bool :=
  t.kind = .operator && t.text == op

def isOpen (t : Token) : Bool :=
  t.kind = .parenOpen

def isClose (t : Token) : Bool :=
  t.kind = .parenClose

/-- Whether the token is the given word, reserved or not, but not in brackets. -/
def isWord (t : Token) (word : String) : Bool :=
  (match t.kind with
    | .keyword _ => true
    | .identifier => true
    | _ => false) && Text.sameFolded t.text.toList word.toList

end Token

/-- The range from the start of the first token to the end of the last one. -/
def Range.ofTokens (ts : List Token) : Range :=
  match ts.head?, ts.getLast? with
  | some first, some last => ⟨first.start, last.stop⟩
  | _, _ => default

theorem Range.ofTokens_cons (t : Token) (ts : List Token) :
    Range.ofTokens (t :: ts) = ⟨t.start, ((t :: ts).getLast (List.cons_ne_nil t ts)).stop⟩ := by
  simp [Range.ofTokens, List.getLast?_eq_some_getLast]

/-! ### Text of tokens -/

/-- The text of one token. A bracketed name gets brackets, whichever delimiters it was written
with. -/
def Token.display (t : Token) : String :=
  if t.kind = .bracketed then String.ofList (Delimited.enclose '[' ']' t.text.toList) else t.text

/-- Whether two tokens in a row stand without a blank between them. -/
def Token.isTightBefore (left right : Token) : Bool :=
  right.kind = .dot || right.kind = .comma || right.kind = .parenClose ||
    left.kind = .dot || left.kind = .parenOpen || right.kind = .parenOpen && left.isName

def tokensText : List Token → String
  | [] => ""
  | [t] => t.display
  | left :: right :: ts =>
    left.display ++ (if left.isTightBefore right then "" else " ") ++ tokensText (right :: ts)

end Tsql
