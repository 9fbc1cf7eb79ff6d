import Tsql.Delimited
import Tsql.Token.Basic

/-!
Cutting SQL text into tokens.

Numbers are runs of digits; a dot is always a token of its own, so `3.14` has the shape of
`alias.column`. A run of digits that goes on with other characters of a name is one identifier.
Blanks and comments stand between tokens and are skipped. Nothing fails: a literal without an end
runs to the end of the text, and a character that starts nothing else is an operator.
-/

namespace Tsql.Lexer

/-- Number of characters, after `depth` unclosed comment openers, up to the end of the outermost
comment. -/
def blockTail : Nat → List Char → Nat
  | 0, _ => 0
  | _, [] => 0
  | _, [_] => 1
  | depth + 1, c :: d :: rest =>
    if c = '/' ∧ d = '*' then blockTail (depth + 2) rest + 2
    else if c = '*' ∧ d = '/' then blockTail depth rest + 2
    else blockTail (depth + 1) (d :: rest) + 1

/-- Number of characters of the comment that the text starts with; 0 if it starts with none. -/
def commentWidth : List Char → Nat
  | c :: d :: rest =>
    if c = '-' ∧ d = '-' then (rest.takeWhile (· ≠ '\n')).length + 2
    else if c = '/' ∧ d = '*' then blockTail 1 rest + 2
    else 0
  | _ => 0

/-- Number of blanks and characters in comments at the start of the text. -/
def triviaWidth (cs : List Char) : Nat :=
  match cs with
  | [] => 0
  | c :: rest =>
    if Text.isBlank c then triviaWidth rest + 1
    else if _h : commentWidth (c :: rest) = 0 then 0
    else commentWidth (c :: rest) + triviaWidth ((c :: rest).drop (commentWidth (c :: rest)))
termination_by cs.length
decreasing_by
  · simp
  · simp only [List.length_drop, List.length_cons]; omega

/-- Operators of two characters. -/
def operatorPairs : List (List Char) :=
  ["<>", "!=", "<=", ">=", "!<", "!>", "+=", "-=", "*=", "/=", "%=", "&=", "|=", "^=", "::"].map
    String.toList

/-- The closing delimiter of a bracketed name that starts with `c`. -/
def closing (c : Char) : Char :=
  if c = '[' then ']' else c

/-- The kind of the token that starts with `c`, and its characters after `c`, where `rest` is the
text after `c`. -/
def lexeme (c : Char) (rest : List Char) : TokenKind × List Char :=
  if c.isDigit then
    let word := rest.takeWhile Text.isWordChar
    if word.all Char.isDigit then (.number, word) else (.identifier, word)
  else if (c = 'N' ∨ c = 'n') ∧ rest.head? = some '\'' then
    (.quoted, '\'' :: Delimited.body '\'' rest.tail)
  else if c = '\'' then (.quoted, Delimited.body '\'' rest)
  else if c = '[' ∨ c = '"' then (.bracketed, Delimited.body (closing c) rest)
  else if Text.startsWord c then
    let word := rest.takeWhile Text.isWordChar
    match Keyword.ofWord? (c :: word) with
    | some k => (.keyword k, word)
    | none => (.identifier, word)
  else if c = '.' then (.dot, [])
  else if c = ',' then (.comma, [])
  else if c = '(' then (.parenOpen, [])
  else if c = ')' then (.parenClose, [])
  else if c = ';' then (.semicolon, [])
  else
    match rest with
    | d :: _ => if operatorPairs.contains [c, d] then (.operator, [d]) else (.operator, [])
    | [] => (.operator, [])

/-- The text of a token of the given kind, written as `c` and then `tail`. -/
def tokenText (kind : TokenKind) (c : Char) (tail : List Char) : List Char :=
  if kind = .bracketed then Delimited.content (closing c) tail else c :: tail

/-- The tokens of a text that starts at position `p`. -/
def tokens (p : Position) (cs : List Char) : List Token :=
  let blanks := cs.take (triviaWidth cs)
  match _h : cs.drop (triviaWidth cs) with
  | [] => []
  | c :: rest =>
    let start := p.advance blanks
    let (kind, tail) := lexeme c rest
    let stop := start.advance (c :: tail)
    ⟨kind, String.ofList (tokenText kind c tail), start, stop⟩ ::
      tokens stop (rest.drop tail.length)
termination_by cs.length
decreasing_by
  have := congrArg List.length _h
  simp only [List.length_drop, List.length_cons] at this ⊢
  omega

end Tsql.Lexer

namespace Tsql

/-- The tokens of a text, where its first character stands at `start`. -/
def tokenizeFrom (start : Position) (source : String) : List Token :=
  Lexer.tokens start source.toList

def tokenize (source : String) : List Token :=
  tokenizeFrom .origin source

end Tsql
