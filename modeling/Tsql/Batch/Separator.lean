import Tsql.Scan.Spans

/-!
`GO` lines, which separate the batches of a buffer. A line that starts inside a literal or comment
separates nothing.
-/

namespace Tsql.Batch

/-- The word `GO`, alone or with a repeat count. -/
def isSeparator (line : List Char) : Bool :=
  match Text.words line with
  | [word] => Text.sameFolded word ['G', 'O']
  | [word, count] => Text.sameFolded word ['G', 'O'] && count.all Char.isDigit
  | _ => false

/-- The lines of the text, each with whether it separates batches. -/
def markedLines (cs : List Char) : List (Bool × List Char) :=
  List.zipWith (fun line state => (state.isNormal && isSeparator line, line))
    (Text.lines cs) (Scan.lineStates cs)

/-- Numbers of the separator lines, where the first line given has number `line`. -/
def separatorsFrom (line : Nat) : List (Bool × List Char) → List Nat
  | [] => []
  | (true, _) :: ls => line :: separatorsFrom (line + 1) ls
  | (false, _) :: ls => separatorsFrom (line + 1) ls

/-- Numbers of the separator lines of a text, counted from 1. -/
def separators (cs : List Char) : List Nat :=
  separatorsFrom 1 (markedLines cs)

/-- The lines up to the first separator, and behind each separator the number of the next line and
the lines up to the next separator. -/
def sections (line : Nat) :
    List (Bool × List Char) → List (List Char) × List (Nat × List (List Char))
  | [] => ([], [])
  | (true, _) :: ls =>
    let (first, others) := sections (line + 1) ls
    ([], (line + 1, first) :: others)
  | (false, l) :: ls =>
    let (first, others) := sections (line + 1) ls
    (l :: first, others)

/-- The text between two separators, without blanks around it. -/
structure Slice where
  sql : List Char
  /-- Number of separators before the slice. -/
  number : Nat
  /-- Line of the first character. -/
  startLine : Nat
  deriving Repr

/-- The slice for the lines of one section; blank sections have none. -/
def Slice.ofLines? (number firstLine : Nat) (ls : List (List Char)) : Option Slice :=
  let text := Text.joinLines ls
  let sql := Text.trim text
  if sql.isEmpty then none
  else some ⟨sql, number, firstLine + (Text.leadingBlanks text).count '\n'⟩

/-- The slices of a text between its separators. A text without separators is one slice, even when
it is blank. -/
def slices (cs : List Char) : List Slice :=
  match sections 1 (markedLines cs) with
  | (first, []) => [(Slice.ofLines? 0 1 first).getD ⟨[], 0, 1⟩]
  | (first, others) =>
    ((1, first) :: others).zipIdx.filterMap fun ((firstLine, ls), number) =>
      Slice.ofLines? number firstLine ls

end Tsql.Batch
