import Tsql.Text.Basic

/-!
One pass over SQL text that knows at each point whether it is in code, a comment, a quoted text or
a bracketed name.

`pieces` cuts the text into the steps of that pass, each with the state before and after it. All
other questions about comments and literals are answered from the pieces. Their texts, put
together, are the source (`flatten_pieces`), and each piece starts in the state that the one before
it left (`chained_pieces`).
-/

namespace Tsql.Scan

inductive State
  | normal
  | lineComment
  | blockComment (depth : Nat)
  | quoted (delimiter : Char)
  | bracket
  deriving DecidableEq, Inhabited, Repr

namespace State

def isComment : State → Bool
  | lineComment => true
  | blockComment _ => true
  | _ => false

def isNormal : State → Bool
  | normal => true
  | _ => false

@[simp] theorem isNormal_iff (s : State) : s.isNormal = true ↔ s = normal := by
  cases s <;> simp [isNormal]

/-- What one step reads, one or two characters, and the state it leaves. -/
structure Step where
  pair : Bool
  after : State

/-- Two dashes open a line comment, whatever follows them. Block comments nest. In quotes and
brackets only the closing delimiter counts, and a doubled one does not close. -/
def step (s : State) (c : Char) (following : Option Char) : Step :=
  match s with
  | normal =>
    if c = '-' ∧ following = some '-' then ⟨true, lineComment⟩
    else if c = '/' ∧ following = some '*' then ⟨true, blockComment 1⟩
    else if c = '\'' ∨ c = '"' then ⟨false, quoted c⟩
    else if c = '[' then ⟨false, bracket⟩
    else ⟨false, normal⟩
  | lineComment => ⟨false, if c = '\n' then normal else lineComment⟩
  | blockComment depth =>
    if c = '/' ∧ following = some '*' then ⟨true, blockComment (depth + 1)⟩
    else if c = '*' ∧ following = some '/' then
      ⟨true, if depth ≤ 1 then normal else blockComment (depth - 1)⟩
    else ⟨false, blockComment depth⟩
  | quoted delimiter =>
    if c = delimiter then
      if following = some delimiter then ⟨true, quoted delimiter⟩ else ⟨false, normal⟩
    else ⟨false, quoted delimiter⟩
  | bracket =>
    if c = ']' then
      if following = some ']' then ⟨true, bracket⟩ else ⟨false, normal⟩
    else ⟨false, bracket⟩

end State

structure Piece where
  before : State
  text : List Char
  after : State
  deriving Repr

namespace Piece

/-- The piece opens, continues or closes a comment. The line feed after a line comment is such a
piece too. -/
def isComment (p : Piece) : Bool :=
  p.before.isComment || p.after.isComment

def opensLineComment (p : Piece) : Bool :=
  p.before.isNormal && p.after == .lineComment

def opensBlockComment (p : Piece) : Bool :=
  p.before.isNormal && match p.after with
    | .blockComment _ => true
    | _ => false

end Piece

/-- The steps of the pass that starts in state `s`. -/
def pieces (s : State) : List Char → List Piece
  | [] => []
  | [c] => [⟨s, [c], (s.step c none).after⟩]
  | c :: d :: rest =>
    let m := s.step c (some d)
    if m.pair then ⟨s, [c, d], m.after⟩ :: pieces m.after rest
    else ⟨s, [c], m.after⟩ :: pieces m.after (d :: rest)

@[simp] theorem flatten_pieces (s : State) (cs : List Char) :
    ((pieces s cs).map Piece.text).flatten = cs := by
  fun_induction pieces s cs <;> simp_all

/-- Each piece starts in the state that the one before it left. -/
def Chained : State → List Piece → Prop
  | _, [] => True
  | s, p :: ps => p.before = s ∧ Chained p.after ps

theorem chained_pieces (s : State) (cs : List Char) : Chained s (pieces s cs) := by
  fun_induction pieces s cs <;> simp_all [Chained]

theorem text_ne_nil {s : State} {cs : List Char} {p : Piece} (h : p ∈ pieces s cs) :
    p.text ≠ [] := by
  fun_induction pieces s cs <;> simp_all <;> grind

/-- The state at the end of the pieces of a pass that started in `s`. -/
def lastState (s : State) (ps : List Piece) : State :=
  (ps.getLast?.map Piece.after).getD s

@[simp] theorem lastState_nil (s : State) : lastState s [] = s := rfl

@[simp] theorem lastState_cons (s : State) (p : Piece) (ps : List Piece) :
    lastState s (p :: ps) = lastState p.after ps := by
  rw [lastState, lastState, List.getLast?_cons]
  cases ps.getLast? with
  | none => rfl
  | some q => rfl

end Tsql.Scan
