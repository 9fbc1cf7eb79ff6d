import Tsql.Scan.Basic

/-!
Text without its comments. Removal leaves one blank where a block comment opened, so that the words
on either side stay apart, and keeps every line feed. Masking puts a blank for each character, so
that the text around keeps its lines and columns.
-/

namespace Tsql.Scan

def Piece.cleaned (p : Piece) : List Char :=
  if p.isComment then
    (if p.opensBlockComment then [' '] else []) ++ p.text.filter (· = '\n')
  else p.text

def Piece.masked (p : Piece) : List Char :=
  if p.isComment then p.text.map fun c => if c = '\n' then c else ' ' else p.text

/-- Counts over the comments of a text, and the state at its end. -/
structure Summary where
  lineComments : Nat
  blockComments : Nat
  maxBlockDepth : Nat
  finalState : State

def State.blockDepth : State → Nat
  | blockComment depth => depth
  | _ => 0

def summary (cs : List Char) : Summary :=
  let ps := pieces .normal cs
  { lineComments := ps.countP Piece.opensLineComment
    blockComments := ps.countP Piece.opensBlockComment
    maxBlockDepth := ps.foldl (fun deepest p => max deepest p.after.blockDepth) 0
    finalState := lastState .normal ps }

def clean (cs : List Char) : List Char :=
  (pieces .normal cs).flatMap Piece.cleaned

def mask (cs : List Char) : List Char :=
  (pieces .normal cs).flatMap Piece.masked

@[simp] theorem Piece.length_masked (p : Piece) : p.masked.length = p.text.length := by
  rw [Piece.masked]; split <;> simp

theorem length_mask (cs : List Char) : (mask cs).length = cs.length := by
  suffices h : ∀ s, ((pieces s cs).flatMap Piece.masked).length = cs.length from h _
  intro s
  fun_induction pieces s cs <;> simp_all <;> omega

/-- The text without comments. -/
def removeComments (source : String) : String :=
  String.ofList (clean source.toList)

/-- The text with blanks for its comments. -/
def maskComments (source : String) : String :=
  String.ofList (mask source.toList)

end Tsql.Scan
