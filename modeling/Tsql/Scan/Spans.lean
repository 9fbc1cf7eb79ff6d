import Tsql.Scan.Basic

/-!
Where the comments and literals of a text stand, in bytes, and the state of the scan at a given
place.
-/

namespace Tsql.Scan

inductive SpanKind
  | quoted
  | bracket
  | lineComment
  | blockComment
  deriving DecidableEq, Repr

/-- The literal or comment that a state is inside of. -/
def State.span? : State → Option SpanKind
  | normal => none
  | lineComment => some .lineComment
  | blockComment _ => some .blockComment
  | quoted _ => some .quoted
  | bracket => some .bracket

/-- The bytes from `start` up to `stop` of the text. A line comment ends before its line feed. A
span without an end runs to the end of the text and is not terminated, save for a line comment. -/
structure Span where
  kind : SpanKind
  start : Nat
  stop : Nat
  terminated : Bool
  deriving DecidableEq, Repr

/-- Whether a cursor at a byte offset is inside the span. Right before the opening delimiter and
right after the closing one it is outside; at the end of a line comment it is inside. -/
def Span.holdsCursor (s : Span) (offset : Nat) : Bool :=
  s.start < offset &&
    match s.kind with
    | .lineComment => offset ≤ s.stop
    | _ => offset < s.stop || !s.terminated

/-- The spans of the pieces from byte `offset` on, where a span that is open already began at byte
`opened`. -/
def spansFrom (s : State) (offset opened : Nat) : List Piece → List Span
  | [] =>
    match s.span? with
    | none => []
    | some kind => [⟨kind, opened, offset, kind = .lineComment⟩]
  | p :: ps =>
    let stop := offset + Text.size p.text
    match p.before.span? with
    | none => spansFrom p.after stop offset ps
    | some kind =>
      if p.after.isNormal then
        ⟨kind, opened, if kind = .lineComment then offset else stop, true⟩ ::
          spansFrom p.after stop opened ps
      else spansFrom p.after stop opened ps

/-- The literals and comments of the text, in order. -/
def spans (cs : List Char) : List Span :=
  spansFrom .normal 0 0 (pieces .normal cs)

/-- The state when all pieces that begin before byte `target` are read. -/
def stateAfter (target : Nat) (s : State) (offset : Nat) : List Piece → State
  | [] => s
  | p :: ps =>
    if target ≤ offset then s else stateAfter target p.after (offset + Text.size p.text) ps

/-- The state of the scan for a cursor at a byte offset. -/
def stateAt (cs : List Char) (offset : Nat) : State :=
  stateAfter offset .normal 0 (pieces .normal cs)

/-- The state at the start of each line. -/
def lineStates (cs : List Char) : List State :=
  .normal :: (pieces .normal cs).filterMap fun p => if '\n' ∈ p.text then some p.after else none

/-- The characters of a piece, each with whether it is part of a literal or comment. -/
def Piece.marked (p : Piece) : List (Char × Bool) :=
  let inside := !(p.before.isNormal && p.after.isNormal)
  p.text.map fun c => (c, inside && !(p.before == .lineComment && c == '\n'))

/-- The text with each character marked as inside a literal or comment, or outside. -/
def marked (cs : List Char) : List (Char × Bool) :=
  (pieces .normal cs).flatMap Piece.marked

@[simp] theorem map_fst_marked (cs : List Char) : (marked cs).map Prod.fst = cs := by
  have h : ∀ p : Piece, p.marked.map Prod.fst = p.text := fun p => by
    simp [Piece.marked, Function.comp_def]
  simp only [marked, List.map_flatMap, h]
  exact List.flatMap_def.trans (flatten_pieces .normal cs)

end Tsql.Scan
