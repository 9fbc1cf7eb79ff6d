import Tsql.Statement.Kind
import Tsql.Token.Slice

/-!
Access to tokens by index that may fail.

The readers in `Tsql.Indexed` find in a statement what the readers of token lists find, but go from
index to index. Their result is `none` where something is done with an index that cannot be done:
there is no token at it, the ends of a part are not in order or lie outside, a difference is below
0, or a loop does not move on.
-/

namespace Tsql

/-- The part from one index up to another. -/
def between {α : Type} (xs : List α) (i j : Nat) : List α :=
  (xs.take j).drop i

/-- The part from one index up to another, if the indices are in order and not outside. -/
def between? {α : Type} (xs : List α) (i j : Nat) : Option (List α) :=
  if i ≤ j ∧ j ≤ xs.length then some (between xs i j) else none

/-- The difference of two indices, if it is not below 0. -/
def difference? (i j : Nat) : Option Nat :=
  if j ≤ i then some (i - j) else none

theorem length_between? {α : Type} {xs part : List α} {i j : Nat} (h : between? xs i j = some part) :
    part.length = j - i ∧ j ≤ xs.length := by
  unfold between? at h
  split at h
  · next hij =>
    cases h
    rw [between, List.length_drop, List.length_take, Nat.min_eq_left hij.2]
    exact ⟨rfl, hij.2⟩
  · contradiction

namespace Indexed

/-- Whether the tokens start a query. -/
def startsQuery? (ts : List Token) : Option Bool :=
  match ts with
  | [] => some false
  | t :: rest =>
    if t.isAnyKeyword [.SELECT, .WITH] then some true
    else if t.isOpen then
      match _h : between? (t :: rest) 1 (t :: rest).length with
      | some inner => startsQuery? inner
      | none => none
    else some false
termination_by ts.length
decreasing_by
  have := length_between? _h
  simp only [List.length_cons] at *
  omega

/-- The parts of the tokens between separators outside all parentheses, where `first` is the index
at which the current part begins and `i` that of the first of the tokens `rest` to come. -/
def splitFrom? (separator : TokenKind) (ts : List Token) (first depth i : Nat) :
    List Token → Option (List (List Token))
  | [] => do
    let part ← between? ts first ts.length
    return [part]
  | t :: rest =>
    if t.kind = separator ∧ depth = 0 then do
      let part ← between? ts first i
      let parts ← splitFrom? separator ts (i + 1) depth (i + 1) rest
      return part :: parts
    else splitFrom? separator ts first (t.depthAfter depth) (i + 1) rest

def splitTop? (separator : TokenKind) (ts : List Token) : Option (List (List Token)) :=
  splitFrom? separator ts 0 0 0 ts

/-- The kind of the statement that starts with the tokens. -/
def kindOf? (ts : List Token) : Option StatementKind :=
  if ts.head?.any fun t => t.isKeyword .CREATE then
    (between? ts 1 ts.length).map .ofCreated
  else some (.ofTokens ts)

end Indexed

namespace TokenSlice

/-- Whether there is a token at the index and it satisfies the condition. -/
def is (s : TokenSlice) (i : Nat) (p : Token → Bool) : Bool :=
  s.tokens[i]?.any p

/-- The token at an index of a region. -/
def inside? (s : TokenSlice) (i stop : Nat) : Option Token :=
  if i < stop then s.tokens[i]? else none

theorem lt_of_inside? {s : TokenSlice} {i stop : Nat} {t : Token} (h : s.inside? i stop = some t) :
    i < stop := by
  unfold inside? at h
  split at h
  · assumption
  · contradiction

/-- The index of the end of the group at an index, or that behind all tokens. -/
def stopOf (s : TokenSlice) (i : Nat) : Nat :=
  (s.closeOf? i).getD s.tokens.length

/-- The tokens inside the group at an index. -/
def groupInner? (s : TokenSlice) (i : Nat) : Option (List Token) :=
  between? s.tokens (min (i + 1) (s.stopOf i)) (s.stopOf i)

/-- The range of the group at an index, with its parentheses. -/
def groupRange? (s : TokenSlice) (i : Nat) : Option Range :=
  (between? s.tokens i (s.skipGroup i)).map .ofTokens

/-- Whether a group with a query begins at the index. -/
def isQueryGroup? (s : TokenSlice) (i : Nat) : Option Bool :=
  if s.is i Token.isOpen then (s.groupInner? i).bind Indexed.startsQuery? else some false

/-- The token in front of an index. -/
def before? (s : TokenSlice) (i : Nat) : Option Token :=
  (difference? i 1).bind fun last => s.tokens[last]?

end TokenSlice

end Tsql
