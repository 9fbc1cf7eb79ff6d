import Tsql.Token.Basic

/-!
Parenthesised groups in a token list.

A group is looked at from its opening parenthesis on: `Group.after` takes the tokens behind it and
finds what is inside, the closing parenthesis if there is one, and the rest. A group without an end
runs to the end of the list. `depthAfter` is the other way to see the same structure, a counter
that a stray closing parenthesis leaves at 0.
-/

namespace Tsql

/-- Index of the closing parenthesis of a group, where `depth` further groups are open inside it. -/
def closeIndex? : Nat → List Token → Option Nat
  | _, [] => none
  | depth, t :: ts =>
    if t.isOpen then (closeIndex? (depth + 1) ts).map (· + 1)
    else if t.isClose then
      match depth with
      | 0 => some 0
      | depth + 1 => (closeIndex? depth ts).map (· + 1)
    else (closeIndex? depth ts).map (· + 1)

structure Group where
  inner : List Token
  close : Option Token
  rest : List Token
  deriving Repr

namespace Group

/-- The group whose opening parenthesis stands right before the tokens. -/
def after (ts : List Token) : Group :=
  match closeIndex? 0 ts with
  | some k => ⟨ts.take k, ts[k]?, ts.drop (k + 1)⟩
  | none => ⟨ts, none, []⟩

def isClosed (g : Group) : Bool :=
  g.close.isSome

/-- The tokens of the group behind its opening parenthesis. -/
def tokens (g : Group) : List Token :=
  g.inner ++ g.close.toList

theorem tokens_append_rest (ts : List Token) : (after ts).tokens ++ (after ts).rest = ts := by
  rw [after, tokens]
  split
  next k _ =>
    have : ts[k]?.toList ++ ts.drop (k + 1) = ts.drop k := by
      cases h : ts[k]? with
      | none =>
        rw [List.getElem?_eq_none_iff] at h
        simp [List.drop_eq_nil_of_le h, List.drop_eq_nil_of_le (Nat.le_succ_of_le h)]
      | some t =>
        obtain ⟨hk, rfl⟩ := List.getElem?_eq_some_iff.1 h
        simp
    simp [List.append_assoc, this]
  next => simp

theorem length_rest_le (ts : List Token) : (after ts).rest.length ≤ ts.length := by
  rw [after]; split <;> simp

theorem length_inner_le (ts : List Token) : (after ts).inner.length ≤ ts.length := by
  rw [after]
  split
  · exact List.length_take_le' ..
  · exact Nat.le_refl _

end Group

/-- Depth of open parentheses after a token, where a stray closing one changes nothing. -/
def Token.depthAfter (t : Token) (depth : Nat) : Nat :=
  if t.isOpen then depth + 1 else if t.isClose then depth - 1 else depth

/-- The depth after some tokens. -/
def depthAfter (depth : Nat) (ts : List Token) : Nat :=
  ts.foldl (fun depth t => t.depthAfter depth) depth

/-- The number of open groups after the tokens, unless a closing parenthesis has none to close. -/
def openGroups? (ts : List Token) : Option Nat :=
  ts.foldlM (fun depth t =>
    if t.isOpen then some (depth + 1)
    else if t.isClose then if depth = 0 then none else some (depth - 1)
    else some depth) 0

/-- Whether each opening parenthesis has a closing one and the other way round. -/
def isBalanced (ts : List Token) : Bool :=
  openGroups? ts == some 0

/-- Whether the tokens start a query, possibly behind further opening parentheses. -/
def startsQuery : List Token → Bool
  | [] => false
  | t :: ts => t.isAnyKeyword [.SELECT, .WITH] || t.isOpen && startsQuery ts

def startsOpen (ts : List Token) : Bool :=
  ts.head?.any Token.isOpen

/-- The parts of the tokens between separators outside all parentheses. -/
def splitTop (separator : TokenKind) : Nat → List Token → List (List Token)
  | _, [] => [[]]
  | depth, t :: ts =>
    if t.kind = separator ∧ depth = 0 then [] :: splitTop separator 0 ts
    else match splitTop separator (t.depthAfter depth) ts with
      | [] => [[t]]
      | part :: parts => (t :: part) :: parts

theorem length_splitTop_pos (separator : TokenKind) (depth : Nat) (ts : List Token) :
    0 < (splitTop separator depth ts).length := by
  cases ts with
  | nil => simp [splitTop]
  | cons t ts =>
    simp only [splitTop]
    split
    · simp
    · split <;> simp

end Tsql
