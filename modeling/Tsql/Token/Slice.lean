import Tsql.Token.Group

/-!
Tokens by their indices, with the matches of their parentheses.

The matches are found in one pass with a stack of the groups that are open. An operation that looks
at an index outside the tokens gives `none`.
-/

namespace Tsql

/-- What is known of the parentheses among the first tokens. -/
structure Matching where
  /-- For each token the index of the parenthesis that ends the group it opens. -/
  closes : List (Option Nat)
  /-- Where the groups begin that are open, the innermost first. -/
  stack : List Nat := []
  /-- There has been a closing parenthesis with no group to end. -/
  stray : Bool := false

/-- What is known behind the token at the given index. -/
def Matching.step? (m : Matching) (t : Token) (i : Nat) : Option Matching :=
  if t.isOpen then some { m with stack := i :: m.stack }
  else if t.isClose then
    match m.stack with
    | [] => some { m with stray := true }
    | first :: stack =>
      if first < m.closes.length then
        some { m with closes := m.closes.set first (some i), stack := stack }
      else none
  else some m

structure TokenSlice where
  tokens : List Token
  /-- For each token the index of the parenthesis that ends the group it opens. -/
  closes : List (Option Nat)
  isBalanced : Bool

namespace TokenSlice

def ofTokens? (ts : List Token) : Option TokenSlice := do
  let m ← ts.zipIdx.foldlM (fun m (t, i) => m.step? t i)
    { closes := List.replicate ts.length none : Matching }
  return ⟨ts, m.closes, !m.stray && m.stack.isEmpty⟩

/-- The index of the parenthesis that ends the group at an index, if there is such a group and it
has an end. -/
def closeOf? (s : TokenSlice) (i : Nat) : Option Nat :=
  s.closes[i]?.join

/-- The index behind the group at an index; a group without an end runs to the end. -/
def skipGroup (s : TokenSlice) (i : Nat) : Nat :=
  ((s.closeOf? i).map (· + 1)).getD s.tokens.length

end TokenSlice

end Tsql
