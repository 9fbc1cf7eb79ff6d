import Tsql.Scope.Basic

/-!
The tree of all scopes of a statement.

Scopes are numbered in the order of a walk that visits a scope before those inside it, so the scope
of the statement has id 0. A limit on the depth cuts the tree; the scopes below are not there.
-/

namespace Tsql

inductive ScopeTree
  | node (scope : Scope) (children : List ScopeTree)

namespace ScopeTree

def scope : ScopeTree → Scope
  | node s _ => s

def children : ScopeTree → List ScopeTree
  | node _ ts => ts

mutual

/-- Each scope of the tree with the scopes around it, from the inside out, where `outer` are those
around the whole tree. -/
def pathsUnder (outer : List Scope) : ScopeTree → List (List Scope)
  | node s ts => (s :: outer) :: pathsUnderAll (s :: outer) ts

def pathsUnderAll (outer : List Scope) : List ScopeTree → List (List Scope)
  | [] => []
  | t :: ts => pathsUnder outer t ++ pathsUnderAll outer ts

end

def paths (t : ScopeTree) : List (List Scope) :=
  pathsUnder [] t

/-- Number of scopes. -/
def size (t : ScopeTree) : Nat :=
  t.paths.length

/-- Trees for scopes in a row, where `grow` makes the tree of a scope and `next` is the first free
id. -/
def growAll (grow : Scope → ScopeTree) (next : Nat) : List Scope → List ScopeTree
  | [] => []
  | s :: ss =>
    let t := grow { s with id := next }
    t :: growAll grow (next + t.size) ss

/-- The tree of a scope with at most `levels` levels below it. -/
def grow : Nat → Scope → ScopeTree
  | 0, s => node s []
  | levels + 1, s => node s (growAll (grow levels) (s.id + 1) s.inner)

/-- The tree of a statement, without scopes deeper than `maxDepth`. -/
def build (maxDepth : Nat) (s : Statement) : ScopeTree :=
  grow maxDepth (.ofStatement s)

/-- The default limit on the depth. -/
def defaultDepth : Nat := 32

/-- The scope with the given id and the scopes around it. -/
def path (t : ScopeTree) (id : Nat) : Except ScopeError (List Scope) :=
  match t.paths[id]? with
  | some p => .ok p
  | none => .error (.invalidScope id)

/-- The ids of the scopes directly inside a scope. -/
def childIds (t : ScopeTree) (id : Nat) : List Nat :=
  t.paths.filterMap fun p =>
    match p with
    | s :: parent :: _ => if parent.id = id then some s.id else none
    | _ => none

mutual

/-- The path to the innermost scope that contains a position, from the scope down. -/
def descend (p : Position) : ScopeTree → List Scope
  | node s ts => s :: descendFirst p ts

/-- The same for the first tree whose scope contains the position. -/
def descendFirst (p : Position) : List ScopeTree → List Scope
  | [] => []
  | t :: ts => if t.scope.contains p then descend p t else descendFirst p ts

end

/-- The innermost scope that contains a position, with the scopes around it. The scope of the
statement stands in for all positions outside. -/
def pathAt (t : ScopeTree) (p : Position) : List Scope :=
  (t.descend p).reverse

/-- The id of the innermost scope that contains a position. -/
def idAt (t : ScopeTree) (p : Position) : Nat :=
  (t.descend p).getLast?.elim 0 Scope.id

end ScopeTree

end Tsql
