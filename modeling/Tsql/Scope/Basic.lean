import Tsql.Statement.Basic

/-!
Scopes: what a place in a statement sees.

A statement and each query nested in it is a scope. A scope is looked from together with the scopes
around it, as a list from the inside out. Its tables are its own and, unless it is the body of a
common table expression, those of the scopes around it; a table hides tables further out that have
its display name. Of the common table expressions of a `WITH`, a body sees those before it and
itself when it is recursive; everything else in the statement sees all of them.
-/

namespace Tsql

inductive ScopeKind
  | statement
  | cte
  | derived
  | subquery
  deriving DecidableEq, Repr

/-- Whether a scope of this kind sees the tables around it. -/
def ScopeKind.isCorrelated : ScopeKind → Bool
  | .derived => true
  | .subquery => true
  | _ => false

structure Scope where
  id : Nat
  kind : ScopeKind
  statement : Statement
  /-- Name of the common table expression or alias of the derived table. -/
  name : Option String
  /-- Its place in the text, parentheses included. -/
  range : Range
  /-- Clause of the statement around it. -/
  clause : Option Clause
  depth : Nat
  /-- How many expressions of the `WITH` around it a body sees. -/
  horizon : Option Nat
  /-- The closing parenthesis has not been typed yet. -/
  isOpen : Bool

inductive ScopeError
  | tableNotFound (name : String)
  | invalidScope (id : Nat)
  | forwardReference (cte target : String)
  deriving DecidableEq, Repr

def ScopeError.message : ScopeError → String
  | tableNotFound name => "Table not found in scope: " ++ name
  | invalidScope id => "Invalid scope reference: " ++ toString id
  | forwardReference cte target =>
    "CTE '" ++ cte ++ "' cannot reference '" ++ target ++ "', which is declared after it"

/-- A table with the scope that it is named in and the scopes around that one. -/
structure ScopedTable where
  table : TableRef
  scope : Scope
  outer : List Scope

namespace Scope

/-- Whether a cursor at the position is inside the scope. A cursor behind the closing parenthesis
is outside. -/
def contains (s : Scope) (p : Position) : Bool :=
  if s.kind = .statement then s.range.touches p
  else s.range.start < p && (p < s.range.stop || s.isOpen && p = s.range.stop)

/-- The tables named in the scope. -/
def ownTables (s : Scope) (outer : List Scope) : List ScopedTable :=
  s.statement.tables.map fun t => ⟨t, s, outer⟩

/-- Whether a table of the scope has the display name of another table. -/
def hides (s : Scope) (v : ScopedTable) : Bool :=
  s.statement.tables.any fun t => Ident.same t.displayName v.table.displayName

/-- The table that a name means, looked up from the inside out. -/
def findTable? (name : String) : List Scope → Option ScopedTable
  | [] => none
  | s :: outer =>
    match s.statement.findTable? name with
    | some t => some ⟨t, s, outer⟩
    | none => if s.kind.isCorrelated then findTable? name outer else none

/-- The tables that a scope sees, its own first. -/
def visibleTables : List Scope → List ScopedTable
  | [] => []
  | s :: outer =>
    s.ownTables outer ++
      if s.kind.isCorrelated then (visibleTables outer).filter fun v => !s.hides v else []

/-- The common table expressions declared around a place, innermost first, where `horizon` limits
those of the first scope. -/
def declaredCtes (horizon : Option Nat) : List Scope → List Cte
  | [] => []
  | s :: outer =>
    horizon.elim s.statement.ctes s.statement.ctes.take ++ declaredCtes s.horizon outer

/-- The expressions without those whose name comes earlier in the list. -/
def distinctCtes : List Cte → List Cte
  | [] => []
  | c :: cs => c :: (distinctCtes cs).filter fun d => !Ident.same c.name d.name

/-- The common table expressions that a scope sees, innermost first. -/
def visibleCtes (path : List Scope) : List Cte :=
  distinctCtes (declaredCtes none path)

/-- The body from which a name would be a reference to an expression declared later. -/
def forwardReferrer? (name : String) : List Scope → Option Scope
  | s :: parent :: outer =>
    let isLater := s.horizon.any fun h =>
      (parent.statement.ctes.drop h).any fun c => Ident.same c.name name
    if isLater then some s else forwardReferrer? name (parent :: outer)
  | _ => none

def resolveTable (name : String) (path : List Scope) : Except ScopeError ScopedTable :=
  match findTable? name path with
  | some t => .ok t
  | none => .error (.tableNotFound name)

/-- The common table expression that a name means. A reference to one declared later is an
error. -/
def resolveCte (name : String) (path : List Scope) : Except ScopeError (Option Cte) :=
  match (visibleCtes path).find? fun c => Ident.same c.name name with
  | some c => .ok (some c)
  | none =>
    match forwardReferrer? name path with
    | some s => .error (.forwardReference (s.name.getD "") name)
    | none => .ok none

/-- The scopes directly inside a scope, bodies of common table expressions first, without their
ids. -/
def inner (s : Scope) : List Scope :=
  let bodies := s.statement.ctes.zipIdx.map fun (c, i) =>
    { id := 0
      kind := .cte
      statement := c.body
      name := some c.name
      range := c.range
      clause := some .ctes
      depth := s.depth + 1
      horizon := some (if c.isRecursive then i + 1 else i)
      isOpen := c.range.stop ≤ c.body.range.stop }
  let queries := s.statement.subqueries.map fun q =>
    { id := 0
      kind := if q.kind = .derived then .derived else .subquery
      statement := q.body
      name := q.aliasName
      range := q.range
      clause := q.clause
      depth := s.depth + 1
      horizon := none
      isOpen := q.range.stop ≤ q.body.range.stop }
  bodies ++ queries

/-- The scope of a whole statement. -/
def ofStatement (s : Statement) : Scope :=
  { id := 0
    kind := .statement
    statement := s
    name := none
    range := s.range
    clause := none
    depth := 0
    horizon := none
    isOpen := false }

end Scope

end Tsql
