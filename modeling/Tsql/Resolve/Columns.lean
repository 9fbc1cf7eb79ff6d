import Tsql.Catalog.Basic
import Tsql.Scope.Basic
import Tsql.Text.Quoted

/-!
The columns that tables and queries give.

A derived table gives the output of its query, a common table expression that of its body, both
renamed where names are written; a temporary table gives the columns recorded for it; any other
table is looked up in the metadata. The output of a query is its select list, with stars replaced by
the columns of tables and with the types of plain columns looked up.

A table and the query behind it are told apart by a level: the query is one level further down.
`Resolver.outputAt` and `Resolver.columnsAt` take the number of levels that are left, so a limit on
the depth ends every expansion.
-/

namespace Tsql

/-! ### Visible names and failures -/

inductive ColumnError
  | columnNotFound (name : String)
  | ambiguousColumn (name : String) (tables : List String)
  | depthLimit (limit : Nat)
  deriving DecidableEq, Repr

def ColumnError.message : ColumnError → String
  | columnNotFound name => "Column not found: " ++ name
  | ambiguousColumn name tables =>
    "Ambiguous column reference: " ++ name ++ " (found in " ++ Text.quotedList tables ++ ")"
  | depthLimit limit => "Scope depth limit (" ++ toString limit ++ ") exceeded"

/-- The common table expressions and temporary tables that a reference may mean. -/
structure Environment where
  ctes : List Cte
  temps : List TempTable

namespace Environment

/-- What is visible from a scope, given with the scopes around it. -/
def ofPath (path : List Scope) (temps : List TempTable) : Environment :=
  ⟨Scope.visibleCtes path, temps⟩

def findCte? (e : Environment) (name : String) : Option Cte :=
  e.ctes.find? fun c => Ident.same c.name name

def findTemp? (e : Environment) (name : String) : Option TempTable :=
  e.temps.find? fun t => Ident.same t.name name

/-- The environment without the expressions of the given name. -/
def without (e : Environment) (name : String) : Environment :=
  { e with ctes := e.ctes.filter fun c => !Ident.same c.name name }

/-- The environment inside a nested statement: its own expressions come first and hide others with
their names. -/
def inside (e : Environment) (s : Statement) : Environment :=
  { e with ctes := s.ctes ++ e.ctes.filter fun c => !s.ctes.any fun own => Ident.same own.name c.name }

end Environment

/-! ### Columns -/

/-- Columns with new names in their order. Without names nothing changes; a name too many gives a
column of which nothing is known. -/
def renamedTo : List String → List ColumnRef → List ColumnRef
  | [], _ => []
  | name :: names, columns =>
    { columns.head?.getD { name := name } with name := name, expression := none } ::
      renamedTo names columns.tail

def renamed (names : List String) (columns : List ColumnRef) : List ColumnRef :=
  if names.isEmpty then columns else renamedTo names columns

/-- The columns as those of the table with the given display name. -/
def labelled (label : String) (columns : List ColumnRef) : List ColumnRef :=
  columns.map fun c => { c with source := some label }

structure Resolver where
  source : Option MetadataSource := none
  connection : Connection := {}
  /-- Levels of queries that are expanded. -/
  maxDepth : Nat

namespace Resolver

/-- What the metadata says of a table that is named in a statement. A lookup that fails is as good
as one that finds nothing. -/
def lookup (r : Resolver) (owner : Statement) (t : TableRef) : List ColumnRef :=
  match r.source with
  | none => []
  | some source =>
    let connection := { r.connection with database := owner.database.or r.connection.database }
    match source.table ⟨t.database, t.schema, t.name⟩ connection with
    | .ok (some d) => d.columns.map fun c => c.toColumn t.displayName
    | _ => []

/-- The columns of a table that `owner` names, where `output` gives the columns of a query. -/
def columnsWith (r : Resolver) (output : Statement → Environment → Except ColumnError (List ColumnRef))
    (owner : Statement) (e : Environment) (t : TableRef) : Except ColumnError (List ColumnRef) :=
  if t.isDerived then
    match t.subqueryIndex.bind fun i => owner.subqueries[i]? with
    | none => .ok []
    | some q =>
      (output q.body (e.inside q.body)).map fun columns =>
        labelled t.displayName (renamed (t.columns.map ColumnRef.name) columns)
  else
    match if t.isCte then e.findCte? t.name else none with
    | some c =>
      (output c.body ((e.without c.name).inside c.body)).map fun columns =>
        labelled t.displayName (renamed (c.columns.getD []) columns)
    | none =>
      let columns :=
        if t.isTemp then ((e.findTemp? t.name).map TempTable.columns).getD []
        else if t.isFunction && !t.columns.isEmpty then t.columns
        else r.lookup owner t
      .ok (labelled t.displayName columns)

/-- The tables that a star stands for. -/
def starTables (s : Statement) : Option String → List TableRef
  | some qualifier => (s.findTable? qualifier).toList
  | none => s.tables

/-- The table that a plain column comes from, when that is certain. -/
def columnTable? (s : Statement) : Option String → Option TableRef
  | some qualifier => s.findTable? qualifier
  | none => if s.tables.length = 1 then s.tables.head? else none

/-- Whether the text of the column holds a parenthesis, so that it has no type of its own. -/
def isCall (c : ColumnRef) : Bool :=
  c.expression.any fun e => e.toList.contains '('

/-- The columns that an item of the select list gives, where `columns` gives those of a table. -/
def expand (columns : TableRef → Except ColumnError (List ColumnRef)) (s : Statement)
    (c : ColumnRef) : Except ColumnError (List ColumnRef) :=
  if c.isStar then ((starTables s c.source).mapM columns).map List.flatten
  else if c.dataType.isSome || isCall c then .ok [c]
  else
    match columnTable? s c.source with
    | none => .ok [c]
    | some t =>
      (columns t).map fun found =>
        let named := found.find? fun f => Ident.same f.name (c.expression.getD c.name)
        [{ c with dataType := named.bind ColumnRef.dataType }]

/-- The output columns of a query, where `columns` gives those of a table. -/
def outputWith (columns : TableRef → Except ColumnError (List ColumnRef)) (s : Statement) :
    Except ColumnError (List ColumnRef) :=
  (s.columns.mapM (expand columns s)).map List.flatten

/-- The output columns of a query with the given number of levels left. -/
def outputAt (r : Resolver) : Nat → Statement → Environment → Except ColumnError (List ColumnRef)
  | 0, _, _ => .error (.depthLimit r.maxDepth)
  | levels + 1, s, e => outputWith (r.columnsWith (r.outputAt levels) s e) s

/-- The columns of a table with the given number of levels left. -/
def columnsAt (r : Resolver) (levels : Nat) (owner : Statement) (e : Environment) (t : TableRef) :
    Except ColumnError (List ColumnRef) :=
  match levels with
  | 0 => .error (.depthLimit r.maxDepth)
  | levels + 1 => r.columnsWith (r.outputAt levels) owner e t

/-- The output columns of a query. -/
def output (r : Resolver) (s : Statement) (e : Environment) :
    Except ColumnError (List ColumnRef) :=
  r.outputAt (r.maxDepth + 1) s e

/-- The columns of a table that a statement names. -/
def columns (r : Resolver) (owner : Statement) (e : Environment) (t : TableRef) :
    Except ColumnError (List ColumnRef) :=
  r.columnsAt (r.maxDepth + 1) owner e t

/-- The table with its columns. -/
def resolve (r : Resolver) (owner : Statement) (e : Environment) (t : TableRef) :
    Except ColumnError TableRef :=
  (r.columns owner e t).map fun columns => { t with columns := columns }

/-- A visible table with its columns, each name taken as it is meant where the table is named. A
table whose columns cannot be found stays as it is. -/
def resolveVisible (r : Resolver) (temps : List TempTable) (v : ScopedTable) : TableRef :=
  match r.resolve v.scope.statement (.ofPath (v.scope :: v.outer) temps) v.table with
  | .ok t => t
  | .error _ => v.table

/-- The tables that a scope sees, with their columns. -/
def resolveScope (r : Resolver) (path : List Scope) (temps : List TempTable) : List TableRef :=
  (Scope.visibleTables path).map (r.resolveVisible temps)

end Resolver

/-- The one table that has a column with the given name. -/
def columnSource (name : String) (tables : List TableRef) : Except ColumnError TableRef :=
  match tables.filter fun t => (t.findColumn? name).isSome with
  | [] => .error (.columnNotFound name)
  | [t] => .ok t
  | many => .error (.ambiguousColumn name (many.map TableRef.displayName))

end Tsql
