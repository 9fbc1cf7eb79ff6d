import Tsql.Json.Fault
import Tsql.Statement.Basic

/-!
Metadata: what is known of tables outside the text, and where it comes from.

A `MetadataSource` answers questions about tables over a connection. It may not know a table, and it
may fail. `Catalog` is a source that holds its tables.
-/

namespace Tsql

inductive TableKind
  | table
  | view
  | tableValuedFunction
  | other (name : String)
  deriving DecidableEq, Repr

structure ColumnDescriptor where
  name : String
  dataType : Option String := none
  nullable : Option Bool := none
  ordinal : Option Nat := none
  isPrimaryKey : Bool := false
  comment : Option String := none
  deriving DecidableEq, Repr

/-- The column as one of the table with the given name. -/
def ColumnDescriptor.toColumn (c : ColumnDescriptor) (table : String) : ColumnRef :=
  { name := c.name, source := some table, dataType := c.dataType }

structure TableDescriptor where
  schema : Option String := none
  name : String
  columns : List ColumnDescriptor := []
  kind : TableKind := .table
  deriving DecidableEq, Repr

namespace TableDescriptor

def findColumn? (t : TableDescriptor) (name : String) : Option ColumnDescriptor :=
  t.columns.find? fun c => Ident.same c.name name

/-- Schema and name, or the name alone. -/
def qualifiedName (t : TableDescriptor) : String :=
  match t.schema with
  | some schema => schema ++ "." ++ t.name
  | none => t.name

def isInSchema (t : TableDescriptor) (schema : String) : Bool :=
  t.schema.any (Ident.same · schema)

end TableDescriptor

/-- Where questions are asked. -/
structure Connection where
  server : Option String := none
  /-- The current database. -/
  database : Option String := none
  /-- The schema that a name without one is looked up in first. -/
  defaultSchema : String := "dbo"
  deriving DecidableEq, Repr

/-- The name of a table as written. -/
structure TableLookup where
  database : Option String := none
  schema : Option String := none
  name : String
  deriving DecidableEq, Repr

inductive CatalogError
  | unavailable (reason : String)
  | timeout (milliseconds : Nat)
  | unreadable (path reason : String)
  | malformed (reason : Json.ReadError)
  deriving DecidableEq, Repr

def CatalogError.message : CatalogError → String
  | unavailable reason => "Metadata source unavailable: " ++ reason
  | timeout milliseconds => "Metadata lookup timed out after " ++ toString milliseconds ++ "ms"
  | unreadable path reason => "Failed to read catalog file '" ++ path ++ "': " ++ reason
  | malformed reason => "Failed to parse catalog data: " ++ reason.message

structure MetadataSource where
  /-- The table with a name, if there is one. -/
  table : TableLookup → Connection → Except CatalogError (Option TableDescriptor)
  /-- The tables that can be named without a database. -/
  tables : Connection → Except CatalogError (List TableDescriptor)

/-- The source that always fails. -/
def MetadataSource.failing (e : CatalogError) : MetadataSource where
  table _ _ := .error e
  tables _ := .error e

/-- Tables, each in one database or visible from all of them, in the order in which they are looked
through. -/
structure Catalog where
  entries : List (Option String × TableDescriptor) := []
  deriving Repr

namespace Catalog

/-- The tables that are visible while a database is current. -/
def visible (c : Catalog) (database : Option String) : List TableDescriptor :=
  (c.entries.filter fun e =>
    match e.1, database with
    | none, _ => true
    | some d, some current => Ident.same d current
    | some _, none => false).map Prod.snd

/-- The table that a name means. A name with a schema has to match it; a name without one means the
table in the default schema, or else the first table with that name. -/
def find? (c : Catalog) (lookup : TableLookup) (connection : Connection) :
    Option TableDescriptor :=
  let named := (c.visible (lookup.database.or connection.database)).filter fun t =>
    Ident.same t.name lookup.name
  match lookup.schema with
  | some schema => named.find? fun t => t.isInSchema schema
  | none => (named.find? fun t => t.isInSchema connection.defaultSchema).or named.head?

/-- The catalog with one more table, tables of a single database before those of all. -/
def insert (c : Catalog) (database : Option String) (t : TableDescriptor) : Catalog :=
  match database with
  | none => ⟨c.entries ++ [(none, t)]⟩
  | some _ =>
    ⟨c.entries.filter (fun e => e.1.isSome) ++ (database, t) ::
      c.entries.filter fun e => e.1.isNone⟩

def source (c : Catalog) : MetadataSource where
  table lookup connection := .ok (c.find? lookup connection)
  tables connection := .ok (c.visible connection.database)

end Catalog

end Tsql
