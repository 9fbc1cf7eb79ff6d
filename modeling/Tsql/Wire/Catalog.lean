import Tsql.Catalog.Basic
import Tsql.Json.Record
import Tsql.Wire.Text

/-!
JSON forms of metadata, and how a catalog is read.
-/

namespace Tsql

def TableKind.toJson : TableKind → Json
  | .table => .str "table"
  | .view => .str "view"
  | .tableValuedFunction => .str "table_valued_function"
  | .other name => .obj [("other", .str name)]

/-- A kind is written as its name, or as an object with the name and its value, `null` for the kinds
that have none. -/
def TableKind.reader : Json.Reader TableKind :=
  let plain (kind : TableKind) :=
    (some kind, (fun _ => kind) <$> Json.Reader.decoded Json.asNull)
  Json.Reader.tagged
    [("table", plain .table), ("view", plain .view),
     ("table_valued_function", plain .tableValuedFunction),
     ("other", (none, .other <$> Json.Reader.string))]

def ColumnDescriptor.toJson (c : ColumnDescriptor) : Json :=
  .obj [("name", .str c.name), ("data_type", .ofString? c.dataType),
    ("nullable", .ofOption .bool c.nullable), ("ordinal", .ofOption .ofNat c.ordinal),
    ("is_primary_key", .bool c.isPrimaryKey), ("comment", .ofString? c.comment)]

def ColumnDescriptor.fields : List (Json.Field ColumnDescriptor) :=
  [⟨"name", true, fun c => do return { c with name := ← .string }⟩,
   ⟨"data_type", false, fun c => do return { c with dataType := ← .orNull .string }⟩,
   ⟨"nullable", false, fun c => do return { c with nullable := ← .orNull .bool }⟩,
   ⟨"ordinal", false, fun c => do return { c with ordinal := ← .orNull .size }⟩,
   ⟨"is_primary_key", false, fun c => do return { c with isPrimaryKey := ← .bool }⟩,
   ⟨"comment", false, fun c => do return { c with comment := ← .orNull .string }⟩]

def ColumnDescriptor.reader : Json.Reader ColumnDescriptor :=
  .record "struct ColumnDescriptor" fields { name := "" }

def TableDescriptor.toJson (t : TableDescriptor) : Json :=
  .obj [("schema", .ofString? t.schema), ("name", .str t.name),
    ("columns", .ofList ColumnDescriptor.toJson t.columns), ("kind", t.kind.toJson)]

def TableDescriptor.fields : List (Json.Field TableDescriptor) :=
  [⟨"schema", false, fun t => do return { t with schema := ← .orNull .string }⟩,
   ⟨"name", true, fun t => do return { t with name := ← .string }⟩,
   ⟨"columns", false, fun t => do return { t with columns := ← .listOf ColumnDescriptor.reader }⟩,
   ⟨"kind", false, fun t => do return { t with kind := ← TableKind.reader }⟩]

def TableDescriptor.reader : Json.Reader TableDescriptor :=
  .record "struct TableDescriptor" fields { name := "" }

def Connection.toJson (c : Connection) : Json :=
  .obj [("server", .ofString? c.server), ("database", .ofString? c.database),
    ("defaultSchema", .str c.defaultSchema)]

namespace Catalog

/-- The tables of all databases, and those of single databases by the name of the database. -/
structure Sections where
  tables : List TableDescriptor := []
  databases : List (String × List TableDescriptor) := []

/-- The catalog with the tables of single databases first. Of two databases with one name the last
one counts. -/
def ofSections (s : Sections) : Catalog :=
  ⟨((Json.lastOfEachName s.databases).flatMap fun d => d.2.map fun t => (some d.1, t)) ++
    s.tables.map fun t => (none, t)⟩

def sections : List (Json.Field Sections) :=
  [⟨"tables", false, fun s => do return { s with tables := ← .listOf TableDescriptor.reader }⟩,
   ⟨"databases", false, fun s => do
      return { s with databases := ← .mapOf (.listOf TableDescriptor.reader) }⟩]

/-- Reads a catalog from JSON text. -/
def ofText (text : String) : Except CatalogError Catalog :=
  ((Json.Reader.record "struct StaticCatalog" sections {}).run text).map ofSections
    |>.mapError .malformed

end Catalog

end Tsql
