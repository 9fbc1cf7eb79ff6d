import Tsql.Completion.Context
import Tsql.Wire.Text

/-!
JSON forms of completion contexts and of what they offer.
-/

namespace Tsql

def KeywordOffer.toJson (k : KeywordOffer) : Json :=
  .obj [("label", .str k.label), ("description", .ofString? k.description),
    ("sort_priority", .int k.priority)]

namespace CompletionContext

/-- The aliases as an object with its names in order. Of two tables with one alias the last counts. -/
def aliasesToJson (c : CompletionContext) : Json :=
  let last := Json.lastOfEachName (c.aliases.map fun (a, t) => (a, Json.str t))
  .obj (last.mergeSort fun a b => decide (a.1 ≤ b.1))

def toJson (c : CompletionContext) : Json :=
  .obj [("mode", .str c.mode.code), ("prefix", .str c.typed),
    ("trigger", .ofOption (fun t => .str t.toString) c.trigger),
    ("table_ref", .ofString? c.tableRef), ("clause", .ofOption (fun r => .str r.code) c.clause),
    ("tables_in_scope", .ofList TableRef.toJson c.tables), ("aliases", c.aliasesToJson),
    ("ctes", .ofList .str c.ctes), ("temp_tables", .ofList TempTable.toJson c.temps),
    ("chunk", .ofOption Statement.toJson c.statement),
    ("keywords", .ofList KeywordOffer.toJson c.keywords),
    ("columns", .ofList ColumnRef.toJson c.columns), ("functions", .ofList .str c.functions),
    ("database", .ofString? c.database)]

end CompletionContext

end Tsql
