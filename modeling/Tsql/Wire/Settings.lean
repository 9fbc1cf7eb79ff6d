import Tsql.Settings.Basic
import Tsql.Wire.Text

/-!
JSON form of settings.
-/

namespace Tsql

def Settings.toJson (s : Settings) : Json :=
  .obj [("defaultDatabase", .ofString? s.database), ("maxScopeDepth", .ofNat s.maxDepth),
    ("resolveColumns", .bool s.resolvesColumns), ("catalogPath", .ofString? s.catalogPath),
    ("logFilter", .str s.logFilter)]

end Tsql
