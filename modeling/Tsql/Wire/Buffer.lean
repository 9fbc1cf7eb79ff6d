import Tsql.Buffer
import Tsql.Wire.Text

/-!
JSON form of parsed buffers.
-/

namespace Tsql

def Buffer.toJson (b : Buffer) : Json :=
  .obj [("chunks", .ofList Statement.toJson b.statements), ("batch_count", .ofNat b.batchCount)]

end Tsql
