import Tsql.Batch.Separator
import Tsql.Batch.Use
import Tsql.Scan.Comments

/-!
The batches of a buffer, each with the database that is active in it.
-/

namespace Tsql

structure Batch where
  database : Option String
  sql : String
  /-- The text stood behind a `USE` directive. -/
  hadUse : Bool
  /-- Number of `GO` lines in front of the batch. -/
  number : Nat
  /-- Line of the first character. -/
  startLine : Nat
  deriving Repr

namespace Batch

/-- What splitting a buffer into batches found. -/
structure Report where
  /-- Sections between `GO` lines that hold text. -/
  sectionCount : Nat
  useCount : Nat
  /-- The active database of each batch. -/
  databases : List (Option String)
  deriving Repr

/-- The batches for the segments of one slice, and the database that is active after them. -/
def ofSegments (slice : Slice) (database : Option String) :
    List Segment → List Batch × Option String
  | [] => ([], database)
  | s :: rest =>
    let current := if s.hasUse then s.database else database
    let (batches, last) := ofSegments slice current rest
    if s.sql.isEmpty then (batches, last)
    else
      (⟨current, s.sql, s.hasUse, slice.number, slice.startLine + s.lineOffset⟩ :: batches, last)

/-- The batches of consecutive slices. -/
def ofSlices (database : Option String) : List Slice → List Batch
  | [] => []
  | slice :: rest =>
    let (batches, current) := ofSegments slice database (segments slice.sql)
    batches ++ ofSlices current rest

/-- The batches of a buffer. The active database is that of the most recent `USE`, in the same
section or an earlier one, else `database`. -/
def ofSource (source : String) (database : Option String) : List Batch :=
  ofSlices database (slices (Scan.clean source.toList))

def report (source : String) (database : Option String) : Report :=
  let found := slices (Scan.clean source.toList)
  { sectionCount := found.countP fun s => !s.sql.isEmpty
    useCount := (found.flatMap fun s => segments s.sql).countP (·.hasUse)
    databases := (ofSource source database).map (·.database) }

end Batch

end Tsql
