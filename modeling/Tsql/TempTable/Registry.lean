import Tsql.Resolve.Columns

/-!
The temporary tables of a buffer.

The statements are replayed in order: `SELECT INTO` and `CREATE TABLE` record a table, `DROP TABLE`
ends the life of the last one with its name. A table is visible from the line that creates it to the
line that drops it, and a local one in its own batch only.
-/

namespace Tsql

/-- A line of a batch. -/
structure Place where
  batch : Nat
  line : Nat
  deriving DecidableEq, Repr

namespace Place

instance : LE Place :=
  ⟨fun p q => p.batch < q.batch ∨ p.batch = q.batch ∧ p.line ≤ q.line⟩

theorem le_def {p q : Place} : p ≤ q ↔ p.batch < q.batch ∨ p.batch = q.batch ∧ p.line ≤ q.line :=
  Iff.rfl

instance (p q : Place) : Decidable (p ≤ q) :=
  inferInstanceAs (Decidable (p.batch < q.batch ∨ p.batch = q.batch ∧ p.line ≤ q.line))

end Place

def Statement.place (s : Statement) : Place :=
  ⟨s.batch, s.startLine⟩

/-- Where the table is created. -/
def TempTable.place (t : TempTable) : Place :=
  ⟨t.batch, t.line⟩

structure TempEntry where
  table : TempTable
  /-- Where the table is dropped. -/
  dropped : Option Place := none
  deriving DecidableEq, Repr

def TempEntry.isVisibleAt (e : TempEntry) (p : Place) : Bool :=
  e.table.place ≤ p && (e.table.kind = .global || e.table.batch = p.batch) &&
    e.dropped.all fun d => p ≤ d

/-- The tables created so far, in order. -/
structure TempRegistry where
  entries : List TempEntry := []
  deriving DecidableEq, Repr

namespace TempRegistry

/-- The entries with the last living one of a name dropped, if there is one. -/
def dropIn? (name : String) (p : Place) : List TempEntry → Option (List TempEntry)
  | [] => none
  | e :: es =>
    match dropIn? name p es with
    | some es => some (e :: es)
    | none =>
      if Ident.same e.table.name name && e.dropped.isNone then
        some ({ e with dropped := some p } :: es)
      else none

def drop (r : TempRegistry) (name : String) (p : Place) : TempRegistry :=
  ⟨(dropIn? name p r.entries).getD r.entries⟩

/-- The entries without those of a name that comes again later. -/
def latest : List TempEntry → List TempEntry
  | [] => []
  | e :: es =>
    if es.any fun later => Ident.same later.table.name e.table.name then latest es
    else e :: latest es

/-- The tables that are visible at a place, of each name the latest. -/
def visibleAt (r : TempRegistry) (p : Place) : List TempTable :=
  (latest (r.entries.filter fun e => e.isVisibleAt p)).map TempEntry.table

/-- The table of a name that is visible at a place. -/
def find? (r : TempRegistry) (name : String) (p : Place) : Option TempTable :=
  (r.visibleAt p).find? fun t => Ident.same t.name name

/-- All tables that were ever created, in order. -/
def tables (r : TempRegistry) : List TempTable :=
  r.entries.map TempEntry.table

/-- The table that a statement creates, with its columns expanded as far as they are known there. -/
def created (r : TempRegistry) (resolver : Resolver) (s : Statement) (t : TempTable) : TempTable :=
  if s.kind = .select then
    match resolver.output s ⟨s.ctes, r.visibleAt s.place⟩ with
    | .ok columns => { t with columns := columns }
    | .error _ => { t with columns := t.columns.filter fun c => !c.isStar }
  else t

/-- The registry after a statement. -/
def step (resolver : Resolver) (r : TempRegistry) (s : Statement) : TempRegistry :=
  let grown : TempRegistry :=
    match s.tempTable with
    | some t => ⟨r.entries ++ [⟨r.created resolver s t, none⟩]⟩
    | none => r
  if s.kind = .drop then
    (s.tables.filter TableRef.isTemp).foldl (fun r t => r.drop t.name s.place) grown
  else grown

/-- The registry with all statements of a buffer replayed, without what it held before. -/
def rebuild (r : TempRegistry) (resolver : Resolver) (ss : List Statement) : TempRegistry :=
  ss.foldl (step resolver) { r with entries := [] }

/-- The registry after all statements of a buffer. -/
def ofStatements (resolver : Resolver) (ss : List Statement) : TempRegistry :=
  rebuild {} resolver ss

end TempRegistry

/-- The registries of the open buffers, by the id of the buffer. -/
structure TempStore where
  registries : List (Nat × TempRegistry) := []

namespace TempStore

def get? (s : TempStore) (buffer : Nat) : Option TempRegistry :=
  s.registries.lookup buffer

def erase (s : TempStore) (buffer : Nat) : TempStore :=
  ⟨s.registries.filter fun r => r.1 ≠ buffer⟩

/-- The store with a new registry for a buffer. -/
def set (s : TempStore) (buffer : Nat) (r : TempRegistry) : TempStore :=
  ⟨(buffer, r) :: (s.erase buffer).registries⟩

/-- The registry of a buffer, rebuilt from its statements, and the store that keeps it. -/
def refresh (s : TempStore) (buffer : Nat) (resolver : Resolver) (ss : List Statement) :
    TempRegistry × TempStore :=
  let r := ((s.get? buffer).getD {}).rebuild resolver ss
  (r, s.set buffer r)

/-- Number of buffers. -/
def size (s : TempStore) : Nat :=
  s.registries.length

end TempStore

end Tsql
