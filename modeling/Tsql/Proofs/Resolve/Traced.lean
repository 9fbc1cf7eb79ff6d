import Tsql.Resolve.Columns

/-!
Resolution of columns with a record of the lookups that it makes.

`Resolver.tracedOutputAt` and `Resolver.tracedColumnsAt` take the steps of `Resolver.outputAt` and
`Resolver.columnsAt` and note each question that goes to the metadata. Leaving the notes out gives
the resolver back (`result_tracedOutputAt`, `result_tracedColumnsAt`), because each lookup is
answered over the connection that is noted for it (`result_tracedLookup`).
-/

namespace Tsql

/-- A question to the metadata for a table that a statement names. -/
structure Lookup where
  owner : Statement
  table : TableRef
  connection : Connection

namespace Lookup

/-- The lookup of a table in its statement, where `connection` is that of the resolver. -/
def ofTable (connection : Connection) (owner : Statement) (t : TableRef) : Lookup :=
  ⟨owner, t, { connection with database := owner.database.or connection.database }⟩

def answer (source : MetadataSource) (l : Lookup) : List ColumnRef :=
  match source.table ⟨l.table.database, l.table.schema, l.table.name⟩ l.connection with
  | .ok (some d) => d.columns.map fun c => c.toColumn l.table.displayName
  | _ => []

end Lookup

/-- A result with the lookups that led to it, or to the error. -/
structure Traced (α : Type) where
  lookups : List Lookup
  result : Except ColumnError α

namespace Traced

variable {α β γ : Type}

/-- A result that takes no lookups. -/
def free (x : Except ColumnError α) : Traced α :=
  ⟨[], x⟩

def map (f : α → β) (x : Traced α) : Traced β :=
  ⟨x.lookups, x.result.map f⟩

/-- The computation that goes on with the result, if there is one. -/
def andThen (x : Traced α) (f : α → Traced β) : Traced β :=
  match x.result with
  | .error e => ⟨x.lookups, .error e⟩
  | .ok a => ⟨x.lookups ++ (f a).lookups, (f a).result⟩

/-- The results for all elements, up to the first error. -/
def each (f : α → Traced β) : List α → Traced (List β)
  | [] => free (.ok [])
  | a :: as => (f a).andThen fun b => (each f as).map (b :: ·)

theorem result_each (f : α → Traced β) (as : List α) :
    (each f as).result = as.mapM fun a => (f a).result := by
  induction as with
  | nil => rfl
  | cons a as ih =>
      rw [List.mapM_cons, ← ih, each, andThen]
      cases (f a).result with
      | error e => rfl
      | ok b =>
          simp only [map]
          cases (each f as).result with
          | error e => rfl
          | ok bs => rfl

/-- All lookups have the property. -/
def AllLookups (P : Lookup → Prop) (x : Traced α) : Prop :=
  ∀ l ∈ x.lookups, P l

namespace AllLookups

variable {P : Lookup → Prop}

theorem free (x : Except ColumnError α) : AllLookups P (free x) := by
  intro l hl
  exact absurd hl List.not_mem_nil

theorem map {x : Traced α} (h : AllLookups P x) (f : α → β) : AllLookups P (x.map f) :=
  h

theorem andThen {x : Traced α} {f : α → Traced β} (hx : AllLookups P x)
    (hf : ∀ a, AllLookups P (f a)) : AllLookups P (x.andThen f) := by
  unfold Traced.andThen
  split
  · exact hx
  · next a _ =>
    intro l hl
    rcases List.mem_append.1 hl with hl | hl
    · exact hx l hl
    · exact hf a l hl

theorem each {f : α → Traced β} {as : List α} (h : ∀ a ∈ as, AllLookups P (f a)) :
    AllLookups P (each f as) := by
  induction as with
  | nil => exact free _
  | cons a as ih =>
      obtain ⟨ha, has⟩ := List.forall_mem_cons.1 h
      exact ha.andThen fun b => (ih has).map _

end AllLookups

/-- The columns that an item of the select list gives. -/
def expand (columns : TableRef → Traced (List ColumnRef)) (s : Statement) (c : ColumnRef) :
    Traced (List ColumnRef) :=
  if c.isStar then (each columns (Resolver.starTables s c.source)).map List.flatten
  else if c.dataType.isSome || Resolver.isCall c then free (.ok [c])
  else
    match Resolver.columnTable? s c.source with
    | none => free (.ok [c])
    | some t =>
      (columns t).map fun found =>
        let named := found.find? fun f => Ident.same f.name (c.expression.getD c.name)
        [{ c with dataType := named.bind ColumnRef.dataType }]

theorem result_expand (columns : TableRef → Traced (List ColumnRef)) (s : Statement)
    (c : ColumnRef) :
    (expand columns s c).result = Resolver.expand (fun t => (columns t).result) s c := by
  unfold expand Resolver.expand
  split
  · rw [map, result_each]
  · split
    · rfl
    · cases Resolver.columnTable? s c.source with
      | none => rfl
      | some t => rfl

theorem AllLookups.expand {P : Lookup → Prop} {columns : TableRef → Traced (List ColumnRef)}
    (h : ∀ t, AllLookups P (columns t)) (s : Statement) (c : ColumnRef) :
    AllLookups P (expand columns s c) := by
  unfold Traced.expand
  split
  · exact (each fun t _ => h t).map _
  · split
    · exact free _
    · cases Resolver.columnTable? s c.source with
      | none => exact free _
      | some t => exact (h t).map _

end Traced

namespace Resolver

def tracedLookup (r : Resolver) (owner : Statement) (t : TableRef) : Traced (List ColumnRef) :=
  match r.source with
  | none => .free (.ok [])
  | some source =>
    let l := Lookup.ofTable r.connection owner t
    ⟨[l], .ok (l.answer source)⟩

/-- The columns of a table that `owner` names, where `output` gives the columns of a query. -/
def tracedColumnsWith (r : Resolver)
    (output : Statement → Environment → Traced (List ColumnRef)) (owner : Statement)
    (e : Environment) (t : TableRef) : Traced (List ColumnRef) :=
  if t.isDerived then
    match t.subqueryIndex.bind fun i => owner.subqueries[i]? with
    | none => .free (.ok [])
    | some q =>
      (output q.body (e.inside q.body)).map fun columns =>
        labelled t.displayName (renamed (t.columns.map ColumnRef.name) columns)
  else
    match if t.isCte then e.findCte? t.name else none with
    | some c =>
      (output c.body ((e.without c.name).inside c.body)).map fun columns =>
        labelled t.displayName (renamed (c.columns.getD []) columns)
    | none =>
      let columns : Traced (List ColumnRef) :=
        if t.isTemp then .free (.ok (((e.findTemp? t.name).map TempTable.columns).getD []))
        else if t.isFunction && !t.columns.isEmpty then .free (.ok t.columns)
        else r.tracedLookup owner t
      columns.map (labelled t.displayName)

/-- The output columns of a query with the given number of levels left. -/
def tracedOutputAt (r : Resolver) : Nat → Statement → Environment → Traced (List ColumnRef)
  | 0, _, _ => .free (.error (.depthLimit r.maxDepth))
  | levels + 1, s, e =>
    (Traced.each (Traced.expand (r.tracedColumnsWith (r.tracedOutputAt levels) s e) s)
      s.columns).map List.flatten

/-- The columns of a table with the given number of levels left. -/
def tracedColumnsAt (r : Resolver) (levels : Nat) (owner : Statement) (e : Environment)
    (t : TableRef) : Traced (List ColumnRef) :=
  match levels with
  | 0 => .free (.error (.depthLimit r.maxDepth))
  | levels + 1 => r.tracedColumnsWith (r.tracedOutputAt levels) owner e t

/-- What is noted of a lookup is what decides it. -/
theorem result_tracedLookup (r : Resolver) (owner : Statement) (t : TableRef) :
    (r.tracedLookup owner t).result = .ok (r.lookup owner t) := by
  rw [tracedLookup, lookup]
  cases r.source with
  | none => rfl
  | some source => rfl

theorem result_tracedColumnsWith (r : Resolver)
    (output : Statement → Environment → Traced (List ColumnRef)) (owner : Statement)
    (e : Environment) (t : TableRef) :
    (r.tracedColumnsWith output owner e t).result =
      r.columnsWith (fun s e => (output s e).result) owner e t := by
  unfold tracedColumnsWith columnsWith
  split
  · cases t.subqueryIndex.bind fun i => owner.subqueries[i]? with
    | none => rfl
    | some q => rfl
  · cases if t.isCte then e.findCte? t.name else none with
    | some c => rfl
    | none =>
        simp only [Traced.map]
        split
        · rfl
        · split
          · rfl
          · rw [result_tracedLookup]
            rfl

theorem result_tracedOutputAt (r : Resolver) (levels : Nat) (s : Statement) (e : Environment) :
    (r.tracedOutputAt levels s e).result = r.outputAt levels s e := by
  induction levels generalizing s e with
  | zero => rfl
  | succ levels ih =>
      have houtput : (fun s e => (r.tracedOutputAt levels s e).result) = r.outputAt levels := by
        funext s e
        exact ih s e
      have hexpand : (fun c => (Traced.expand
          (r.tracedColumnsWith (r.tracedOutputAt levels) s e) s c).result) =
            expand (r.columnsWith (r.outputAt levels) s e) s := by
        funext c
        rw [Traced.result_expand, ← houtput]
        congr 1
        funext t
        exact r.result_tracedColumnsWith _ s e t
      simp only [tracedOutputAt, outputAt, outputWith, Traced.map, Traced.result_each, hexpand]

theorem result_tracedColumnsAt (r : Resolver) (levels : Nat) (owner : Statement)
    (e : Environment) (t : TableRef) :
    (r.tracedColumnsAt levels owner e t).result = r.columnsAt levels owner e t := by
  cases levels with
  | zero => rfl
  | succ levels =>
      rw [tracedColumnsAt, columnsAt, result_tracedColumnsWith]
      congr 1
      funext s e
      exact r.result_tracedOutputAt levels s e

end Resolver

end Tsql
