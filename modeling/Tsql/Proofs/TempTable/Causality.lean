import Tsql.Proofs.TempTable.Creation
import Tsql.Proofs.TempTable.Registry

/-!
What the statements behind a place do to the tables that are visible there.

A statement adds at most one table to a registry and then drops its names (`step_eq`), and a drop
marks at most one entry (`drop_cases`). The mark hides a table only behind the statement
(`TempEntry.isVisibleAt_drop`), and the table that is added is not visible before it is created. So
nothing that is visible at a place changes when further statements are replayed (`visibleOf_step`,
`visibleOf_foldl`), and the registry of all statements is, up to the place of any of them, that of
the statements in front (`registry_take_is_causal`).
-/

namespace Tsql

/-- The drop of an entry does not hide it at the place of the drop or before. -/
theorem TempEntry.isVisibleAt_drop {e : TempEntry} (h : e.dropped = none) {p q : Place}
    (hle : p ≤ q) :
    ({ e with dropped := some q } : TempEntry).isVisibleAt p = e.isVisibleAt p := by
  simp [isVisibleAt, h, hle]

namespace TempRegistry

/-! ### What a statement does -/

theorem dropIn?_cases (name : String) (p : Place) (es : List TempEntry) :
    (dropIn? name p es = none ∧
      ∀ e ∈ es, (Ident.same e.table.name name && e.dropped.isNone) = false) ∨
    ∃ front e back, es = front ++ e :: back ∧
      dropIn? name p es = some (front ++ { e with dropped := some p } :: back) ∧
      Ident.same e.table.name name ∧ e.dropped = none ∧
      ∀ f ∈ back, (Ident.same f.table.name name && f.dropped.isNone) = false := by
  induction es with
  | nil => exact .inl ⟨rfl, by simp⟩
  | cons e es ih =>
      rw [dropIn?]
      rcases ih with ⟨hnone, hall⟩ | ⟨front, f, back, rfl, hsome, hlast⟩
      · rw [hnone]
        dsimp only
        split
        · next hopen =>
          obtain ⟨hsame, hdropped⟩ := Bool.and_eq_true_iff.1 hopen
          exact .inr ⟨[], e, es, rfl, rfl, hsame, Option.isNone_iff_eq_none.1 hdropped, hall⟩
        · next hclosed =>
          exact .inl ⟨rfl, List.forall_mem_cons.2 ⟨Bool.eq_false_iff.2 hclosed, hall⟩⟩
      · rw [hsome]
        exact .inr ⟨e :: front, f, back, rfl, rfl, hlast⟩

/-- A drop marks the last open table of its name, if there is one. -/
theorem drop_cases (r : TempRegistry) (name : String) (p : Place) :
    (r.drop name p = r ∧
      ∀ e ∈ r.entries, (Ident.same e.table.name name && e.dropped.isNone) = false) ∨
    ∃ front e back, r.entries = front ++ e :: back ∧
      (r.drop name p).entries = front ++ { e with dropped := some p } :: back ∧
      Ident.same e.table.name name ∧ e.dropped = none ∧
      ∀ f ∈ back, (Ident.same f.table.name name && f.dropped.isNone) = false := by
  rw [drop]
  rcases dropIn?_cases name p r.entries with
    ⟨hnone, hall⟩ | ⟨front, e, back, hentries, hsome, hlast⟩
  · rw [hnone]
    exact .inl ⟨rfl, hall⟩
  · rw [hsome]
    exact .inr ⟨front, e, back, hentries, rfl, hlast⟩

/-- The entry of the table that a statement creates. -/
def added (r : TempRegistry) (resolver : Resolver) (s : Statement) : List TempEntry :=
  (s.tempTable.map fun t => ⟨r.created resolver s t, none⟩).toList

/-- A statement adds its table and then drops its names. -/
theorem step_eq (resolver : Resolver) (r : TempRegistry) (s : Statement) :
    step resolver r s =
      s.droppedNames.foldl (fun r n => r.drop n s.place) ⟨r.entries ++ r.added resolver s⟩ := by
  have hdropped : ∀ grown : TempRegistry,
      (if s.kind = .drop then
          (s.tables.filter TableRef.isTemp).foldl (fun r t => r.drop t.name s.place) grown
        else grown) = s.droppedNames.foldl (fun r n => r.drop n s.place) grown := by
    intro grown
    rw [Statement.droppedNames]
    split
    · rw [List.foldl_map]
    · rfl
  rw [step, hdropped, added]
  cases s.tempTable <;> simp

/-! ### The visible tables with a given name -/

/-- The tables that are visible at a place, also those that a later one of the same name hides, of
the names that satisfy `q`. -/
def visibleOf (q : String → Bool) (p : Place) (es : List TempEntry) : List TempTable :=
  (es.filter fun e => q e.table.name && e.isVisibleAt p).map TempEntry.table

theorem visibleOf_append (q : String → Bool) (p : Place) (es fs : List TempEntry) :
    visibleOf q p (es ++ fs) = visibleOf q p es ++ visibleOf q p fs := by
  simp [visibleOf]

theorem visibleOf_cons (q : String → Bool) (p : Place) (e : TempEntry) (es : List TempEntry) :
    visibleOf q p (e :: es) =
      (if q e.table.name && e.isVisibleAt p then [e.table] else []) ++ visibleOf q p es := by
  rw [visibleOf, List.filter_cons]
  split <;> rfl

/-- The latest table of each name is told by the tables alone. -/
theorem map_table_latest {es fs : List TempEntry}
    (h : es.map TempEntry.table = fs.map TempEntry.table) :
    (latest es).map TempEntry.table = (latest fs).map TempEntry.table := by
  induction es generalizing fs with
  | nil =>
      obtain rfl := List.map_eq_nil_iff.1 h.symm
      rfl
  | cons e es ih =>
      obtain ⟨f, fs, rfl, htable, hrest⟩ := List.map_eq_cons_iff.1 h.symm
      have hany : (es.any fun later => Ident.same later.table.name e.table.name) =
          fs.any fun later => Ident.same later.table.name f.table.name := by
        have hmap := congrArg (List.any · fun t => Ident.same t.name e.table.name) hrest
        simpa only [List.any_map, Function.comp_def, htable] using hmap.symm
      rw [latest, latest, hany]
      split
      · exact ih hrest.symm
      · rw [List.map_cons, List.map_cons, htable, ih hrest.symm]

/-- What is visible at a place is told by the tables that are visible there. -/
theorem visibleAt_congr {r r' : TempRegistry} {p : Place}
    (h : visibleOf (fun _ => true) p r.entries = visibleOf (fun _ => true) p r'.entries) :
    r.visibleAt p = r'.visibleAt p :=
  map_table_latest (by simpa only [visibleOf, Bool.true_and] using h)

/-! ### Further statements -/

section

variable {q : String → Bool} {p : Place}

theorem visibleOf_drop (r : TempRegistry) (name : String) {place : Place} (hle : p ≤ place) :
    visibleOf q p (r.drop name place).entries = visibleOf q p r.entries := by
  rcases drop_cases r name place with
    ⟨hdrop, -⟩ | ⟨front, e, back, hentries, hdrop, -, hopen, -⟩
  · rw [hdrop]
  · rw [hdrop, hentries, visibleOf_append, visibleOf_append, visibleOf_cons, visibleOf_cons,
      TempEntry.isVisibleAt_drop hopen hle]

theorem visibleOf_foldl_drop (r : TempRegistry) {place : Place} (hle : p ≤ place)
    (names : List String) :
    visibleOf q p (names.foldl (fun r n => r.drop n place) r).entries =
      visibleOf q p r.entries := by
  induction names generalizing r with
  | nil => rfl
  | cons n names ih => rw [List.foldl_cons, ih, visibleOf_drop r n hle]

theorem place_created (r : TempRegistry) (resolver : Resolver) (s : Statement) (t : TempTable) :
    (r.created resolver s t).place = t.place ∧ (r.created resolver s t).name = t.name ∧
      (r.created resolver s t).kind = t.kind := by
  rw [created]
  split
  · split <;> exact ⟨rfl, rfl, rfl⟩
  · exact ⟨rfl, rfl, rfl⟩

/-- A statement does not change what is visible before it, unless it creates the table there. -/
theorem visibleOf_step (resolver : Resolver) (r : TempRegistry) {s : Statement}
    (hle : p ≤ s.place) (hcreated : ∀ t ∈ s.tempTable, q t.name → ¬ t.place ≤ p) :
    visibleOf q p (step resolver r s).entries = visibleOf q p r.entries := by
  have hnew : visibleOf q p (r.added resolver s) = [] := by
    rw [added]
    cases htable : s.tempTable with
    | none => rfl
    | some t =>
        obtain ⟨hplace, hname, -⟩ := place_created r resolver s t
        have hhidden := hcreated t htable
        simp only [Option.map_some, Option.toList_some, visibleOf_cons, TempEntry.isVisibleAt,
          hplace, hname]
        by_cases hq : q t.name
        · simp [hhidden hq, visibleOf]
        · simp [hq, visibleOf]
  rw [step_eq, visibleOf_foldl_drop _ hle, visibleOf_append, hnew, List.append_nil]

theorem visibleOf_foldl (resolver : Resolver) (r : TempRegistry) {ss : List Statement}
    (hss : ∀ s ∈ ss, p ≤ s.place ∧ ∀ t ∈ s.tempTable, q t.name → ¬ t.place ≤ p) :
    visibleOf q p (ss.foldl (step resolver) r).entries = visibleOf q p r.entries := by
  induction ss generalizing r with
  | nil => rfl
  | cons s ss ih =>
      obtain ⟨⟨hle, hcreated⟩, hrest⟩ := List.forall_mem_cons.1 hss
      rw [List.foldl_cons, ih _ hrest, visibleOf_step resolver r hle hcreated]

end

theorem tables_prefix_foldl (resolver : Resolver) (r : TempRegistry) (ss : List Statement) :
    r.tables <+: (ss.foldl (step resolver) r).tables := by
  induction ss generalizing r with
  | nil => exact List.prefix_rfl
  | cons s ss ih =>
      refine List.IsPrefix.trans ?_ (ih _)
      rw [tables_step]
      exact List.prefix_append _ _

theorem ofStatements_append (resolver : Resolver) (ss us : List Statement) :
    ofStatements resolver (ss ++ us) = us.foldl (step resolver) (ofStatements resolver ss) := by
  rw [ofStatements, rebuild, List.foldl_append]
  rfl

end TempRegistry

open TempRegistry in
/-- The tables of the first statements are the first tables of the buffer, with the columns that
they were recorded with, and up to the next statement they are all that is visible. -/
theorem registry_take_is_causal (source : String) (database : Option String) (resolver : Resolver)
    (k : Nat) (next : Statement)
    (h : (Buffer.parse source database).statements[k]? = some next) :
    let all := (Buffer.parse source database).statements
    (ofStatements resolver (all.take k)).tables <+: (ofStatements resolver all).tables ∧
      ∀ p < next.place, (ofStatements resolver all).visibleAt p =
        (ofStatements resolver (all.take k)).visibleAt p := by
  intro all
  have hsplit : ofStatements resolver all =
      (all.drop k).foldl (step resolver) (ofStatements resolver (all.take k)) := by
    rw [← ofStatements_append, List.take_append_drop]
  rw [hsplit]
  refine ⟨tables_prefix_foldl resolver _ _, fun p hp => ?_⟩
  -- all statements from the next one on, and the tables that they create, are behind the place
  have hdrop : all.drop k = next :: all.drop (k + 1) := by
    obtain ⟨hk, rfl⟩ := List.getElem?_eq_some_iff.1 h
    exact List.drop_eq_getElem_cons hk
  have hbehind : ∀ s ∈ all.drop k, p < s.place := by
    have hordered := (Buffer.pairwise_place source database).sublist (List.drop_sublist k _)
    rw [hdrop] at hordered ⊢
    refine List.forall_mem_cons.2 ⟨hp, fun s hs => ?_⟩
    exact Place.lt_of_lt_of_le hp (List.rel_of_pairwise_cons hordered hs).1
  refine visibleAt_congr (visibleOf_foldl resolver _ fun s hs => ?_)
  refine ⟨Place.le_of_lt (hbehind s hs), fun t ht _ => Place.not_le.2 ?_⟩
  have hmem : s ∈ all := (List.drop_sublist k _).subset hs
  exact Place.lt_of_lt_of_le (hbehind s hs) (Buffer.place_le_of_tempTable hmem ht)

/-- The table is dropped and created again behind the first statement. -/
theorem registry_take_is_causal_recreated :
    let resolver : Resolver := { source := none, maxDepth := 32 }
    let source := "SELECT 1 AS a INTO #t\nDROP TABLE #t\nSELECT 2 AS b INTO #t"
    let all := (Buffer.parse source none).statements
    let p : Place := ⟨0, 1⟩
    ∃ next, all[1]? = some next ∧ p < next.place ∧
      (TempRegistry.ofStatements resolver (all.take 1)).tables <+:
        (TempRegistry.ofStatements resolver all).tables ∧
      (TempRegistry.ofStatements resolver all).visibleAt p =
        (TempRegistry.ofStatements resolver (all.take 1)).visibleAt p ∧
      ((TempRegistry.ofStatements resolver all).visibleAt p).map
        (fun t => t.columns.map ColumnRef.name) = [["a"]] := by
  intro resolver source all p
  have hnext : (all[1]?.any fun s => decide (p < s.place)) = true := by decide +kernel
  obtain ⟨next, h, hp⟩ := (Option.any_eq_true _ _).1 hnext
  have hp : p < next.place := of_decide_eq_true hp
  obtain ⟨htables, hvisible⟩ := registry_take_is_causal _ none resolver 1 next h
  exact ⟨next, h, hp, htables, hvisible p hp, by decide +kernel⟩

end Tsql
