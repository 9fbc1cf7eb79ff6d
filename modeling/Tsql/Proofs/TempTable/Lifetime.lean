import Mathlib.Data.List.DropRight
import Tsql.Proofs.TempTable.Causality

/-!
How long a temporary table lives.

A registry lists the tables of a name that have been created and not dropped; a drop of the name
takes the last of them off the list (`openOf_drop`), so the list is that of the statements
themselves, each drop taken with the latest creation (`map_span_openOf_ofStatements`). A name has no
table at a place just if no table left open there reaches it (`find?_ofStatements_eq_none_iff`). The
names that a `DROP TABLE` drops are at most the first of its list, and the tables under a name may be
several, so a table can outlive the drops of its name (`none_behind_drop_iff`).
-/

namespace Tsql

/-! ### Tables that reach a place -/

namespace TempTable

/-- Where a table is created and how far it lives. -/
def span (t : TempTable) : Place × TempKind :=
  (t.place, t.kind)

/-- Whether the table lives at a place if it is not dropped before. -/
def Reaches (t : TempTable) (p : Place) : Prop :=
  t.place ≤ p ∧ (t.kind = .global ∨ t.batch = p.batch)

instance (t : TempTable) (p : Place) : Decidable (t.Reaches p) :=
  inferInstanceAs (Decidable (_ ∧ _))

theorem reaches_congr {t u : TempTable} (h : t.span = u.span) (p : Place) :
    t.Reaches p ↔ u.Reaches p := by
  obtain ⟨hplace, hkind⟩ := Prod.mk.inj h
  have hbatch : t.batch = u.batch := congrArg Place.batch hplace
  rw [Reaches, Reaches, hplace, hkind, hbatch]

theorem forall_not_reaches_congr {ts us : List TempTable} (h : ts.map span = us.map span)
    (p : Place) : (∀ t ∈ ts, ¬ t.Reaches p) ↔ ∀ t ∈ us, ¬ t.Reaches p := by
  induction ts generalizing us with
  | nil =>
      obtain rfl := List.map_eq_nil_iff.1 h.symm
      exact Iff.rfl
  | cons t ts ih =>
      obtain ⟨u, us, rfl, hspan, hrest⟩ := List.map_eq_cons_iff.1 h.symm
      rw [List.forall_mem_cons, List.forall_mem_cons, ih hrest.symm, reaches_congr hspan]

end TempTable

namespace Statement

/-! ### Creations and drops in order -/

variable (name : String)

/-- How often a statement drops a name. -/
def dropCount (s : Statement) : Nat :=
  s.droppedNames.countP fun n => Ident.same n name

/-- The tables of a name left after a statement, given those before it. -/
def undroppedBy (ts : List TempTable) (s : Statement) : List TempTable :=
  (ts ++ s.tempTable.toList.filter fun t => Ident.same t.name name).rdrop (s.dropCount name)

/-- The tables of a name that the statements create and do not drop, where a drop of the name takes
the latest of them. -/
def undropped (ss : List Statement) : List TempTable :=
  ss.foldl (undroppedBy name) []

end Statement

namespace TempRegistry

variable (name : String)

/-- The tables of a name that are not dropped. -/
def openOf (es : List TempEntry) : List TempTable :=
  (es.filter fun e => Ident.same e.table.name name && e.dropped.isNone).map TempEntry.table

theorem openOf_append (es fs : List TempEntry) :
    openOf name (es ++ fs) = openOf name es ++ openOf name fs := by
  simp [openOf]

theorem openOf_cons (e : TempEntry) (es : List TempEntry) :
    openOf name (e :: es) =
      (if Ident.same e.table.name name && e.dropped.isNone then [e.table] else []) ++
        openOf name es := by
  rw [openOf, List.filter_cons]
  split <;> rfl

variable {name} {n : String}

theorem openOf_eq_nil (hsame : Ident.same n name) {es : List TempEntry}
    (h : ∀ e ∈ es, (Ident.same e.table.name n && e.dropped.isNone) = false) :
    openOf name es = [] := by
  rw [openOf, List.map_eq_nil_iff, List.filter_eq_nil_iff]
  intro e he
  rw [← Ident.same_congr hsame]
  exact Bool.eq_false_iff.1 (h e he)

/-- A drop takes off the last open table of its name, and no table of another name. -/
theorem openOf_drop (r : TempRegistry) (n : String) (p : Place) :
    openOf name (r.drop n p).entries =
      if Ident.same n name then (openOf name r.entries).dropLast else openOf name r.entries := by
  rcases drop_cases r n p with
    ⟨hdrop, hall⟩ | ⟨front, e, back, hentries, hdrop, hname, hopen, hback⟩
  · rw [hdrop]
    split
    · next hsame => rw [openOf_eq_nil hsame hall, List.dropLast_nil]
    · rfl
  · rw [hdrop, hentries]
    simp only [openOf_append, openOf_cons]
    by_cases hsame : Ident.same n name
    · have he : Ident.same e.table.name name := Ident.same_trans hname hsame
      rw [if_pos hsame, openOf_eq_nil hsame hback]
      simp [he, hopen]
    · have he : ¬ Ident.same e.table.name name := fun heq =>
        hsame (Ident.same_trans ((Ident.same_comm n e.table.name).trans hname) heq)
      rw [if_neg hsame]
      simp [he]

theorem rdrop_dropLast {α : Type} (l : List α) (n : Nat) :
    l.dropLast.rdrop n = l.rdrop (n + 1) := by
  rw [List.rdrop, List.rdrop, List.dropLast_eq_take, List.take_take, List.length_take]
  congr 1
  omega

theorem openOf_foldl_drop (r : TempRegistry) (p : Place) (names : List String) :
    openOf name (names.foldl (fun r n => r.drop n p) r).entries =
      (openOf name r.entries).rdrop (names.countP fun n => Ident.same n name) := by
  induction names generalizing r with
  | nil => exact (List.rdrop_zero _).symm
  | cons n names ih =>
      rw [List.foldl_cons, ih, openOf_drop, List.countP_cons]
      split
      · rw [rdrop_dropLast]
      · rfl

theorem span_created (r : TempRegistry) (resolver : Resolver) (s : Statement) (t : TempTable) :
    (r.created resolver s t).span = t.span := by
  obtain ⟨hplace, -, hkind⟩ := place_created r resolver s t
  rw [TempTable.span, hplace, hkind]
  rfl

/-- One statement opens and drops tables in the registry as it does by itself. -/
theorem map_span_openOf_step (resolver : Resolver) (r : TempRegistry) (s : Statement)
    {ts : List TempTable} (h : (openOf name r.entries).map TempTable.span = ts.map TempTable.span) :
    (openOf name (step resolver r s).entries).map TempTable.span =
      (s.undroppedBy name ts).map TempTable.span := by
  have hadded : (openOf name (r.added resolver s)).map TempTable.span =
      (s.tempTable.toList.filter fun t => Ident.same t.name name).map TempTable.span := by
    rw [added]
    cases s.tempTable with
    | none => rfl
    | some t =>
        obtain ⟨-, hname, -⟩ := place_created r resolver s t
        by_cases hsame : Ident.same t.name name <;> simp [openOf, hname, hsame, span_created]
  have hmap : ∀ l l' : List TempTable, l.map TempTable.span = l'.map TempTable.span →
      (l.rdrop (s.dropCount name)).map TempTable.span =
        (l'.rdrop (s.dropCount name)).map TempTable.span := by
    intro l l' heq
    rw [List.rdrop, List.rdrop, List.map_take, List.map_take, heq,
      ← List.length_map TempTable.span, heq, List.length_map]
  rw [step_eq, openOf_foldl_drop, openOf_append, Statement.undroppedBy]
  refine hmap _ _ ?_
  rw [List.map_append, List.map_append, h, hadded]

theorem map_span_openOf_ofStatements (resolver : Resolver) (ss : List Statement) :
    (openOf name (ofStatements resolver ss).entries).map TempTable.span =
      (Statement.undropped name ss).map TempTable.span := by
  suffices hfold : ∀ (r : TempRegistry) (ts : List TempTable),
      (openOf name r.entries).map TempTable.span = ts.map TempTable.span →
      (openOf name (ss.foldl (step resolver) r).entries).map TempTable.span =
        (ss.foldl (Statement.undroppedBy name) ts).map TempTable.span from hfold {} [] rfl
  induction ss with
  | nil => exact fun r ts h => h
  | cons s ss ih => exact fun r ts h => ih _ _ (map_span_openOf_step resolver r s h)

/-! ### Where the drops are -/

section

variable {p : Place}

/-- All drops so far are in front of the place. -/
def DroppedBefore (p : Place) (es : List TempEntry) : Prop :=
  ∀ e ∈ es, ∀ d ∈ e.dropped, d < p

theorem DroppedBefore.drop {r : TempRegistry} (h : DroppedBefore p r.entries) (n : String)
    {place : Place} (hlt : place < p) : DroppedBefore p (r.drop n place).entries := by
  rcases drop_cases r n place with ⟨hdrop, -⟩ | ⟨front, e, back, hentries, hdrop, -⟩
  · rwa [hdrop]
  · rw [hentries] at h
    obtain ⟨hfront, hrest⟩ := List.forall_mem_append.1 h
    rw [hdrop]
    refine List.forall_mem_append.2 ⟨hfront, List.forall_mem_cons.2 ⟨fun d hd => ?_, ?_⟩⟩
    · obtain rfl := Option.some.inj hd
      exact hlt
    · exact (List.forall_mem_cons.1 hrest).2

theorem DroppedBefore.step (resolver : Resolver) {r : TempRegistry} {s : Statement}
    (h : DroppedBefore p r.entries) (hlt : s.place < p) :
    DroppedBefore p (step resolver r s).entries := by
  have hdrops : ∀ (names : List String) (grown : TempRegistry), DroppedBefore p grown.entries →
      DroppedBefore p (names.foldl (fun r n => r.drop n s.place) grown).entries := by
    intro names
    induction names with
    | nil => exact fun grown hgrown => hgrown
    | cons n names ih => exact fun grown hgrown => ih _ (hgrown.drop n hlt)
  rw [step_eq]
  refine hdrops _ _ (List.forall_mem_append.2 ⟨h, fun e he => ?_⟩)
  obtain ⟨t, -, rfl⟩ := Option.map_eq_some_iff.1 (Option.mem_toList.1 he)
  simp

theorem droppedBefore_ofStatements (resolver : Resolver) {ss : List Statement}
    (h : ∀ s ∈ ss, s.place < p) : DroppedBefore p (ofStatements resolver ss).entries := by
  suffices hfold : ∀ r : TempRegistry, DroppedBefore p r.entries →
      DroppedBefore p (ss.foldl (TempRegistry.step resolver) r).entries from
    hfold {} fun e he => absurd he List.not_mem_nil
  induction ss with
  | nil => exact fun r hr => hr
  | cons s ss ih =>
      obtain ⟨hs, hss⟩ := List.forall_mem_cons.1 h
      exact fun r hr => ih hss _ (hr.step resolver hs)

/-- Behind all drops the visible tables of a name are the open ones that reach the place. -/
theorem visibleOf_of_droppedBefore {es : List TempEntry} (h : DroppedBefore p es) :
    visibleOf (fun m => Ident.same m name) p es =
      (openOf name es).filter fun t => t.Reaches p := by
  induction es with
  | nil => rfl
  | cons e es ih =>
      obtain ⟨he, hes⟩ := List.forall_mem_cons.1 h
      have hvisible : e.isVisibleAt p = (decide (e.table.Reaches p) && e.dropped.isNone) := by
        rw [TempEntry.isVisibleAt]
        cases hdropped : e.dropped with
        | none =>
            rw [Bool.eq_iff_iff, Bool.and_eq_true (decide _), decide_eq_true_iff]
            simp [TempTable.Reaches]
        | some d => simp [Place.not_le.2 (he d hdropped)]
      rw [visibleOf_cons, openOf_cons, List.filter_append, ih hes, hvisible]
      by_cases hsame : Ident.same e.table.name name <;> by_cases hopen : e.dropped.isNone <;>
        by_cases hreach : e.table.Reaches p <;> simp [hsame, hopen, hreach]

end

/-! ### What a place finds -/

theorem exists_same_of_mem {es : List TempEntry} {e : TempEntry} (h : e ∈ es) :
    ∃ e' ∈ latest es, Ident.same e'.table.name e.table.name := by
  induction es generalizing e with
  | nil => exact absurd h List.not_mem_nil
  | cons f es ih =>
      rw [latest]
      split
      · next hlater =>
        rcases List.mem_cons.1 h with rfl | h
        · obtain ⟨later, hmem, hsame⟩ := List.any_eq_true.1 hlater
          obtain ⟨e', he', hsame'⟩ := ih hmem
          exact ⟨e', he', Ident.same_trans hsame' hsame⟩
        · exact ih h
      · rcases List.mem_cons.1 h with rfl | h
        · exact ⟨e, List.mem_cons_self, Ident.same_refl _⟩
        · obtain ⟨e', he', hsame⟩ := ih h
          exact ⟨e', List.mem_cons_of_mem f he', hsame⟩

/-- A name finds nothing just if no table of that name is visible. -/
theorem find?_eq_none_iff (r : TempRegistry) (name : String) (p : Place) :
    r.find? name p = none ↔ visibleOf (fun m => Ident.same m name) p r.entries = [] := by
  rw [find?, List.find?_eq_none, visibleOf, List.map_eq_nil_iff, List.filter_eq_nil_iff]
  constructor
  · intro h e he hvisible
    obtain ⟨hsame, hvisible⟩ := Bool.and_eq_true_iff.1 hvisible
    have hmem : e ∈ r.entries.filter fun e => e.isVisibleAt p :=
      List.mem_filter.2 ⟨he, hvisible⟩
    obtain ⟨e', he', hsame'⟩ := exists_same_of_mem hmem
    exact h _ (List.mem_map_of_mem he') (Ident.same_trans hsame' hsame)
  · intro h t ht hsame
    obtain ⟨e, he, rfl, hvisible⟩ := exists_entry_of_mem_visibleAt ht
    exact h e he (Bool.and_eq_true_iff.2 ⟨hsame, hvisible⟩)

end TempRegistry

/-! ### Statements in order -/

namespace Statement

variable {ss : List Statement} {p : Place}

theorem le_place_of_mem_dropWhile (hordered : ss.Pairwise fun s s' => s.place ≤ s'.place) :
    ∀ s ∈ ss.dropWhile fun s => s.place < p, p ≤ s.place := by
  induction ss with
  | nil => exact fun s hs => absurd hs List.not_mem_nil
  | cons s ss ih =>
      obtain ⟨hs, hss⟩ := List.pairwise_cons.1 hordered
      rw [List.dropWhile_cons]
      split
      · exact ih hss
      · next hnot =>
        have hle : p ≤ s.place := Place.not_lt.1 fun hlt => hnot (decide_eq_true hlt)
        exact List.forall_mem_cons.2 ⟨hle, fun s' hs' => Place.le_trans hle (hs s' hs')⟩

section

variable {i : Nat} {d : Statement}

theorem eq_take_append_cons_drop (h : ss[i]? = some d) :
    ss = ss.take i ++ d :: ss.drop (i + 1) := by
  obtain ⟨hi, rfl⟩ := List.getElem?_eq_some_iff.1 h
  rw [← List.drop_eq_getElem_cons hi, List.take_append_drop]

/-- Statements up to one in front of a place are in front of it. -/
theorem place_lt_of_mem_take (hordered : ss.Pairwise fun s s' => s.place ≤ s'.place)
    (h : ss[i]? = some d) (hd : d.place < p) : ∀ s ∈ ss.take i, s.place < p := by
  rw [eq_take_append_cons_drop h] at hordered
  intro s hs
  exact Place.lt_of_le_of_lt ((List.pairwise_append.1 hordered).2.2 s hs d List.mem_cons_self) hd

theorem takeWhile_place (hordered : ss.Pairwise fun s s' => s.place ≤ s'.place)
    (h : ss[i]? = some d) (hd : d.place < p) :
    (ss.takeWhile fun s => s.place < p) =
      ss.take i ++ d :: (ss.drop (i + 1)).takeWhile fun s => s.place < p := by
  have hfront := place_lt_of_mem_take hordered h hd
  conv_lhs => rw [eq_take_append_cons_drop h]
  rw [List.takeWhile_append_of_pos (fun s hs => decide_eq_true (hfront s hs)),
    List.takeWhile_cons, if_pos (decide_eq_true hd)]

theorem mem_drop_of_le_place (hordered : ss.Pairwise fun s s' => s.place ≤ s'.place)
    (h : ss[i]? = some d) (hd : d.place < p) {s : Statement} (hs : s ∈ ss) (hle : p ≤ s.place) :
    s ∈ ss.drop (i + 1) := by
  rw [eq_take_append_cons_drop h] at hs
  rcases List.mem_append.1 hs with hs | hs
  · exact absurd (place_lt_of_mem_take hordered h hd s hs) (Place.not_lt.2 hle)
  · rcases List.mem_cons.1 hs with rfl | hs
    · exact absurd hd (Place.not_lt.2 hle)
    · exact hs

end

/-- Statements that create no table of a name at a place leave none that reaches it. -/
theorem not_reaches_foldl {name : String} {ts : List TempTable} (hts : ∀ t ∈ ts, ¬ t.Reaches p)
    (hss : ∀ s ∈ ss, ∀ t ∈ s.tempTable, Ident.same t.name name → ¬ t.place ≤ p) :
    ∀ t ∈ ss.foldl (undroppedBy name) ts, ¬ t.Reaches p := by
  induction ss generalizing ts with
  | nil => exact hts
  | cons s ss ih =>
      obtain ⟨hs, hss⟩ := List.forall_mem_cons.1 hss
      refine ih (fun t ht => ?_) hss
      rcases List.mem_append.1 ((List.take_subset _ _) ht) with ht | ht
      · exact hts t ht
      · obtain ⟨hcreated, hsame⟩ := List.mem_filter.1 ht
        exact fun hreach => hs t (Option.mem_toList.1 hcreated) hsame hreach.1

end Statement

namespace TempRegistry

/-- A name finds nothing just if none of its tables left open by the statements in front reaches the
place, when no statement from the place on creates one there. -/
theorem find?_ofStatements_eq_none_iff (resolver : Resolver) {name : String} {p : Place}
    {ss : List Statement} (hordered : ss.Pairwise fun s s' => s.place ≤ s'.place)
    (hcreated : ∀ s ∈ ss, p ≤ s.place → ∀ t ∈ s.tempTable,
      Ident.same t.name name → ¬ t.place ≤ p) :
    (ofStatements resolver ss).find? name p = none ↔
      ∀ t ∈ Statement.undropped name (ss.takeWhile fun s => s.place < p), ¬ t.Reaches p := by
  have hfront : ∀ s ∈ ss.takeWhile fun s => s.place < p, s.place < p := fun s hs =>
    of_decide_eq_true (List.mem_takeWhile_imp (p := fun s : Statement => decide (s.place < p)) hs)
  have hbehind := Statement.le_place_of_mem_dropWhile (p := p) hordered
  have hsplit : ofStatements resolver ss =
      (ss.dropWhile fun s => s.place < p).foldl (step resolver)
        (ofStatements resolver (ss.takeWhile fun s => s.place < p)) := by
    rw [← ofStatements_append, List.takeWhile_append_dropWhile]
  have hvisible : visibleOf (fun m => Ident.same m name) p (ofStatements resolver ss).entries =
      visibleOf (fun m => Ident.same m name) p
        (ofStatements resolver (ss.takeWhile fun s => s.place < p)).entries := by
    rw [hsplit]
    exact visibleOf_foldl resolver _ fun s hs =>
      ⟨hbehind s hs, hcreated s ((List.dropWhile_sublist _).subset hs) (hbehind s hs)⟩
  rw [find?_eq_none_iff, hvisible,
    visibleOf_of_droppedBefore (droppedBefore_ofStatements resolver hfront),
    ← TempTable.forall_not_reaches_congr (map_span_openOf_ofStatements resolver _)]
  simp

end TempRegistry

/-! ### Drops in a buffer -/

theorem Buffer.dropped_of_isReadFrom {d : Statement} {ts : List Token} (h : IsReadFrom d ts) :
    d.kind = (Statement.parse ts).kind ∧ d.droppedNames = (Statement.parse ts).droppedNames ∧
      ((Statement.parse ts).tempTable = none → d.tempTable = none) := by
  rw [h, Statement.inBatch]
  refine ⟨rfl, rfl, fun hnone => ?_⟩
  dsimp only
  rw [hnone, Option.map_none]

namespace TempRegistry

/-- A drop of the only open table of a name leaves none behind it. -/
theorem not_reaches_of_drop {ss : List Statement} {d : Statement} {name : String} {p : Place}
    {ts : List TempTable} (hcreates : d.tempTable = none)
    (hdrops : ∃ n ∈ d.droppedNames, Ident.same n name) (hopen : ts.length ≤ 1)
    (hss : ∀ s ∈ ss, ∀ t ∈ s.tempTable, Ident.same t.name name → ¬ t.place ≤ p) :
    ∀ t ∈ (d :: ss).foldl (Statement.undroppedBy name) ts, ¬ t.Reaches p := by
  have hcount : 0 < d.dropCount name := List.countP_pos_iff.2 hdrops
  have hnone : Statement.undroppedBy name ts d = [] := by
    rw [Statement.undroppedBy, hcreates, Option.toList_none, List.filter_nil, List.append_nil,
      List.rdrop, List.take_eq_nil_iff]
    omega
  rw [List.foldl_cons, hnone]
  exact Statement.not_reaches_foldl (fun t ht => absurd ht List.not_mem_nil) hss

/-- A `DROP TABLE` drops the first table of its list, if that is a temporary one, and tables named
behind a `FROM` or `ON` that is written behind the list. Where no table of a name is created behind
it, the name finds nothing at a place behind it just if no table of that name reaches the place, of
those that are created and not dropped in front, each drop taken with the latest creation before it.
So a name that comes first in the list finds nothing if at most one table of that name was left in
front of the statement. -/
theorem none_behind_drop_iff (source : String) (database : Option String) (resolver : Resolver)
    (i : Nat) (d : Statement) (ts behind : List Token) (names : List String) (name : String)
    (p : Place) (hd : (Buffer.parse source database).statements[i]? = some d)
    (hts : (Buffer.statementTokens source)[i]? = some ts) (hdrop : DropsTables ts names behind)
    (hp : d.place < p)
    (hcreated : ∀ s ∈ (Buffer.parse source database).statements.drop (i + 1), ∀ t ∈ s.tempTable,
      Ident.same t.name name → ¬ t.place ≤ p) :
    let all := (Buffer.parse source database).statements
    d.kind = .drop ∧
      (∃ others, d.droppedNames =
          others ++ (names.take 1).filter (fun n => (TempKind.ofName? n).isSome) ∧
        ((∀ t ∈ behind, t.leadsToTables = false) → others = [])) ∧
      ((ofStatements resolver all).find? name p = none ↔
        ∀ t ∈ Statement.undropped name (all.takeWhile fun s => s.place < p), ¬ t.Reaches p) ∧
      ((∃ n ∈ names.head?, (TempKind.ofName? n).isSome ∧ Ident.same n name) →
        (Statement.undropped name (all.take i)).length ≤ 1 →
          (ofStatements resolver all).find? name p = none) := by
  intro all
  obtain ⟨ts', hts', hreads⟩ := Buffer.exists_reads hd
  obtain rfl := Option.some.inj (hts'.symm.trans hts)
  obtain ⟨hkind, htemp, others, hnames, hothers⟩ := Statement.droppedNames_parse hdrop
  obtain ⟨hkind', hnames', htemp'⟩ := Buffer.dropped_of_isReadFrom hreads.isReadFrom
  have hordered : all.Pairwise fun s s' => s.place ≤ s'.place :=
    (Buffer.pairwise_place source database).imp fun h => h.1
  have hfront := Statement.takeWhile_place hordered hd hp
  have hiff : (ofStatements resolver all).find? name p = none ↔
      ∀ t ∈ Statement.undropped name (all.takeWhile fun s => s.place < p), ¬ t.Reaches p :=
    find?_ofStatements_eq_none_iff resolver hordered fun s hs hle =>
      hcreated s (Statement.mem_drop_of_le_place hordered hd hp hs hle)
  refine ⟨hkind'.trans hkind, ⟨others, hnames'.trans hnames, hothers⟩, hiff, ?_⟩
  rintro ⟨n, hn, htempName, hsame⟩ hopen
  rw [hiff, hfront, Statement.undropped, List.foldl_append]
  refine not_reaches_of_drop (htemp' htemp) ⟨n, ?_, hsame⟩ hopen fun s hs =>
    hcreated s ((List.takeWhile_sublist _).subset hs)
  rw [hnames', hnames]
  refine List.mem_append_right _ (List.mem_filter.2 ⟨?_, htempName⟩)
  rw [List.take_one]
  exact Option.mem_toList.2 hn

/-- The table comes first in the list, in another case. -/
theorem none_behind_drop_of_first :
    let source := "CREATE TABLE #a (x int)\nDROP TABLE #A, #b"
    let resolver : Resolver := { source := none, maxDepth := 32 }
    let all := (Buffer.parse source none).statements
    let p : Place := ⟨0, 3⟩
    ∃ d ts, all[1]? = some d ∧ (Buffer.statementTokens source)[1]? = some ts ∧
      DropsTables ts ["#A", "#b"] [] ∧ d.place < p ∧
      (∀ s ∈ all.drop 2, ∀ t ∈ s.tempTable, Ident.same t.name "#a" → ¬ t.place ≤ p) ∧
      d.droppedNames = ["#A"] ∧ (ofStatements resolver all).find? "#a" p = none := by
  intro source resolver all p
  let ts : List Token :=
    [⟨.keyword .DROP, "DROP", ⟨2, 1⟩, ⟨2, 5⟩⟩, ⟨.keyword .TABLE, "TABLE", ⟨2, 6⟩, ⟨2, 11⟩⟩,
      ⟨.identifier, "#A", ⟨2, 12⟩, ⟨2, 14⟩⟩, ⟨.comma, ",", ⟨2, 14⟩, ⟨2, 15⟩⟩,
      ⟨.identifier, "#b", ⟨2, 16⟩, ⟨2, 18⟩⟩]
  have hrun : (all[1]?.any fun d => decide (d.place < p)) = true ∧
      (Buffer.statementTokens source)[1]? = some ts ∧
      (∀ s ∈ all.drop 2, ∀ t ∈ s.tempTable, Ident.same t.name "#a" → ¬ t.place ≤ p) ∧
      (Statement.undropped "#a" (all.take 1)).length ≤ 1 := by decide +kernel
  obtain ⟨hany, hts, hcreated, hopen⟩ := hrun
  obtain ⟨d, hd, hlt⟩ := (Option.any_eq_true _ _).1 hany
  have hp : d.place < p := of_decide_eq_true hlt
  have hdrop : DropsTables ts ["#A", "#b"] [] := .of_listsTables rfl rfl (.pair rfl rfl rfl)
  have hfirst : ∃ n ∈ ["#A", "#b"].head?, (TempKind.ofName? n).isSome ∧ Ident.same n "#a" :=
    ⟨"#A", rfl, by decide +kernel⟩
  obtain ⟨-, ⟨others, hnames, hothers⟩, -, hnone⟩ :=
    none_behind_drop_iff source none resolver 1 d ts [] _ "#a" p hd hts hdrop hp hcreated
  obtain rfl := hothers (by simp)
  exact ⟨d, ts, hd, hts, hdrop, hp, hcreated, hnames.trans (by decide +kernel),
    hnone hfirst hopen⟩

/-- The table comes second in the list. -/
theorem some_behind_drop_of_second :
    let source := "CREATE TABLE #b (x int)\nDROP TABLE #a, #b"
    let resolver : Resolver := { source := none, maxDepth := 32 }
    let all := (Buffer.parse source none).statements
    let p : Place := ⟨0, 3⟩
    ∃ d ts, all[1]? = some d ∧ (Buffer.statementTokens source)[1]? = some ts ∧
      DropsTables ts ["#a", "#b"] [] ∧ d.place < p ∧
      (∀ s ∈ all.drop 2, ∀ t ∈ s.tempTable, Ident.same t.name "#b" → ¬ t.place ≤ p) ∧
      ((ofStatements resolver all).find? "#b" p).isSome := by
  intro source resolver all p
  let ts : List Token :=
    [⟨.keyword .DROP, "DROP", ⟨2, 1⟩, ⟨2, 5⟩⟩, ⟨.keyword .TABLE, "TABLE", ⟨2, 6⟩, ⟨2, 11⟩⟩,
      ⟨.identifier, "#a", ⟨2, 12⟩, ⟨2, 14⟩⟩, ⟨.comma, ",", ⟨2, 14⟩, ⟨2, 15⟩⟩,
      ⟨.identifier, "#b", ⟨2, 16⟩, ⟨2, 18⟩⟩]
  have hrun : (all[1]?.any fun d => decide (d.place < p)) = true ∧
      (Buffer.statementTokens source)[1]? = some ts ∧
      (∀ s ∈ all.drop 2, ∀ t ∈ s.tempTable, Ident.same t.name "#b" → ¬ t.place ≤ p) ∧
      ((ofStatements resolver all).find? "#b" p).isSome := by decide +kernel
  obtain ⟨hany, hts, hcreated, hsome⟩ := hrun
  obtain ⟨d, hd, hlt⟩ := (Option.any_eq_true _ _).1 hany
  have hdrop : DropsTables ts ["#a", "#b"] [] := .of_listsTables rfl rfl (.pair rfl rfl rfl)
  exact ⟨d, ts, hd, hts, hdrop, of_decide_eq_true hlt, hcreated, hsome⟩

/-- The table has been created twice, and the drop leaves the first. -/
example :
    let source := "CREATE TABLE #a (x int)\nCREATE TABLE #a (x int)\nDROP TABLE #a"
    let resolver : Resolver := { source := none, maxDepth := 32 }
    ((ofStatements resolver (Buffer.parse source none).statements).find? "#a" ⟨0, 4⟩).isSome := by
  decide +kernel

end TempRegistry

end Tsql
