import Mathlib
import Tsql.Proofs.Statement.Query
import Tsql.Resolve.Columns

/-!
Expansion without a limit on the depth.

A call of the resolver that answers still gives the same answer when more levels are allowed
(`outputAt_keeps`, `columnsAt_keeps`). And there are always enough levels: the statements that can
still be entered are the queries of the derived tables and the bodies that the environment holds.
Entering one of them takes it away and adds only what is nested in it, so their number (`Call.reach`)
falls with each level (`Environment.reach_query_lt`), though a body that has been left may be entered
again from another place. From `Call.reach` levels on nothing that the resolver calls runs into the
limit (`exists_depth_resolveScope`).
-/

namespace Tsql

/-! ### Answers -/

namespace Resolver

/-- The resolver with another limit on the depth. -/
def limitedTo (r : Resolver) (maxDepth : Nat) : Resolver :=
  { r with maxDepth := maxDepth }

/-- Where the first result is an answer, the second one is the same answer. -/
def Keeps {α : Type} (x y : Except ColumnError α) : Prop :=
  ∀ a, x = .ok a → y = .ok a

namespace Keeps

variable {α β : Type} {x y : Except ColumnError α}

theorem refl (x : Except ColumnError α) : Keeps x x :=
  fun _ h => h

theorem error (e : ColumnError) (y : Except ColumnError α) : Keeps (.error e) y :=
  fun _ h => by contradiction

theorem map (h : Keeps x y) (f : α → β) : Keeps (x.map f) (y.map f) := by
  cases x with
  | error e => exact error e _
  | ok a =>
      rw [h a rfl]
      exact refl _

theorem mapM {f g : α → Except ColumnError β} {as : List α} (h : ∀ a ∈ as, Keeps (f a) (g a)) :
    Keeps (as.mapM f) (as.mapM g) := by
  induction as with
  | nil => exact refl _
  | cons a as ih =>
      obtain ⟨hhead, hrest⟩ := List.forall_mem_cons.1 h
      rw [List.mapM_cons, List.mapM_cons]
      cases hb : f a with
      | error e => exact error e _
      | ok b =>
          rw [hhead b hb]
          exact (ih hrest).map (b :: ·)

end Keeps

/-- All answers together are an answer. -/
theorem exists_mapM_eq_ok {α β : Type} {f : α → Except ColumnError β} {as : List α}
    (h : ∀ a ∈ as, ∃ b, f a = .ok b) : ∃ bs, as.mapM f = .ok bs := by
  induction as with
  | nil => exact ⟨[], rfl⟩
  | cons a as ih =>
      obtain ⟨⟨b, hb⟩, hrest⟩ := List.forall_mem_cons.1 h
      obtain ⟨bs, hbs⟩ := ih hrest
      exact ⟨b :: bs, by rw [List.mapM_cons, hb, hbs]; rfl⟩

/-! ### More levels -/

section

variable {output output' : Statement → Environment → Except ColumnError (List ColumnRef)}
  {columns columns' : TableRef → Except ColumnError (List ColumnRef)}

theorem expand_keeps (h : ∀ t, Keeps (columns t) (columns' t)) (s : Statement) (c : ColumnRef) :
    Keeps (expand columns s c) (expand columns' s c) := by
  unfold expand
  split
  · exact (Keeps.mapM fun t _ => h t).map List.flatten
  · split
    · exact .refl _
    · cases columnTable? s c.source with
      | none => exact .refl _
      | some t => exact (h t).map _

theorem outputWith_keeps (h : ∀ t, Keeps (columns t) (columns' t)) (s : Statement) :
    Keeps (outputWith columns s) (outputWith columns' s) :=
  (Keeps.mapM fun c _ => expand_keeps h s c).map List.flatten

theorem columnsWith_keeps (r : Resolver) (h : ∀ s e, Keeps (output s e) (output' s e))
    (owner : Statement) (e : Environment) (t : TableRef) :
    Keeps (r.columnsWith output owner e t) (r.columnsWith output' owner e t) := by
  unfold columnsWith
  split
  · cases t.subqueryIndex.bind fun i => owner.subqueries[i]? with
    | none => exact .refl _
    | some q => exact (h q.body _).map _
  · cases if t.isCte then e.findCte? t.name else none with
    | none => exact .refl _
    | some c => exact (h c.body _).map _

end

/-- The output of a query with more levels left, whatever the limits are. -/
theorem outputAt_keeps (r : Resolver) (limit limit' : Nat) {levels more : Nat}
    (h : levels ≤ more) (s : Statement) (e : Environment) :
    Keeps ((r.limitedTo limit).outputAt levels s e)
      ((r.limitedTo limit').outputAt more s e) := by
  induction levels generalizing more s e with
  | zero => exact .error _ _
  | succ levels ih =>
      obtain ⟨more, rfl⟩ := Nat.exists_eq_add_of_le' h
      exact outputWith_keeps
        (columnsWith_keeps r (fun s e => ih (Nat.le_add_left levels more) s e) s e) s

theorem columnsAt_keeps (r : Resolver) (limit limit' : Nat) {levels more : Nat}
    (h : levels ≤ more) (owner : Statement) (e : Environment) (t : TableRef) :
    Keeps ((r.limitedTo limit).columnsAt levels owner e t)
      ((r.limitedTo limit').columnsAt more owner e t) := by
  cases levels with
  | zero => exact .error _ _
  | succ levels =>
      obtain ⟨more, rfl⟩ := Nat.exists_eq_add_of_le' h
      exact columnsWith_keeps r
        (fun s e => r.outputAt_keeps limit limit' (Nat.le_add_left levels more) s e) owner e t

/-! ### Calls -/

/-- The tables whose columns an item of a select list takes. -/
def itemTables (s : Statement) (c : ColumnRef) : List TableRef :=
  if c.isStar then starTables s c.source
  else if c.dataType.isSome || isCall c then []
  else (columnTable? s c.source).toList

/-- A call of the resolver: for the columns of a table or for the output of a query, with the number of
levels that are left. -/
inductive Call
  | columns (levels : Nat) (owner : Statement) (e : Environment) (t : TableRef)
  | output (levels : Nat) (s : Statement) (e : Environment)

namespace Call

def result (r : Resolver) : Call → Except ColumnError (List ColumnRef)
  | columns levels owner e t => r.columnsAt levels owner e t
  | output levels s e => r.outputAt levels s e

/-- The calls that a call makes. -/
inductive Makes : Call → Call → Prop
  | derived {levels : Nat} {owner : Statement} {e : Environment} {t : TableRef} {q : Subquery}
      (ht : t.isDerived) (hq : owner.queryOf? t = some q) :
      Makes (columns (levels + 1) owner e t) (output levels q.body (e.inside q.body))
  | cte {levels : Nat} {owner : Statement} {e : Environment} {t : TableRef} {c : Cte}
      (ht : t.isDerived = false) (hmark : t.isCte) (hc : e.findCte? t.name = some c) :
      Makes (columns (levels + 1) owner e t) (output levels c.body ((e.without c.name).inside c.body))
  | item {levels : Nat} {s : Statement} {e : Environment} {c : ColumnRef} {t : TableRef}
      (hc : c ∈ s.columns) (ht : t ∈ itemTables s c) :
      Makes (output (levels + 1) s e) (columns (levels + 1) s e t)

def levels : Call → Nat
  | columns levels _ _ _ => levels
  | output levels _ _ => levels

end Call

section

variable {r : Resolver} {s owner : Statement} {e : Environment} {t : TableRef} {c : ColumnRef}

theorem exists_expand_eq_ok {columns : TableRef → Except ColumnError (List ColumnRef)}
    (h : ∀ t ∈ itemTables s c, ∃ found, columns t = .ok found) :
    ∃ found, expand columns s c = .ok found := by
  unfold itemTables at h
  unfold expand
  split
  · next hstar =>
    rw [if_pos hstar] at h
    obtain ⟨found, hfound⟩ := exists_mapM_eq_ok h
    exact ⟨found.flatten, by rw [hfound]; rfl⟩
  · next hstar =>
    rw [if_neg hstar] at h
    split
    · exact ⟨[c], rfl⟩
    · next htyped =>
      rw [if_neg htyped] at h
      cases ht : columnTable? s c.source with
      | none => exact ⟨[c], rfl⟩
      | some t =>
          obtain ⟨found, hfound⟩ := h t (by rw [ht]; exact List.mem_singleton_self t)
          dsimp only
          exact ⟨_, by rw [hfound]; rfl⟩

theorem exists_outputWith_eq_ok {columns : TableRef → Except ColumnError (List ColumnRef)}
    (h : ∀ c ∈ s.columns, ∀ t ∈ itemTables s c, ∃ found, columns t = .ok found) :
    ∃ found, outputWith columns s = .ok found := by
  obtain ⟨found, hfound⟩ := exists_mapM_eq_ok fun c hc => exists_expand_eq_ok (h c hc)
  exact ⟨found.flatten, by rw [outputWith, hfound]; rfl⟩

/-- A call with a level left answers if the calls that it makes do. -/
theorem Call.exists_result_eq_ok {call : Call} (hlevels : 0 < call.levels)
    (h : ∀ made, call.Makes made → ∃ found, made.result r = .ok found) :
    ∃ found, call.result r = .ok found := by
  cases call with
  | columns levels owner e t =>
      obtain ⟨levels, rfl⟩ := Nat.exists_eq_add_of_le' hlevels
      rw [result, columnsAt, columnsWith]
      split
      · next hderived =>
        cases hq : t.subqueryIndex.bind fun i => owner.subqueries[i]? with
        | none => exact ⟨[], rfl⟩
        | some q =>
            obtain ⟨found, hfound⟩ := h _ (.derived hderived hq)
            rw [result] at hfound
            dsimp only
            exact ⟨_, by rw [hfound]; rfl⟩
      · next hderived =>
        cases hc : if t.isCte then e.findCte? t.name else none with
        | none => exact ⟨_, rfl⟩
        | some c =>
            obtain ⟨hmark, hfind⟩ : t.isCte ∧ e.findCte? t.name = some c := by
              split at hc
              · next hmark => exact ⟨hmark, hc⟩
              · contradiction
            obtain ⟨found, hfound⟩ := h _ (.cte (Bool.not_eq_true _ ▸ hderived) hmark hfind)
            rw [result] at hfound
            dsimp only
            exact ⟨_, by rw [hfound]; rfl⟩
  | output levels s e =>
      obtain ⟨levels, rfl⟩ := Nat.exists_eq_add_of_le' hlevels
      exact exists_outputWith_eq_ok fun c hc t ht => h _ (.item hc ht)

end

end Resolver

/-! ### What can still be entered -/

/-- Number of statements in the bodies of the expressions. -/
def Cte.bodyCount (cs : List Cte) : Nat :=
  (cs.map fun c => c.body.all.length).sum

/-- Number of statements in the queries. -/
def Subquery.bodyCount (qs : List Subquery) : Nat :=
  (qs.map fun q => q.body.all.length).sum

theorem Statement.length_all (s : Statement) :
    s.all.length = Cte.bodyCount s.ctes + Subquery.bodyCount s.subqueries + 1 := by
  rw [all_eq, List.length_cons, nested, List.flatMap_append, List.length_append,
    List.length_flatMap, List.length_flatMap, List.map_map, List.map_map]
  rfl

namespace Cte

theorem bodyCount_append (cs ds : List Cte) : bodyCount (cs ++ ds) = bodyCount cs + bodyCount ds := by
  rw [bodyCount, List.map_append, List.sum_append]
  rfl

theorem bodyCount_filter_le (p : Cte → Bool) (cs : List Cte) :
    bodyCount (cs.filter p) ≤ bodyCount cs :=
  (List.filter_sublist.map _).sum_le_sum fun _ _ => Nat.zero_le _

theorem bodyCount_filter_add_le {p : Cte → Bool} {c : Cte} {cs : List Cte} (hc : c ∈ cs)
    (hp : p c = false) : bodyCount (cs.filter p) + c.body.all.length ≤ bodyCount cs := by
  obtain ⟨front, back, rfl⟩ := List.append_of_mem hc
  have hfront := bodyCount_filter_le p front
  have hback := bodyCount_filter_le p back
  have hcons : bodyCount (c :: back) = c.body.all.length + bodyCount back := List.sum_cons
  rw [List.filter_append, List.filter_cons_of_neg (by simp [hp]), bodyCount_append,
    bodyCount_append, hcons]
  omega

end Cte

namespace Environment

/-- Number of statements that can be entered from the statement in the environment, itself included. -/
def reach (e : Environment) (s : Statement) : Nat :=
  Cte.bodyCount e.ctes + Subquery.bodyCount s.subqueries + 1

variable {e : Environment} {s : Statement} {c : Cte} {q : Subquery} {name : String}

/-- Inside a statement what is nested in it can be entered, and what could be before. -/
theorem reach_inside_le (e : Environment) (s : Statement) :
    (e.inside s).reach s ≤ Cte.bodyCount e.ctes + s.all.length := by
  have hothers := Cte.bodyCount_filter_le
    (fun c => !s.ctes.any fun own => Ident.same own.name c.name) e.ctes
  rw [reach, inside, Cte.bodyCount_append, s.length_all]
  omega

theorem reach_query_lt (e : Environment) (hq : q ∈ s.subqueries) :
    (e.inside q.body).reach q.body < e.reach s := by
  have hinside := reach_inside_le e q.body
  have hmem : q.body.all.length ≤ Subquery.bodyCount s.subqueries :=
    List.le_sum_of_mem (List.mem_map.2 ⟨q, hq, rfl⟩)
  refine Nat.lt_of_le_of_lt hinside ?_
  rw [reach]
  omega

/-- The expression whose body is entered cannot be entered from there. -/
theorem reach_body_lt (s : Statement) (hc : e.findCte? name = some c) :
    ((e.without c.name).inside c.body).reach c.body < e.reach s := by
  have hinside := reach_inside_le (e.without c.name) c.body
  have hwithout : Cte.bodyCount (e.without c.name).ctes + c.body.all.length ≤
      Cte.bodyCount e.ctes :=
    Cte.bodyCount_filter_add_le (List.mem_of_find?_eq_some hc) (by simp)
  refine Nat.lt_of_le_of_lt hinside ?_
  rw [reach]
  omega

end Environment

namespace Resolver

namespace Call

/-- Number of statements that can be entered in the course of the call. -/
def reach : Call → Nat
  | columns _ owner e _ => e.reach owner
  | output _ s e => e.reach s

variable {call made : Call}

/-- A call that has a level for each statement that can be entered makes only such calls. -/
theorem Makes.reach_le (h : call.Makes made) (hlevels : call.reach ≤ call.levels) :
    made.reach ≤ made.levels := by
  cases h with
  | @derived levels owner e t q ht hq =>
      obtain ⟨i, -, hi⟩ := Option.bind_eq_some_iff.1 hq
      have hlt := e.reach_query_lt (List.mem_of_getElem? hi)
      simp only [reach, Call.levels] at hlevels ⊢
      omega
  | @cte levels owner e t c ht hmark hc =>
      have hlt := Environment.reach_body_lt owner hc
      simp only [reach, Call.levels] at hlevels ⊢
      omega
  | item hc ht => exact hlevels

theorem reach_pos (call : Call) : 0 < call.reach := by
  cases call <;> exact Nat.succ_pos _

/-- An output comes before the columns that it takes, and these before the outputs behind them. -/
def rank : Call → Nat
  | columns levels _ _ _ => 2 * levels
  | output levels _ _ => 2 * levels + 1

theorem Makes.rank_lt (h : call.Makes made) : made.rank < call.rank := by
  cases h <;> simp only [rank] <;> omega

/-- A call with enough levels answers. -/
theorem exists_result_of_reach_le (r : Resolver) (call : Call) (h : call.reach ≤ call.levels) :
    ∃ found, call.result r = .ok found :=
  exists_result_eq_ok (Nat.lt_of_lt_of_le call.reach_pos h) fun made hmade =>
    have := hmade.rank_lt
    exists_result_of_reach_le r made (hmade.reach_le h)
termination_by call.rank

theorem reach_le_of_makes (h : call.reach ≤ call.levels)
    (hmade : Relation.ReflTransGen Makes call made) : made.reach ≤ made.levels := by
  induction hmade with
  | refl => exact h
  | tail _ hmade ih => exact hmade.reach_le ih

/-- The call for the columns of a visible table. -/
def ofVisible (maxDepth : Nat) (temps : List TempTable) (v : ScopedTable) : Call :=
  columns (maxDepth + 1) v.scope.statement (.ofPath (v.scope :: v.outer) temps) v.table

/-- Number of levels that are enough for all tables that a scope sees. -/
def depthFor (path : List Scope) : Nat :=
  ((Scope.visibleTables path).map fun v => (ofVisible 0 [] v).reach).sum

theorem reach_ofVisible_le {path : List Scope} {maxDepth : Nat} (h : depthFor path ≤ maxDepth)
    (temps : List TempTable) {v : ScopedTable} (hv : v ∈ Scope.visibleTables path) :
    (ofVisible maxDepth temps v).reach ≤ (ofVisible maxDepth temps v).levels := by
  have hle : (ofVisible 0 [] v).reach ≤ depthFor path :=
    List.le_sum_of_mem (List.mem_map.2 ⟨v, hv, rfl⟩)
  exact Nat.le_succ_of_le (Nat.le_trans hle h)

end Call

/-- Where a visible table has columns under a limit, larger limits change nothing. -/
theorem resolveVisible_eq_of_le (r : Resolver) (temps : List TempTable) (v : ScopedTable)
    {limit limit' : Nat} (h : limit ≤ limit') {found : List ColumnRef}
    (hfound : (Call.ofVisible limit temps v).result (r.limitedTo limit) = .ok found) :
    (r.limitedTo limit').resolveVisible temps v = (r.limitedTo limit).resolveVisible temps v := by
  have hmore := r.columnsAt_keeps limit limit' (Nat.add_le_add_right h 1) _ _ _ found hfound
  have hcolumns : ∀ {limit}, (Call.ofVisible limit temps v).result (r.limitedTo limit) = .ok found →
      (r.limitedTo limit).columns v.scope.statement (.ofPath (v.scope :: v.outer) temps) v.table =
        .ok found := fun h => h
  rw [resolveVisible, resolveVisible, resolve, resolve, hcolumns hmore, hcolumns hfound]

/-- Whatever scopes of a statement are given, there is a depth from which on no call in their
resolution runs into the limit, and the columns stay the same. Under any limit, an answer is the same
as under all larger ones. -/
theorem exists_depth_resolveScope (r : Resolver) (path : List Scope) (temps : List TempTable) :
    (∃ depth, ∀ maxDepth, depth ≤ maxDepth →
      (∀ v ∈ Scope.visibleTables path, ∀ made,
        Relation.ReflTransGen Call.Makes (.ofVisible maxDepth temps v) made →
          ∃ found, made.result (r.limitedTo maxDepth) = .ok found) ∧
      (r.limitedTo maxDepth).resolveScope path temps =
        (r.limitedTo depth).resolveScope path temps) ∧
    ∀ limit limit' depth, limit ≤ limit' →
      (∀ owner e t found,
        (r.limitedTo limit).columnsAt (limit + 1 - depth) owner e t = .ok found →
        (r.limitedTo limit').columnsAt (limit' + 1 - depth) owner e t = .ok found) ∧
      ∀ s e found,
        (r.limitedTo limit).outputAt (limit + 1 - depth) s e = .ok found →
        (r.limitedTo limit').outputAt (limit' + 1 - depth) s e = .ok found := by
  refine ⟨⟨Call.depthFor path, fun maxDepth hdepth => ⟨fun v hv made hmade => ?_, ?_⟩⟩,
    fun limit limit' depth h => ?_⟩
  · have hreach := Call.reach_le_of_makes (Call.reach_ofVisible_le hdepth temps hv) hmade
    exact Call.exists_result_of_reach_le _ made hreach
  · refine List.map_congr_left fun v hv => ?_
    have hreach := Call.reach_ofVisible_le (Nat.le_refl (Call.depthFor path)) temps hv
    obtain ⟨found, hfound⟩ := Call.exists_result_of_reach_le (r.limitedTo _) _ hreach
    exact r.resolveVisible_eq_of_le temps v hdepth hfound
  · have hlevels : limit + 1 - depth ≤ limit' + 1 - depth := by omega
    exact ⟨fun owner e t => r.columnsAt_keeps limit limit' hlevels owner e t,
      fun s e => r.outputAt_keeps limit limit' hlevels s e⟩

end Resolver

end Tsql
