import Tsql.Proofs.Resolve.Lexical
import Tsql.Proofs.Resolve.Lookups

/-!
References to expressions that are being expanded.

While the body of a common table expression is expanded, the environment is without its name, so that
a marked reference of that name is looked up like a table of the catalog. `Call.Expanding` keeps the
names that are missing in this way along the calls of the resolver. The environment and these names
together have every name that a mark goes by, and nothing in the environment has one of them
(`Environment.Serves`); so the marked references that are looked up are exactly those of a name that is
being expanded, and derived and temporary tables are never looked up (`mem_visibleLookups`).
-/

namespace Tsql

/-! ### Names of marks -/

namespace Statement

/-- The marks in the statement, and in those nested in it, go by the names that are known around it and
by those declared on the way. -/
def MarkedBy (known : String → Prop) (s : Statement) : Prop :=
  ∃ (plain : Statement) (names : List String), s = plain.markedIn names ∧
    (∀ n ∈ plain.all, ∀ t ∈ n.tables, t.isCte = false) ∧ ∀ name ∈ names, known name

/-- The names that the statement does not declare itself. -/
def undeclared (s : Statement) (names : List String) : List String :=
  names.filter fun name => !s.ctes.any fun c => Ident.same c.name name

variable {known known' : String → Prop} {s : Statement}

theorem mem_undeclared {names : List String} {name : String} :
    name ∈ s.undeclared names ↔ name ∈ names ∧ ∀ c ∈ s.ctes, ¬ Ident.same c.name name := by
  simp [undeclared]

namespace MarkedBy

theorem mono (h : s.MarkedBy known) (himp : ∀ name, known name → known' name) :
    s.MarkedBy known' := by
  obtain ⟨plain, names, hs, hplain, hnames⟩ := h
  exact ⟨plain, names, hs, hplain, fun name hname => himp name (hnames name hname)⟩

/-- The names that the parts of a statement are marked with. -/
theorem known_inside {plain : Statement} {names : List String} (hnames : ∀ name ∈ names, known name)
    (hown : ∀ c ∈ (plain.markedIn names).ctes, known c.name) :
    ∀ name ∈ names ++ plain.ctes.map Cte.name, known name := by
  intro name hname
  rcases List.mem_append.1 hname with hname | hname
  · exact hnames name hname
  · rw [← Cte.map_name_markedIn names, ← ctes_markedIn] at hname
    obtain ⟨c, hc, rfl⟩ := List.mem_map.1 hname
    exact hown c hc

theorem exists_of_isCte (h : s.MarkedBy known) (hown : ∀ c ∈ s.ctes, known c.name) {t : TableRef}
    (ht : t ∈ s.tables) (hcte : t.isCte) : ∃ name, known name ∧ Ident.same name t.name := by
  obtain ⟨plain, names, rfl, hplain, hnames⟩ := h
  rw [tables_markedIn] at ht
  obtain ⟨u, hu, rfl⟩ := List.mem_map.1 ht
  obtain ⟨-, name, hname, hsame⟩ :=
    (TableRef.isCte_markedIn _ (hplain plain plain.mem_all_self u hu)).1 hcte
  exact ⟨name, known_inside hnames hown name hname, by rwa [TableRef.name_markedIn]⟩

theorem nested (h : s.MarkedBy known) (hown : ∀ c ∈ s.ctes, known c.name) {n : Statement}
    (hn : n ∈ s.nested) : n.MarkedBy known := by
  obtain ⟨plain, names, rfl, hplain, hnames⟩ := h
  have hinside := known_inside hnames hown
  rcases List.mem_append.1 hn with hn | hn
  · -- a body is marked with the names up to its own
    obtain ⟨c, hc, rfl⟩ := List.mem_map.1 hn
    obtain ⟨i, hi⟩ := List.mem_iff_getElem?.1 hc
    rw [ctes_markedIn, Cte.getElem?_markedIn] at hi
    obtain ⟨d, hd, rfl⟩ := Option.map_eq_some_iff.1 hi
    have hbody : d.body ∈ plain.nested :=
      List.mem_append_left _ (List.mem_map_of_mem (List.mem_of_getElem? hd))
    refine ⟨d.body, _, rfl, fun n hn => hplain n (mem_all_of_nested hbody hn), fun name hname => ?_⟩
    refine hinside name (List.mem_append.2 ?_)
    rcases (Scope.mem_namesInBody hd names name).1 hname with hname | hname
    · exact .inr (List.map_subset _ (List.take_subset _ _) hname)
    · exact .inl hname
  · -- a query in parentheses with all of them
    obtain ⟨q, hq, rfl⟩ := List.mem_map.1 hn
    rw [subqueries_markedIn] at hq
    obtain ⟨p, hp, rfl⟩ := List.mem_map.1 hq
    have hbody : p.body ∈ plain.nested := List.mem_append_right _ (List.mem_map_of_mem hp)
    exact ⟨p.body, _, rfl, fun n hn => hplain n (mem_all_of_nested hbody hn), hinside⟩

end MarkedBy

end Statement

namespace Scope

variable {ts : List Token} {scope : Scope} {outer path : List Scope} {horizon : Option Nat}

theorem IsMarked.markedBy (h : scope.IsMarked outer) :
    scope.statement.MarkedBy (· ∈ (declaredCtes scope.horizon outer).map Cte.name) := by
  obtain ⟨plain, names, hscope, hplain, hnames⟩ := h
  exact ⟨plain, names, hscope, hplain, fun name => (hnames name).1⟩

theorem declaredCtes_subset {k : Nat} (hle : ∀ k', horizon = some k' → k ≤ k') (path : List Scope) :
    declaredCtes (some k) path ⊆ declaredCtes horizon path := by
  cases path with
  | nil => exact List.Subset.refl _
  | cons scope outer =>
      have hown : scope.statement.ctes.take k ⊆
          horizon.elim scope.statement.ctes scope.statement.ctes.take := by
        cases horizon with
        | none => exact List.take_subset k _
        | some k' => exact (List.take_prefix_take_left (hle k' rfl)).subset
      exact List.append_subset.2
        ⟨List.subset_append_of_subset_left _ hown, List.subset_append_right _ _⟩

/-- The body of an expression that is declared around a place is marked with names that are declared
there too. -/
theorem markedBy_of_mem_declaredCtes (h : PathOf (Statement.parse ts) path) {c : Cte}
    (hc : c ∈ declaredCtes horizon path) :
    c.body.MarkedBy (· ∈ (declaredCtes horizon path).map Cte.name) := by
  induction path generalizing horizon with
  | nil => exact absurd hc List.not_mem_nil
  | cons scope outer ih =>
      rcases List.mem_append.1 hc with hown | hout
      · obtain ⟨i, hi⟩ := List.mem_iff_getElem?.1 hown
        obtain ⟨hget, hlt⟩ := Frame.getElem?_ctes (f := ⟨scope, none⟩) hi
        have hbody := (h.inside (mem_inner.2 (.inl ⟨i, c, hget, rfl⟩)) 0).isMarked.markedBy
        refine hbody.mono fun name hname => ?_
        refine List.map_subset _ (declaredCtes_subset (fun k hk => ?_) _) hname
        have := hlt k hk
        split <;> omega
      · cases outer with
        | nil => exact absurd hout List.not_mem_nil
        | cons next outer =>
            have hpath := h.of_suffix (List.suffix_cons scope _) (List.cons_ne_nil next outer)
            refine (ih hpath hout).mono fun name hname => ?_
            rw [declaredCtes, List.map_append]
            exact List.mem_append_right _ hname

end Scope

/-! ### What environments know -/

namespace Environment

/-- The name is that of an expression in the environment or one of the given names. -/
def Knows (e : Environment) (names : List String) (x : String) : Prop :=
  (∃ c ∈ e.ctes, Ident.same c.name x) ∨ ∃ name ∈ names, Ident.same name x

/-- Together with the names the environment has all that the statement, and the bodies in the
environment, are marked with, and it has no expression of one of the names. -/
structure Serves (e : Environment) (names : List String) (s : Statement) : Prop where
  own : ∀ c ∈ s.ctes, e.Knows names c.name
  marks : s.MarkedBy (e.Knows names)
  bodies : ∀ c ∈ e.ctes, c.body.MarkedBy (e.Knows names)
  hidden : ∀ c ∈ e.ctes, ∀ name ∈ names, ¬ Ident.same c.name name

variable {e : Environment} {names : List String} {s n : Statement} {x : String}

theorem Knows.without (h : e.Knows names x) (name : String) :
    (e.without name).Knows (name :: names) x := by
  rcases h with ⟨c, hc, hsame⟩ | ⟨name', hmem, hsame⟩
  · by_cases hname : Ident.same c.name name
    · refine .inr ⟨name, List.mem_cons_self, ?_⟩
      exact Ident.same_trans ((Ident.same_comm name c.name).trans hname) hsame
    · exact .inl ⟨c, List.mem_filter.2 ⟨hc, by simp [hname]⟩, hsame⟩
  · exact .inr ⟨name', List.mem_cons_of_mem _ hmem, hsame⟩

/-- A name that the statement declares is known from it, any other one as before. -/
theorem Knows.inside (h : e.Knows names x) (n : Statement) :
    (e.inside n).Knows (n.undeclared names) x := by
  by_cases hown : ∃ own ∈ n.ctes, Ident.same own.name x
  · obtain ⟨own, hmem, hsame⟩ := hown
    exact .inl ⟨own, List.mem_append_left _ hmem, hsame⟩
  · have hother : ∀ y, Ident.same y x → ∀ own ∈ n.ctes, ¬ Ident.same own.name y :=
      fun y hy own hmem h => hown ⟨own, hmem, Ident.same_trans h hy⟩
    rcases h with ⟨c, hc, hsame⟩ | ⟨name, hname, hsame⟩
    · have hkept := hother c.name hsame
      exact .inl ⟨c, List.mem_append_right _ (List.mem_filter.2 ⟨hc, by simpa using hkept⟩), hsame⟩
    · exact .inr ⟨name, Statement.mem_undeclared.2 ⟨hname, hother name hsame⟩, hsame⟩

theorem serves_inside (hmarks : n.MarkedBy (e.Knows names))
    (hbodies : ∀ c ∈ e.ctes, c.body.MarkedBy (e.Knows names))
    (hhidden : ∀ c ∈ e.ctes, ∀ name ∈ names, ¬ Ident.same c.name name) :
    (e.inside n).Serves (n.undeclared names) n := by
  have hown : ∀ c ∈ n.ctes, (e.inside n).Knows (n.undeclared names) c.name :=
    fun c hc => .inl ⟨c, List.mem_append_left _ hc, Ident.same_refl _⟩
  have hmarks' := hmarks.mono fun x hx => hx.inside n
  refine ⟨hown, hmarks', fun c hc => ?_, fun c hc name hname => ?_⟩
  · rcases List.mem_append.1 hc with hc | hc
    · exact hmarks'.nested hown (List.mem_append_left _ (List.mem_map_of_mem hc))
    · exact (hbodies c (List.mem_filter.1 hc).1).mono fun x hx => hx.inside n
  · obtain ⟨hname, hfree⟩ := Statement.mem_undeclared.1 hname
    rcases List.mem_append.1 hc with hc | hc
    · exact hfree c hc
    · exact hhidden c (List.mem_filter.1 hc).1 name hname

theorem Serves.query (h : e.Serves names s) {q : Subquery} (hq : q ∈ s.subqueries) :
    (e.inside q.body).Serves (q.body.undeclared names) q.body :=
  serves_inside (h.marks.nested h.own (List.mem_append_right _ (List.mem_map_of_mem hq))) h.bodies
    h.hidden

/-- Its name is not known any more in the body of an expression, so it is added to the names. -/
theorem Serves.body (h : e.Serves names s) {c : Cte} (hc : c ∈ e.ctes) :
    ((e.without c.name).inside c.body).Serves (c.body.undeclared (c.name :: names)) c.body := by
  have hmono : ∀ x, e.Knows names x → (e.without c.name).Knows (c.name :: names) x :=
    fun x hx => hx.without c.name
  refine serves_inside ((h.bodies c hc).mono hmono) (fun d hd => ?_) (fun d hd name hname => ?_)
  · exact (h.bodies d (List.mem_filter.1 hd).1).mono hmono
  · obtain ⟨hd, hother⟩ := List.mem_filter.1 hd
    rcases List.mem_cons.1 hname with rfl | hname
    · simpa using hother
    · exact h.hidden d hd name hname

/-- A marked reference is out of reach if and only if it has one of the names. -/
theorem Serves.findCte?_eq_none_iff (h : e.Serves names s) {t : TableRef} (ht : t ∈ s.tables)
    (hcte : t.isCte) : e.findCte? t.name = none ↔ ∃ name ∈ names, Ident.same name t.name := by
  constructor
  · intro hnone
    have hfree := List.find?_eq_none.1 hnone
    obtain ⟨x, hknown, hx⟩ := h.marks.exists_of_isCte h.own ht hcte
    rcases hknown with ⟨c, hc, hsame⟩ | ⟨name, hname, hsame⟩
    · exact absurd (Ident.same_trans hsame hx) (hfree c hc)
    · exact ⟨name, hname, Ident.same_trans hsame hx⟩
  · rintro ⟨name, hname, hsame⟩
    refine List.find?_eq_none.2 fun c hc hcx => h.hidden c hc name hname ?_
    exact Ident.same_trans hcx ((Ident.same_comm t.name name).trans hsame)

theorem serves_ofPath {ts : List Token} {scope : Scope} {outer : List Scope}
    (h : Scope.PathOf (Statement.parse ts) (scope :: outer)) (temps : List TempTable) :
    (ofPath (scope :: outer) temps).Serves [] scope.statement := by
  have hknown : ∀ x ∈ (Scope.declaredCtes none (scope :: outer)).map Cte.name,
      (ofPath (scope :: outer) temps).Knows [] x := by
    intro x hx
    obtain ⟨c, hc, rfl⟩ := List.mem_map.1 hx
    exact .inl (Scope.exists_mem_visibleCtes.2 ⟨c, hc, Ident.same_refl _⟩)
  refine ⟨fun c hc => ?_, h.isMarked.markedBy.mono fun x hx => ?_, fun c hc => ?_, ?_⟩
  · exact hknown _ (List.mem_map_of_mem (List.mem_append_left _ hc))
  · refine hknown x ?_
    rw [Scope.declaredCtes, List.map_append]
    exact List.mem_append_right _ hx
  · exact (Scope.markedBy_of_mem_declaredCtes h (Scope.distinctCtes_subset _ hc)).mono hknown
  · simp

end Environment

/-! ### Calls -/

namespace Resolver

theorem mem_tables_of_mem_itemTables {s : Statement} {c : ColumnRef} {t : TableRef}
    (h : t ∈ itemTables s c) : t ∈ s.tables := by
  unfold itemTables at h
  split at h
  · exact mem_tables_of_mem_starTables h
  · split at h
    · exact absurd h List.not_mem_nil
    · exact mem_tables_of_columnTable? (Option.mem_toList.1 h)

namespace Call

/-- The call is made on the way from the first one, while the bodies of the expressions with the given
names are being expanded. A statement on the way that declares such a name itself brings it back. -/
inductive Expanding (start : Call) : Call → List String → Prop
  | start : Expanding start start []
  | derived {levels : Nat} {owner : Statement} {e : Environment} {t : TableRef} {q : Subquery}
      {names : List String} (h : Expanding start (columns (levels + 1) owner e t) names)
      (ht : t.isDerived) (hq : owner.queryOf? t = some q) :
      Expanding start (output levels q.body (e.inside q.body)) (q.body.undeclared names)
  | cte {levels : Nat} {owner : Statement} {e : Environment} {t : TableRef} {c : Cte}
      {names : List String} (h : Expanding start (columns (levels + 1) owner e t) names)
      (ht : t.isDerived = false) (hmark : t.isCte) (hc : e.findCte? t.name = some c) :
      Expanding start (output levels c.body ((e.without c.name).inside c.body))
        (c.body.undeclared (c.name :: names))
  | item {levels : Nat} {s : Statement} {e : Environment} {c : ColumnRef} {t : TableRef}
      {names : List String} (h : Expanding start (output (levels + 1) s e) names)
      (hc : c ∈ s.columns) (ht : t ∈ itemTables s c) :
      Expanding start (columns (levels + 1) s e t) names

/-- The environment of the call serves its statement, which names the table. -/
def Serves (names : List String) : Call → Prop
  | columns _ owner e t => e.Serves names owner ∧ t ∈ owner.tables
  | output _ s e => e.Serves names s

variable {start call : Call} {names : List String}

theorem Expanding.reached (h : start.Expanding call names) :
    Relation.ReflTransGen Makes start call := by
  induction h with
  | start => exact .refl
  | derived _ ht hq ih => exact ih.tail (.derived ht hq)
  | cte _ ht hmark hc ih => exact ih.tail (.cte ht hmark hc)
  | item _ hc ht ih => exact ih.tail (.item hc ht)

theorem exists_expanding (h : Relation.ReflTransGen Makes start call) :
    ∃ names, start.Expanding call names := by
  induction h with
  | refl => exact ⟨[], .start⟩
  | tail _ hmade ih =>
      obtain ⟨names, hway⟩ := ih
      cases hmade with
      | derived ht hq => exact ⟨_, hway.derived ht hq⟩
      | cte ht hmark hc => exact ⟨_, hway.cte ht hmark hc⟩
      | item hc ht => exact ⟨_, hway.item hc ht⟩

theorem Expanding.serves (h : start.Expanding call names) (hstart : start.Serves []) :
    call.Serves names := by
  induction h with
  | start => exact hstart
  | derived _ ht hq ih =>
      obtain ⟨i, -, hi⟩ := Option.bind_eq_some_iff.1 hq
      exact ih.1.query (List.mem_of_getElem? hi)
  | cte _ ht hmark hc ih => exact ih.1.body (List.mem_of_find?_eq_some hc)
  | item _ hc ht ih => exact ⟨ih, mem_tables_of_mem_itemTables ht⟩

/-- A call on the way is for the columns of a table that nothing but the metadata has: it is neither
derived nor temporary nor a function with columns of its own, and if it is marked, then with a name that
is being expanded. -/
def Needs (start : Call) (connection : Connection) (l : Lookup) : Prop :=
  ∃ levels e names, start.Expanding (.columns (levels + 1) l.owner e l.table) names ∧
    l = .ofTable connection l.owner l.table ∧ l.table.isDerived = false ∧ l.table.isTemp = false ∧
      (l.table.isFunction → l.table.columns = []) ∧
        (l.table.isCte → ∃ name ∈ names, Ident.same name l.table.name)

/-- What is asked for on the way is what the metadata is needed for. -/
theorem needs_iff (hstart : start.Serves []) {connection : Connection} {l : Lookup} :
    start.Needs connection l ↔
      ∃ made, Relation.ReflTransGen Makes start made ∧ made.Asks connection l := by
  constructor
  · rintro ⟨levels, e, names, hway, hl, hderived, htemp, hfunction, hcte⟩
    obtain ⟨hserves, ht⟩ := hway.serves hstart
    have hmisses : e.Misses l.table :=
      ⟨hderived, fun hmark => (hserves.findCte?_eq_none_iff ht hmark).2 (hcte hmark), htemp,
        hfunction⟩
    refine ⟨_, hway.reached, ?_⟩
    rw [hl]
    exact .columns hmisses
  · rintro ⟨made, hway, hasks⟩
    obtain ⟨names, hway⟩ := exists_expanding hway
    cases hasks with
    | @columns levels owner e t h =>
        obtain ⟨hserves, ht⟩ := hway.serves hstart
        exact ⟨levels, e, names, hway, rfl, h.derived, h.temp, h.function,
          fun hmark => (hserves.findCte?_eq_none_iff ht hmark).1 (h.cte hmark)⟩

end Call

end Resolver

/-! ### Without shadowed names -/

namespace Frame.Way

variable {s : Statement} {f : Frame} {outer frames : List Frame} {name : String} {d : Declaration}

/-- Only a recursive expression is visible while it is being expanded, and only inside its body. -/
theorem isRecursive_inside (h : Way s (f :: outer))
    (hd : declaration? name f.scope.horizon f.expands outer = some d) (hexpanding : d.isExpanding) :
    d.cte.isRecursive ∧ f.scope.statement ∈ d.cte.body.all := by
  induction outer generalizing f with
  | nil => simp [declaration?] at hd
  | cons g outer ih =>
      have houter := h.of_suffix (List.suffix_cons f (g :: outer))
      rw [declaration?] at hd
      split at hd
      · next c i hfind =>
        obtain rfl := Option.some.inj hd
        have hget := List.mem_zipIdx_iff_getElem?.1 (List.mem_of_find?_eq_some hfind)
        obtain ⟨hc, hlt⟩ := getElem?_ctes hget
        have hexpands := of_decide_eq_true hexpanding
        cases h with
        | inside h hinner id => contradiction
        | body h hc' =>
            obtain rfl := Option.some.inj hexpands
            obtain rfl := Option.some.inj (hc.symm.trans hc')
            refine ⟨?_, Statement.mem_all_self _⟩
            have hseen := hlt _ rfl
            dsimp only at hseen ⊢
            split at hseen
            · assumption
            · exact absurd hseen (Nat.lt_irrefl _)
      · obtain ⟨hrecursive, hmem⟩ := ih houter hd
        refine ⟨hrecursive, Statement.mem_all_trans hmem ?_⟩
        obtain ⟨n, hn, hin⟩ := h.pathOf.exists_nested g.scope List.mem_cons_self
        exact Statement.mem_all_of_nested hn hin

theorem isRecursive_of_isExpanding (h : Way s frames)
    (hd : declaration? name none none frames = some d) (hexpanding : d.isExpanding) :
    d.cte.isRecursive ∧ owner frames ∈ d.cte.body.all := by
  cases frames with
  | nil => simp [declaration?] at hd
  | cons f outer =>
      rw [declaration?] at hd
      split at hd
      · obtain rfl := Option.some.inj hd
        simp at hexpanding
      · exact h.isRecursive_inside hd hexpanding

end Frame.Way

namespace Resolver

namespace Call

/-- The environment of the call has come along a way to its statement, which names the table. -/
def Follows (ts : List Token) (temps : List TempTable) : Call → Prop
  | columns _ owner e t =>
    ∃ frames, e.Follows (.parse ts) temps frames ∧ Frame.owner frames = owner ∧ t ∈ owner.tables
  | output _ s e => ∃ frames, e.Follows (.parse ts) temps frames ∧ Frame.owner frames = s

variable {ts : List Token} {temps : List TempTable} {start call made : Call}

theorem Follows.makes (hs : (Statement.parse ts).Unshadowed) (h : call.Follows ts temps)
    (hmade : call.Makes made) : made.Follows ts temps := by
  cases hmade with
  | @derived levels owner e t q hderived hq =>
      obtain ⟨frames, hfollows, rfl, ht⟩ := h
      obtain ⟨i, -, hi⟩ := Option.bind_eq_some_iff.1 hq
      cases frames with
      | nil => exact absurd ht List.not_mem_nil
      | cons f outer => exact ⟨_, hfollows.inQuery (List.mem_of_getElem? hi), rfl⟩
  | @cte levels owner e t c hderived hmark hc =>
      obtain ⟨frames, hfollows, rfl, ht⟩ := h
      obtain ⟨d, hd⟩ := Frame.exists_declaration?_of_isCte hfollows.way ht hmark
      obtain rfl : d.cte = c := by
        rw [hfollows.ctes _ d hd] at hc
        split at hc
        · contradiction
        · exact Option.some.inj hc
      exact ⟨_, hfollows.inBody hs hd, rfl⟩
  | item hc ht =>
      obtain ⟨frames, hfollows, howner⟩ := h
      exact ⟨frames, hfollows, howner, mem_tables_of_mem_itemTables ht⟩

theorem Follows.reached (hs : (Statement.parse ts).Unshadowed) (h : start.Follows ts temps)
    (hway : Relation.ReflTransGen Makes start call) : call.Follows ts temps := by
  induction hway with
  | refl => exact h
  | tail _ hmade ih => exact ih.makes hs hmade

/-- A marked table that is asked for is a reference to a recursive expression from inside its body. -/
theorem Follows.isRecursive_of_asks {connection : Connection} {l : Lookup}
    (h : call.Follows ts temps) (hasks : call.Asks connection l) (hmark : l.table.isCte) :
    ∃ n ∈ (Statement.parse ts).all, ∃ c ∈ n.ctes, c.isRecursive ∧
      Ident.same c.name l.table.name ∧ l.owner ∈ c.body.all := by
  cases hasks with
  | @columns levels owner e t hmisses =>
      obtain ⟨frames, hfollows, rfl, ht⟩ := h
      obtain ⟨d, hd⟩ := Frame.exists_declaration?_of_isCte hfollows.way ht hmark
      have hnone := hmisses.cte hmark
      rw [hfollows.ctes _ d hd] at hnone
      have hexpanding : d.isExpanding := by
        by_contra hplain
        rw [if_neg hplain] at hnone
        contradiction
      obtain ⟨hrecursive, howner⟩ := hfollows.way.isRecursive_of_isExpanding hd hexpanding
      obtain ⟨hsuffix, hget⟩ := Frame.suffix_of_declaration? hd
      have hwithin := (hfollows.way.of_suffix hsuffix).pathOf.pathWithin _ List.mem_cons_self
      exact ⟨_, hwithin, d.cte, List.mem_of_getElem? hget, hrecursive,
        (Frame.of_declaration? hd).2, howner⟩

end Call

/-! ### What is looked up for the tables that a scope sees -/

/-- The lookups in the resolution of a visible table. -/
def visibleLookups (r : Resolver) (temps : List TempTable) (v : ScopedTable) : List Lookup :=
  ((Call.ofVisible r.maxDepth temps v).traced r).lookups

/-- For the tables that a scope of a parsed statement sees, no derived and no temporary table is looked
up, and a marked reference only if its name is being expanded. Where the columns of the table are found,
all lookups are made for which this is so. If no name is shadowed, a marked reference that is looked up
stands in the body of a recursive expression of its name. -/
theorem mem_visibleLookups (r : Resolver) {ts : List Token} {maxDepth id : Nat} {path : List Scope}
    (hpath : (ScopeTree.build maxDepth (Statement.parse ts)).path id = .ok path)
    (temps : List TempTable) {v : ScopedTable} (hv : v ∈ Scope.visibleTables path) :
    (∀ l ∈ r.visibleLookups temps v,
      (Call.ofVisible r.maxDepth temps v).Needs r.connection l) ∧
    (r.source.isSome → (∃ found, (Call.ofVisible r.maxDepth temps v).result r = .ok found) →
      ∀ l, (Call.ofVisible r.maxDepth temps v).Needs r.connection l →
        l ∈ r.visibleLookups temps v) ∧
    ((Statement.parse ts).Unshadowed → ∀ l ∈ r.visibleLookups temps v, l.table.isCte →
      ∃ n ∈ (Statement.parse ts).all, ∃ c ∈ n.ctes, c.isRecursive ∧
        Ident.same c.name l.table.name ∧ l.owner ∈ c.body.all) := by
  have hpathOf := (ScopeTree.pathOf_of_mem_paths (ScopeTree.mem_paths_of_path hpath)).of_suffix
    (Scope.suffix_of_mem_visibleTables hv) (List.cons_ne_nil _ _)
  have ht := Scope.mem_tables_of_mem_visibleTables hv
  have hserves : (Call.ofVisible r.maxDepth temps v).Serves [] :=
    ⟨Environment.serves_ofPath hpathOf temps, ht⟩
  have hfollows : (Call.ofVisible r.maxDepth temps v).Follows ts temps :=
    ⟨_, Environment.follows_ofPath hpathOf temps, rfl, ht⟩
  refine ⟨fun l hl => ?_, fun hsource hfound l hneeds => ?_, fun hs l hl hmark => ?_⟩
  · exact (Call.needs_iff hserves).2 (Call.exists_of_mem_lookups r _ hl)
  · obtain ⟨made, hway, hasks⟩ := (Call.needs_iff hserves).1 hneeds
    exact Call.mem_lookups_of_reached hsource hfound hway hasks
  · obtain ⟨made, hway, hasks⟩ := Call.exists_of_mem_lookups r _ hl
    exact (hfollows.reached hs hway).isRecursive_of_asks hasks hmark

/-- The reference in the recursive member of an expression. -/
theorem mem_visibleLookups_recursive :
    let s := Statement.parse (tokenize
      "WITH n AS (SELECT * FROM t UNION ALL SELECT * FROM n) SELECT * FROM n")
    let r : Resolver := { source := some (Catalog.source {}), maxDepth := ScopeTree.defaultDepth }
    ∃ path, (ScopeTree.build ScopeTree.defaultDepth s).path 0 = .ok path ∧
      ∃ v ∈ Scope.visibleTables path, ∃ l ∈ r.visibleLookups [] v, l.table.isCte ∧
        (Call.ofVisible r.maxDepth [] v).Needs r.connection l ∧
        (∀ l, (Call.ofVisible r.maxDepth [] v).Needs r.connection l → l ∈ r.visibleLookups [] v) ∧
        ∃ n ∈ s.all, ∃ c ∈ n.ctes, c.isRecursive ∧ Ident.same c.name l.table.name ∧
          l.owner ∈ c.body.all := by
  intro s r
  have hnested : ∀ n ∈ s.all, ∀ d ∈ n.ctes, ∀ m ∈ n.nested.flatMap Statement.all, ∀ c ∈ m.ctes,
      ¬ Ident.same c.name d.name := by
    decide +kernel
  have hfound : (ScopeTree.build ScopeTree.defaultDepth s).paths[0]?.any fun path =>
      (Scope.visibleTables path).any fun v =>
        ((Call.ofVisible r.maxDepth [] v).result r).isOk &&
          (r.visibleLookups [] v).any fun l => l.table.isCte := by
    decide +kernel
  obtain ⟨path, hpath, htables⟩ := (Option.any_eq_true _ _).1 hfound
  obtain ⟨v, hv, hfacts⟩ := List.any_eq_true.1 htables
  obtain ⟨hok, hlookups⟩ := Bool.and_eq_true_iff.1 hfacts
  obtain ⟨l, hl, hmark⟩ := List.any_eq_true.1 hlookups
  have hid : (ScopeTree.build ScopeTree.defaultDepth s).path 0 = .ok path := by
    rw [ScopeTree.path, hpath]
  have hanswer : ∃ found, (Call.ofVisible r.maxDepth [] v).result r = .ok found := by
    cases hresult : (Call.ofVisible r.maxDepth [] v).result r with
    | error e => rw [hresult] at hok; contradiction
    | ok found => exact ⟨found, rfl⟩
  obtain ⟨hneeds, hall, hself⟩ := mem_visibleLookups r hid [] hv
  exact ⟨path, hid, v, hv, l, hl, hmark, hneeds l hl, hall rfl hanswer,
    hself (Statement.unshadowed_of_nested hnested) l hl hmark⟩

/-- An expression that refers to itself gets the columns of a table with its name. -/
theorem exists_marked_mem_visibleLookups :
    let tree := ScopeTree.build ScopeTree.defaultDepth (Statement.parse (tokenize
      "WITH Customers AS (SELECT * FROM Departments UNION ALL SELECT * FROM Customers) SELECT * FROM Customers"))
    let r : Resolver := { source := some Catalog.sample.source, maxDepth := ScopeTree.defaultDepth }
    ∃ path, tree.path 0 = .ok path ∧ ∃ v ∈ Scope.visibleTables path,
      (∃ l ∈ r.visibleLookups [] v, l.table.isCte) ∧
        (r.resolveVisible [] v).columns.map ColumnRef.name =
          ["DepartmentID", "DepartmentName", "Budget", "CustomerID", "CustomerName", "Email",
            "CreatedAt"] := by
  intro tree r
  have hfound : tree.paths[0]?.any fun path => (Scope.visibleTables path).any fun v =>
      ((r.visibleLookups [] v).any fun l => l.table.isCte) &&
        (r.resolveVisible [] v).columns.map ColumnRef.name =
          ["DepartmentID", "DepartmentName", "Budget", "CustomerID", "CustomerName", "Email",
            "CreatedAt"] := by
    decide +kernel
  obtain ⟨path, hpath, htables⟩ := (Option.any_eq_true _ _).1 hfound
  obtain ⟨v, hv, hfacts⟩ := List.any_eq_true.1 htables
  obtain ⟨hlookups, hcolumns⟩ := Bool.and_eq_true_iff.1 hfacts
  exact ⟨path, by rw [ScopeTree.path, hpath], v, hv, List.any_eq_true.1 hlookups,
    of_decide_eq_true hcolumns⟩

end Resolver

end Tsql
