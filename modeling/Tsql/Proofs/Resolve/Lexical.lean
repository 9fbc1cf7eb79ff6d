import Tsql.Proofs.Resolve.SetOperation
import Tsql.Proofs.Scope.Frames

/-!
Expansion of common table expressions where they are declared.

The resolver looks references up in an environment that it has gathered on its way from body to body.
`Resolver.lexicalOutputAt` has no environment: it keeps to the place in the text, and goes from a
reference to the body that is declared for its name there. In a statement without shadowed names the
environment finds at each step what the place sees (`Environment.Follows`), so both give the same
columns (`resolveScope_lexical`). Where a nested `WITH` declares a name again, an outer body is expanded
with the inner expression (`resolveScope_redeclared`).
-/

namespace Tsql

/-! ### The query behind a table -/

namespace Frame

/-- The statement at the place. -/
def owner : List Frame → Statement
  | [] => {}
  | f :: _ => f.scope.statement

/-- The expression that a table named at the place is expanded to. One whose body is being expanded is
not expanded again. -/
def meant? (frames : List Frame) (t : TableRef) : Option Declaration :=
  if t.isCte then (declaration? t.name none none frames).filter fun d => !d.isExpanding else none

/-- The place of the query of a derived table that is named at the place. -/
def inQuery (frames : List Frame) (q : Subquery) : List Frame :=
  match frames with
  | [] => []
  | f :: outer => ⟨f.scope.ofSubquery q, none⟩ :: f :: outer

end Frame

/-- The place of the body when it is expanded. -/
def Declaration.body (d : Declaration) : List Frame :=
  ⟨d.frame.scope.ofCte d.index d.cte, some d.index⟩ :: d.frame :: d.outer

namespace Resolver

/-- The columns of a table that is named at the place, where `output` gives those of the query at a
place. A table without a query is the same whatever expressions there are. -/
def lexicalColumnsWith (r : Resolver) (temps : List TempTable)
    (output : List Frame → Except ColumnError (List ColumnRef)) (frames : List Frame)
    (t : TableRef) : Except ColumnError (List ColumnRef) :=
  if t.isDerived then
    match (Frame.owner frames).queryOf? t with
    | none => .ok []
    | some q =>
      (output (Frame.inQuery frames q)).map fun columns =>
        labelled t.displayName (renamed (t.columns.map ColumnRef.name) columns)
  else
    match Frame.meant? frames t with
    | some d =>
      (output d.body).map fun columns =>
        labelled t.displayName (renamed (d.cte.columns.getD []) columns)
    | none => r.columnsWith (fun _ _ => .ok []) (Frame.owner frames) ⟨[], temps⟩ t

/-- The output columns of the query at a place with the given number of levels left. -/
def lexicalOutputAt (r : Resolver) (temps : List TempTable) :
    Nat → List Frame → Except ColumnError (List ColumnRef)
  | 0, _ => .error (.depthLimit r.maxDepth)
  | levels + 1, frames =>
    outputWith (r.lexicalColumnsWith temps (r.lexicalOutputAt temps levels) frames)
      (Frame.owner frames)

/-- A visible table with its columns. -/
def lexicalVisible (r : Resolver) (temps : List TempTable) (v : ScopedTable) : TableRef :=
  match r.lexicalColumnsWith temps (r.lexicalOutputAt temps r.maxDepth)
    (v.path.map (⟨·, none⟩)) v.table with
  | .ok columns => { v.table with columns := columns }
  | .error _ => v.table

end Resolver

/-! ### Environments along the way -/

namespace Environment

variable {e : Environment} {name x : String}

theorem findCte?_without (e : Environment) (name x : String) :
    (e.without name).findCte? x = if Ident.same name x then none else e.findCte? x := by
  split
  · next hsame =>
    refine List.find?_eq_none.2 fun c hc hcx => ?_
    have hcname := Ident.same_trans hcx ((Ident.same_comm x name).trans hsame)
    simp [without, hcname] at hc
  · next hother =>
    refine Scope.find?_filter_of_imp (fun c hcx => ?_) e.ctes
    have hcname : ¬ Ident.same c.name name := fun h =>
      hother (Ident.same_trans ((Ident.same_comm name c.name).trans h) hcx)
    simpa using hcname

theorem findCte?_inside (e : Environment) (s : Statement) (x : String) :
    (e.inside s).findCte? x =
      (s.ctes.find? fun c => Ident.same c.name x).or (e.findCte? x) := by
  rw [findCte?, inside, List.find?_append]
  cases hown : s.ctes.find? fun c => Ident.same c.name x with
  | some c => rfl
  | none =>
      refine Scope.find?_filter_of_imp (fun c hcx => ?_) e.ctes
      rw [Bool.not_eq_true', List.any_eq_false]
      exact fun own hmem h => List.find?_eq_none.1 hown own hmem (Ident.same_trans h hcx)

/-- The environment has come along the way: it finds the expressions that names mean at the place, but
none whose body is being expanded. -/
structure Follows (e : Environment) (s : Statement) (temps : List TempTable)
    (frames : List Frame) : Prop where
  way : Frame.Way s frames
  temps : e.temps = temps
  ctes : ∀ name d, Frame.declaration? name none none frames = some d →
    e.findCte? name = if d.isExpanding then none else some d.cte

variable {s : Statement} {temps : List TempTable} {f : Frame} {outer frames : List Frame}

/-- Inside a scope an environment finds what the scope declares, and else what it has found around
it. -/
theorem findCte?_inside_of_declaration?
    (h : ∀ name d, Frame.declaration? name f.scope.horizon f.expands outer = some d →
      e.findCte? name = if d.isExpanding then none else some d.cte) :
    ∀ name d, Frame.declaration? name none none (f :: outer) = some d →
      (e.inside f.scope.statement).findCte? name =
        if d.isExpanding then none else some d.cte := by
  intro name d hd
  have hown := Frame.find?_zipIdx f.scope.statement.ctes fun c => Ident.same c.name name
  rw [findCte?_inside, ← hown]
  rw [Frame.declaration?, Frame.ctes, Option.elim_none] at hd
  split at hd
  · next c i hfind =>
    obtain rfl := Option.some.inj hd
    rw [hfind]
    rfl
  · next hfind =>
    rw [hfind]
    exact h name d hd

theorem isExpanding_ofPath {path : List Scope} {horizon : Option Nat} {d : Declaration}
    (h : Frame.declaration? name horizon none (path.map (⟨·, none⟩)) = some d) :
    d.isExpanding = false := by
  induction path generalizing horizon with
  | nil => simp [Frame.declaration?] at h
  | cons scope outer ih =>
      rw [List.map_cons, Frame.declaration?] at h
      split at h
      · obtain rfl := Option.some.inj h
        rfl
      · exact ih h

theorem follows_ofPath {path : List Scope} (h : Scope.PathOf s path) (temps : List TempTable) :
    (ofPath path temps).Follows s temps (path.map (⟨·, none⟩)) where
  way := .ofPath h
  temps := rfl
  ctes name d hd := by
    have hscopes : Frame.scopes (path.map (⟨·, none⟩)) = path := by
      simp [Frame.scopes, Function.comp_def]
    have hfind := Frame.find?_declaredCtes name none none (path.map (⟨·, none⟩))
    rw [hscopes, ← Scope.find?_visibleCtes, hd, Option.map_some] at hfind
    rw [isExpanding_ofPath hd]
    exact hfind

theorem Follows.inQuery (h : e.Follows s temps (f :: outer)) {q : Subquery}
    (hq : q ∈ f.scope.statement.subqueries) :
    (e.inside q.body).Follows s temps (Frame.inQuery (f :: outer) q) where
  way := h.way.inside (Scope.mem_inner.2 (.inr ⟨q, hq, rfl⟩)) 0
  temps := h.temps
  ctes := findCte?_inside_of_declaration? h.ctes

theorem Follows.inBody (h : e.Follows s temps frames) (hs : s.Unshadowed) {d : Declaration}
    (hd : Frame.declaration? name none none frames = some d) :
    ((e.without d.cte.name).inside d.cte.body).Follows s temps d.body where
  way := by
    obtain ⟨hsuffix, hget⟩ := Frame.suffix_of_declaration? hd
    exact (h.way.of_suffix hsuffix).body hget
  temps := h.temps
  ctes := by
    refine findCte?_inside_of_declaration? fun x d' hd' => ?_
    have hhorizon : (if d.cte.isRecursive then d.index + 1 else d.index) ≤ d.index + 1 := by
      split <;> omega
    obtain ⟨hself, hothers⟩ := Frame.declaration?_behind hs h.way hd (by simp) hhorizon hd'
    rw [findCte?_without]
    split
    · next hsame => rw [hself hsame]; rfl
    · next hother => exact h.ctes x d' (hothers hother)

end Environment

/-! ### Columns -/

namespace Resolver

variable {columns columns' : TableRef → Except ColumnError (List ColumnRef)} {s : Statement}

theorem expand_congr (h : ∀ t ∈ s.tables, columns t = columns' t) (c : ColumnRef) :
    expand columns s c = expand columns' s c := by
  unfold expand
  split
  · rw [mapM_congr fun t ht => h t (mem_tables_of_mem_starTables ht)]
  · split
    · rfl
    · cases ht : columnTable? s c.source with
      | none => rfl
      | some t =>
          dsimp only
          rw [h t (mem_tables_of_columnTable? ht)]

/-- The output of a query depends on the columns of its own tables only. -/
theorem outputWith_congr (h : ∀ t ∈ s.tables, columns t = columns' t) :
    outputWith columns s = outputWith columns' s := by
  unfold outputWith
  rw [mapM_congr fun c _ => expand_congr h c]

end Resolver

namespace Frame

variable {ts : List Token} {frames : List Frame} {t : TableRef} {d : Declaration}

/-- The name of a marked reference has a declaration. -/
theorem exists_declaration?_of_isCte (h : Way (.parse ts) frames) (ht : t ∈ (owner frames).tables)
    (hcte : t.isCte) : ∃ d, declaration? t.name none none frames = some d := by
  cases frames with
  | nil => exact absurd ht List.not_mem_nil
  | cons f outer =>
      have hvisible := ((h.pathOf.isMarked.isCte_iff t ht).1 hcte).2
      exact declaration?_isSome none (Scope.exists_mem_visibleCtes.1 hvisible)

theorem of_meant? (h : meant? frames t = some d) :
    t.isCte ∧ declaration? t.name none none frames = some d ∧ d.isExpanding = false := by
  unfold meant? at h
  split at h
  · next hcte =>
    obtain ⟨hd, hexpanding⟩ := Option.filter_eq_some_iff.1 h
    exact ⟨hcte, hd, by simpa using hexpanding⟩
  · contradiction

end Frame

/-- For the tables named at the place the environment finds the expressions that they mean. -/
theorem Environment.Follows.findCte? {ts : List Token} {temps : List TempTable} {e : Environment}
    {frames : List Frame} (h : e.Follows (.parse ts) temps frames) {t : TableRef}
    (ht : t ∈ (Frame.owner frames).tables) :
    (if t.isCte then e.findCte? t.name else none) = (Frame.meant? frames t).map Declaration.cte := by
  unfold Frame.meant?
  split
  · next hcte =>
    obtain ⟨d, hd⟩ := Frame.exists_declaration?_of_isCte h.way ht hcte
    rw [h.ctes _ d hd, hd]
    cases hexpanding : d.isExpanding <;> simp [Option.filter, hexpanding]
  · rfl

namespace Resolver

variable (r : Resolver) {ts : List Token} {temps : List TempTable} {e : Environment}
  {frames : List Frame}

/-- From a table in an environment that has come along the way, resolution goes on to the place where
the query behind the table stands. -/
theorem columnsWith_eq_lexical (hs : (Statement.parse ts).Unshadowed)
    (h : e.Follows (.parse ts) temps frames)
    {output : Statement → Environment → Except ColumnError (List ColumnRef)}
    {output' : List Frame → Except ColumnError (List ColumnRef)}
    (houtput : ∀ e' frames', e'.Follows (.parse ts) temps frames' →
      output (Frame.owner frames') e' = output' frames')
    {t : TableRef} (ht : t ∈ (Frame.owner frames).tables) :
    r.columnsWith output (Frame.owner frames) e t = r.lexicalColumnsWith temps output' frames t := by
  unfold lexicalColumnsWith
  split
  · next hderived =>
    rw [columnsWith, if_pos hderived]
    unfold Statement.queryOf?
    cases hq : t.subqueryIndex.bind fun i => (Frame.owner frames).subqueries[i]? with
    | none => rfl
    | some q =>
        obtain ⟨i, -, hi⟩ := Option.bind_eq_some_iff.1 hq
        cases frames with
        | nil => exact absurd ht List.not_mem_nil
        | cons f outer =>
            have hquery := houtput _ _ (h.inQuery (List.mem_of_getElem? hi))
            dsimp only
            rw [← hquery]
            rfl
  · next hderived =>
    rw [columnsWith, if_neg hderived, h.findCte? ht]
    cases hmeant : Frame.meant? frames t with
    | none => simp [columnsWith, hderived, Environment.findCte?, Environment.findTemp?, h.temps]
    | some d =>
        obtain ⟨-, hd, -⟩ := Frame.of_meant? hmeant
        have hbody := houtput _ _ (h.inBody hs hd)
        simp only [Option.map_some]
        rw [← hbody]
        rfl

theorem outputAt_eq_lexical (hs : (Statement.parse ts).Unshadowed) (levels : Nat)
    (h : e.Follows (.parse ts) temps frames) :
    r.outputAt levels (Frame.owner frames) e = r.lexicalOutputAt temps levels frames := by
  induction levels generalizing e frames with
  | zero => rfl
  | succ levels ih =>
      rw [outputAt, lexicalOutputAt]
      exact outputWith_congr fun t ht => r.columnsWith_eq_lexical hs h (fun _ _ h' => ih h') ht

theorem resolveVisible_eq_lexical (hs : (Statement.parse ts).Unshadowed) {v : ScopedTable}
    (hpath : Scope.PathOf (.parse ts) v.path) (hv : v.table ∈ v.scope.statement.tables)
    (temps : List TempTable) : r.resolveVisible temps v = r.lexicalVisible temps v := by
  have hcolumns : r.columns v.scope.statement (.ofPath v.path temps) v.table =
      r.lexicalColumnsWith temps (r.lexicalOutputAt temps r.maxDepth) (v.path.map (⟨·, none⟩))
        v.table :=
    r.columnsWith_eq_lexical hs (Environment.follows_ofPath hpath temps)
      (fun _ _ h => r.outputAt_eq_lexical hs r.maxDepth h) hv
  unfold resolveVisible lexicalVisible resolve
  rw [ScopedTable.path] at hcolumns
  rw [hcolumns, ← ScopedTable.path]
  cases r.lexicalColumnsWith temps _ _ _ <;> rfl

/-- In a parsed statement without shadowed names, the tables that a scope sees have the columns that
follow from expanding each reference to the body that is declared for it where it stands. -/
theorem resolveScope_lexical (hs : (Statement.parse ts).Unshadowed) {maxDepth id : Nat}
    {path : List Scope}
    (hpath : (ScopeTree.build maxDepth (Statement.parse ts)).path id = .ok path)
    (temps : List TempTable) :
    r.resolveScope path temps = (Scope.visibleTables path).map (r.lexicalVisible temps) ∧
      ∀ frames, Frame.Way (.parse ts) frames → ∀ t ∈ (Frame.owner frames).tables, t.isCte →
        ∃ c, Scope.resolveCte t.name (Frame.scopes frames) = .ok (some c) ∧
          ((Frame.meant? frames t).map Declaration.cte = some c ∨
            Frame.meant? frames t = none ∧
              ∃ f ∈ frames, f.expands.isSome ∧ f.scope.statement = c.body) := by
  have hpathOf := ScopeTree.pathOf_of_mem_paths (ScopeTree.mem_paths_of_path hpath)
  refine ⟨List.map_congr_left fun v hv => ?_, fun frames hway t ht hcte => ?_⟩
  · have hsuffix := Scope.suffix_of_mem_visibleTables hv
    exact r.resolveVisible_eq_lexical hs (hpathOf.of_suffix hsuffix (List.cons_ne_nil _ _))
      (Scope.mem_tables_of_mem_visibleTables hv) temps
  · obtain ⟨d, hd⟩ := Frame.exists_declaration?_of_isCte hway ht hcte
    refine ⟨d.cte, Frame.resolveCte_of_declaration? hd, ?_⟩
    cases hexpanding : d.isExpanding with
    | false =>
        have hmeant : Frame.meant? frames t = some d := by
          simp [Frame.meant?, hcte, hd, hexpanding, Option.filter]
        exact .inl (by rw [hmeant, Option.map_some])
    | true =>
        have hmeant : Frame.meant? frames t = none := by
          simp [Frame.meant?, hcte, hd, hexpanding, Option.filter]
        exact .inr ⟨hmeant, hway.exists_body_of_isExpanding hd hexpanding⟩

/-- Inside a query with an expression of its own an outer one is expanded with the outer ones. -/
theorem resolveScope_lexical_nested :
    let s := Statement.parse (tokenize
      "WITH a AS (SELECT 1 x), b AS (SELECT * FROM a) SELECT (WITH c AS (SELECT 2 y) SELECT * FROM b)")
    let r : Resolver := { maxDepth := ScopeTree.defaultDepth }
    s.Unshadowed ∧ ∃ path, (ScopeTree.build ScopeTree.defaultDepth s).path 3 = .ok path ∧
      r.resolveScope path [] = (Scope.visibleTables path).map (r.lexicalVisible []) ∧
      (r.resolveScope path []).map (fun t => t.columns.map ColumnRef.name) = [["x"]] := by
  intro s r
  have hnested : ∀ n ∈ s.all, ∀ d ∈ n.ctes, ∀ m ∈ n.nested.flatMap Statement.all, ∀ c ∈ m.ctes,
      ¬ Ident.same c.name d.name := by
    decide +kernel
  have hfound : (ScopeTree.build ScopeTree.defaultDepth s).paths[3]?.any fun path =>
      (r.resolveScope path []).map (fun t => t.columns.map ColumnRef.name) = [["x"]] := by
    decide +kernel
  obtain ⟨path, hpath, hcolumns⟩ := (Option.any_eq_true _ _).1 hfound
  have hid : (ScopeTree.build ScopeTree.defaultDepth s).path 3 = .ok path := by
    rw [ScopeTree.path, hpath]
  have hs := Statement.unshadowed_of_nested hnested
  exact ⟨hs, path, hid, (resolveScope_lexical r hs hid []).1, of_decide_eq_true hcolumns⟩

/-- Where a query declares an expression of a name that the body of an outer one refers to, the outer
one is expanded with it, and not with what the name means in the body. -/
theorem resolveScope_redeclared :
    let tree := ScopeTree.build ScopeTree.defaultDepth (Statement.parse (tokenize
      "WITH a AS (SELECT 1 x), b AS (SELECT * FROM a) SELECT (WITH a AS (SELECT 2 y) SELECT * FROM b)"))
    let r : Resolver := { maxDepth := ScopeTree.defaultDepth }
    ∃ body outer path, tree.path 2 = .ok (body :: outer) ∧ tree.path 3 = .ok path ∧
      (∃ t ∈ body.statement.tables, t.isCte ∧ ∃ c, Scope.resolveCte t.name (body :: outer) =
        .ok (some c) ∧ c.body.columns.map ColumnRef.name = ["x"]) ∧
      (r.resolveScope path []).map (fun t => (t.name, t.columns.map ColumnRef.name)) =
        [("b", ["y"])] := by
  intro tree r
  have hbody : tree.paths[2]?.any fun path => path.head?.any fun body =>
      body.statement.tables.any fun t => t.isCte &&
        ((Scope.visibleCtes path).find? fun c => Ident.same c.name t.name).any fun c =>
          c.body.columns.map ColumnRef.name = ["x"] := by
    decide +kernel
  have hexpanded : tree.paths[3]?.any fun path =>
      (r.resolveScope path []).map (fun t => (t.name, t.columns.map ColumnRef.name)) =
        [("b", ["y"])] := by
    decide +kernel
  obtain ⟨inBody, hinBody, hhead⟩ := (Option.any_eq_true _ _).1 hbody
  obtain ⟨body, hfirst, htables⟩ := (Option.any_eq_true _ _).1 hhead
  obtain ⟨outer, rfl⟩ := List.head?_eq_some_iff.1 hfirst
  obtain ⟨t, ht, hmeans⟩ := List.any_eq_true.1 htables
  obtain ⟨hcte, hmeans⟩ := Bool.and_eq_true_iff.1 hmeans
  obtain ⟨c, hc, hnames⟩ := (Option.any_eq_true _ _).1 hmeans
  obtain ⟨path, hpath, hcolumns⟩ := (Option.any_eq_true _ _).1 hexpanded
  refine ⟨body, outer, path, by rw [ScopeTree.path, hinBody], by rw [ScopeTree.path, hpath],
    ⟨t, ht, hcte, c, ?_, of_decide_eq_true hnames⟩, of_decide_eq_true hcolumns⟩
  rw [Scope.resolveCte, hc]

end Resolver

end Tsql
