import Tsql.Statement.Parse
import Tsql.Scope.Tree
import Tsql.Token.Lexer

/-!
What a name means among the tables that a scope sees.

Visible tables hide each other by their display names, but a name also finds a table by the name
behind its alias. So a display name finds the visible table that has it, unless a table further in
has that name behind another alias (`findTable?_displayName`); and what a name finds is visible,
unless it was found behind an alias that is hidden (`mem_visibleTables_of_findTable?`).
-/

namespace Tsql

namespace TableRef

variable {t : TableRef} {name : String}

/-- The table has the name, but columns refer to it by another one, its alias. -/
def HasBehindAlias (t : TableRef) (name : String) : Prop :=
  Ident.same t.name name ∧ ¬ Ident.same t.displayName name

theorem same_of_matchesAlias (h : t.matchesAlias name) : Ident.same t.displayName name := by
  unfold matchesAlias at h
  unfold displayName
  cases ha : t.aliasName with
  | none => simp [ha] at h
  | some a => simpa [ha] using h

theorem matchesName_of_same (h : Ident.same t.displayName name) : t.matchesName name := by
  unfold displayName at h
  unfold matchesName matchesAlias
  cases ha : t.aliasName with
  | none => simpa [ha] using h
  | some a => simp_all

theorem hasBehindAlias_of_matchesName (h : t.matchesName name)
    (hne : ¬ Ident.same t.displayName name) : t.HasBehindAlias name := by
  unfold matchesName at h
  rcases Bool.or_eq_true_iff.1 h with halias | hname
  · exact absurd (same_of_matchesAlias halias) hne
  · exact ⟨hname, hne⟩

end TableRef

/-! ### One scope -/

namespace Statement

variable {s : Statement} {name : String} {t u : TableRef}

theorem of_findTable? (h : s.findTable? name = some t) : t ∈ s.tables ∧ t.matchesName name := by
  unfold findTable? at h
  rcases Option.or_eq_some_iff.1 h with halias | ⟨-, h⟩
  · exact ⟨List.mem_of_find?_eq_some halias, by
      simp [TableRef.matchesName, List.find?_some halias]⟩
  rcases Option.or_eq_some_iff.1 h with hplain | ⟨-, hname⟩
  · have hfound := List.find?_some hplain
    rw [Bool.and_eq_true] at hfound
    exact ⟨List.mem_of_find?_eq_some hplain, by simp [TableRef.matchesName, hfound.2]⟩
  · exact ⟨List.mem_of_find?_eq_some hname, by
      simp [TableRef.matchesName, List.find?_some hname]⟩

theorem findTable?_isSome (hu : u ∈ s.tables) (hname : u.matchesName name) :
    (s.findTable? name).isSome := by
  unfold findTable?
  rw [Option.isSome_or, Option.isSome_or, Bool.or_eq_true, Bool.or_eq_true]
  rcases Bool.or_eq_true_iff.1 hname with halias | hbare
  · exact .inl (List.find?_isSome.2 ⟨u, hu, halias⟩)
  · exact .inr (.inr (List.find?_isSome.2 ⟨u, hu, hbare⟩))

/-- A table with the display name is preferred to one that has the name behind its alias. -/
theorem displayName_of_findTable? (h : s.findTable? name = some t) (hu : u ∈ s.tables)
    (hname : Ident.same u.displayName name) : Ident.same t.displayName name := by
  unfold findTable? at h
  rcases Option.or_eq_some_iff.1 h with halias | ⟨hnoAlias, h⟩
  · have hfound := List.find?_some halias
    exact TableRef.same_of_matchesAlias hfound
  rcases Option.or_eq_some_iff.1 h with hplain | ⟨hnoPlain, -⟩
  · have hfound := List.find?_some hplain
    rw [Bool.and_eq_true, Option.isNone_iff_eq_none] at hfound
    simpa [TableRef.displayName, hfound.1] using hfound.2
  · -- the two searches before would have found `u`
    cases ha : u.aliasName with
    | none =>
        have hbare : Ident.same u.name name := by simpa [TableRef.displayName, ha] using hname
        have hnone := List.find?_eq_none.1 hnoPlain u hu
        simp [ha, hbare] at hnone
    | some a =>
        have hmatch : u.matchesAlias name := by
          simpa [TableRef.displayName, TableRef.matchesAlias, ha] using hname
        exact absurd hmatch (List.find?_eq_none.1 hnoAlias u hu)

end Statement

/-! ### Scopes around scopes -/

namespace ScopedTable

/-- The scope that the table is named in and those around it. -/
def path (v : ScopedTable) : List Scope :=
  v.scope :: v.outer

/-- The table is named in a scope inside that of the other one. -/
def IsInside (w v : ScopedTable) : Prop :=
  v.path <:+ w.outer

end ScopedTable

namespace Scope

variable {path : List Scope} {name : String} {v w : ScopedTable}

theorem mem_ownTables {s : Scope} {outer : List Scope} :
    v ∈ s.ownTables outer ↔ v.table ∈ s.statement.tables ∧ v.path = s :: outer := by
  obtain ⟨t, s', outer'⟩ := v
  simp only [ownTables, List.mem_map, ScopedTable.mk.injEq, ScopedTable.path, List.cons.injEq]
  constructor
  · rintro ⟨t', ht', rfl, rfl, rfl⟩
    exact ⟨ht', rfl, rfl⟩
  · rintro ⟨ht', rfl, rfl⟩
    exact ⟨t, ht', rfl, rfl, rfl⟩

theorem mem_visibleTables_cons {s : Scope} {outer : List Scope} :
    v ∈ visibleTables (s :: outer) ↔
      v ∈ s.ownTables outer ∨
        s.kind.isCorrelated ∧ v ∈ visibleTables outer ∧ s.hides v = false := by
  rw [visibleTables, List.mem_append]
  apply or_congr_right
  split
  · next hkind => simp [hkind]
  · next hkind => simp [hkind]

theorem suffix_of_mem_visibleTables (h : v ∈ visibleTables path) : v.path <:+ path := by
  induction path with
  | nil => simp [visibleTables] at h
  | cons s outer ih =>
      rcases mem_visibleTables_cons.1 h with hown | ⟨-, houter, -⟩
      · have hpath := (mem_ownTables.1 hown).2
        exact ⟨[], hpath⟩
      · exact (ih houter).trans (List.suffix_cons s outer)

theorem mem_tables_of_mem_visibleTables (h : v ∈ visibleTables path) :
    v.table ∈ v.scope.statement.tables := by
  induction path with
  | nil => simp [visibleTables] at h
  | cons s outer ih =>
      rcases mem_visibleTables_cons.1 h with hown | ⟨-, houter, -⟩
      · obtain ⟨htable, hpath⟩ := mem_ownTables.1 hown
        obtain ⟨hscope, -⟩ := List.cons.inj hpath
        rwa [hscope]
      · exact ih houter

theorem hides_iff {s : Scope} (outer : List Scope) :
    s.hides v ↔ ∃ u ∈ s.ownTables outer, Ident.same u.table.displayName v.table.displayName := by
  unfold hides
  rw [List.any_eq_true]
  constructor
  · rintro ⟨t, ht, hsame⟩
    exact ⟨⟨t, s, outer⟩, mem_ownTables.2 ⟨ht, rfl⟩, hsame⟩
  · rintro ⟨u, hu, hsame⟩
    exact ⟨u.table, (mem_ownTables.1 hu).1, hsame⟩

theorem matchesName_of_findTable? (h : findTable? name path = some w) :
    w.table.matchesName name := by
  induction path with
  | nil => simp [findTable?] at h
  | cons s outer ih =>
      rw [findTable?] at h
      cases hs : s.statement.findTable? name with
      | some t =>
          obtain rfl : _ = w := by simpa [hs] using h
          exact (Statement.of_findTable? hs).2
      | none =>
          rw [hs] at h
          dsimp only at h
          split at h
          · exact ih h
          · contradiction

/-- The display name of a visible table finds a table with that display name in the same scope, or
one further in that has the name behind its alias. -/
theorem findTable?_displayName (h : v ∈ visibleTables path) :
    ∃ w, findTable? v.table.displayName path = some w ∧
      (w.path = v.path ∧ Ident.same w.table.displayName v.table.displayName ∨
        w.IsInside v ∧ w.table.HasBehindAlias v.table.displayName) := by
  induction path with
  | nil => simp [visibleTables] at h
  | cons s outer ih =>
      rw [findTable?]
      rcases mem_visibleTables_cons.1 h with hown | ⟨hkind, houter, hhides⟩
      · obtain ⟨hmem, hpath⟩ := mem_ownTables.1 hown
        have hsame := Ident.same_refl v.table.displayName
        obtain ⟨t, ht⟩ := Option.isSome_iff_exists.1
          (Statement.findTable?_isSome hmem (TableRef.matchesName_of_same hsame))
        refine ⟨⟨t, s, outer⟩, by simp [ht], .inl ⟨hpath.symm, ?_⟩⟩
        exact Statement.displayName_of_findTable? ht hmem hsame
      · cases hs : s.statement.findTable? v.table.displayName with
        | none => simpa [hkind] using ih houter
        | some t =>
            obtain ⟨hmem, hname⟩ := Statement.of_findTable? hs
            refine ⟨⟨t, s, outer⟩, rfl, .inr ⟨suffix_of_mem_visibleTables houter, ?_⟩⟩
            -- a table with that display name would hide `v`
            apply TableRef.hasBehindAlias_of_matchesName hname
            intro hsame
            have hown : ⟨t, s, outer⟩ ∈ s.ownTables outer := mem_ownTables.2 ⟨hmem, rfl⟩
            exact absurd ((hides_iff outer).2 ⟨_, hown, hsame⟩) (by simp [hhides])

/-- What a name finds is visible, or has the name behind an alias that a visible table further in
hides. -/
theorem mem_visibleTables_of_findTable? (h : findTable? name path = some w) :
    w ∈ visibleTables path ∨
      w.table.HasBehindAlias name ∧ ∃ u ∈ visibleTables path,
        u.IsInside w ∧ Ident.same u.table.displayName w.table.displayName := by
  have hname := matchesName_of_findTable? h
  induction path with
  | nil => simp [findTable?] at h
  | cons s outer ih =>
      rw [findTable?] at h
      cases hs : s.statement.findTable? name with
      | some t =>
          obtain rfl : _ = w := by simpa [hs] using h
          have hmem := (Statement.of_findTable? hs).1
          exact .inl (mem_visibleTables_cons.2 (.inl (mem_ownTables.2 ⟨hmem, rfl⟩)))
      | none =>
          rw [hs] at h
          obtain ⟨hkind, h⟩ : s.kind.isCorrelated ∧ findTable? name outer = some w := by
            simpa using h
          rcases ih h with hvisible | ⟨hbehind, u, hu, hinside, hsame⟩
          · by_cases hhides : s.hides w
            · obtain ⟨u, hown, hsame⟩ := (hides_iff outer).1 hhides
              obtain ⟨hmem, hpath⟩ := mem_ownTables.1 hown
              have hinside : u.IsInside w := by
                unfold ScopedTable.IsInside
                rw [(List.cons.inj hpath).2]
                exact suffix_of_mem_visibleTables hvisible
              refine .inr ⟨?_, u, mem_visibleTables_cons.2 (.inl hown), hinside, hsame⟩
              -- by its display name it would not have been looked for so far out
              apply TableRef.hasBehindAlias_of_matchesName hname
              intro hw
              have hfound := Statement.findTable?_isSome hmem
                (TableRef.matchesName_of_same (Ident.same_trans hsame hw))
              simp [hs] at hfound
            · exact .inl (mem_visibleTables_cons.2 (.inr ⟨hkind, hvisible, by simpa using hhides⟩))
          · refine .inr ⟨hbehind, ?_⟩
            by_cases hhides : s.hides u
            · obtain ⟨u', hown, hsame'⟩ := (hides_iff outer).1 hhides
              obtain ⟨-, hpath⟩ := mem_ownTables.1 hown
              refine ⟨u', mem_visibleTables_cons.2 (.inl hown), ?_, Ident.same_trans hsame' hsame⟩
              unfold ScopedTable.IsInside at hinside ⊢
              rw [(List.cons.inj hpath).2]
              exact hinside.trans ((List.suffix_cons _ _).trans (suffix_of_mem_visibleTables hu))
            · refine ⟨u, ?_, hinside, hsame⟩
              exact mem_visibleTables_cons.2 (.inr ⟨hkind, hu, by simpa using hhides⟩)

theorem resolveTable_eq_ok : resolveTable name path = .ok w ↔ findTable? name path = some w := by
  unfold resolveTable
  cases findTable? name path <;> simp

/-- Looking up a name and listing the visible tables agree on display names. They differ only on
names behind aliases: a display name finds the table that has it in its scope, or one further in
that has the name behind its alias; and what a name finds is visible, or has the name behind an
alias that is hidden. -/
theorem resolveTable_visibleTables (path : List Scope) :
    (∀ v ∈ visibleTables path, ∃ w, resolveTable v.table.displayName path = .ok w ∧
      (w.path = v.path ∧ Ident.same w.table.displayName v.table.displayName ∨
        w.IsInside v ∧ w.table.HasBehindAlias v.table.displayName)) ∧
    ∀ name w, resolveTable name path = .ok w →
      w ∈ visibleTables path ∨
        w.table.HasBehindAlias name ∧ ∃ u ∈ visibleTables path,
          u.IsInside w ∧ Ident.same u.table.displayName w.table.displayName := by
  constructor
  · intro v hv
    obtain ⟨w, hw, hplace⟩ := findTable?_displayName hv
    exact ⟨w, resolveTable_eq_ok.2 hw, hplace⟩
  · intro name w hw
    exact mem_visibleTables_of_findTable? (resolveTable_eq_ok.1 hw)

/-- A subquery in which `Orders` means its own `Orders o` and not the `Orders` around it, which is
visible, and `Lines` a table that its `o` hides. -/
theorem resolveTable_behind_aliases :
    let s := Statement.parse (tokenize
      "SELECT * FROM Orders, Lines o WHERE EXISTS (SELECT * FROM Orders o)")
    ∃ path, (ScopeTree.build ScopeTree.defaultDepth s).path 1 = .ok path ∧
      (∃ v ∈ visibleTables path, ∃ w, resolveTable v.table.displayName path = .ok w ∧
        w.scope.id ≠ v.scope.id ∧ ¬ Ident.same w.table.displayName v.table.displayName) ∧
      ∃ w, resolveTable "Lines" path = .ok w ∧ w ∉ visibleTables path := by
  intro s
  have hfound : (ScopeTree.build ScopeTree.defaultDepth s).paths[1]?.any fun path =>
      ((visibleTables path).any fun v => (findTable? v.table.displayName path).any fun w =>
        w.scope.id ≠ v.scope.id && !Ident.same w.table.displayName v.table.displayName) &&
      (findTable? "Lines" path).any fun w => (visibleTables path).all fun u =>
        u.table.name ≠ w.table.name := by
    decide +kernel
  obtain ⟨path, hpath, hfacts⟩ := (Option.any_eq_true _ _).1 hfound
  obtain ⟨hcaptured, hhidden⟩ := Bool.and_eq_true_iff.1 hfacts
  refine ⟨path, by rw [ScopeTree.path, hpath], ?_, ?_⟩
  · obtain ⟨v, hv, hany⟩ := List.any_eq_true.1 hcaptured
    obtain ⟨w, hw, hother⟩ := (Option.any_eq_true _ _).1 hany
    exact ⟨v, hv, w, resolveTable_eq_ok.2 hw, by simpa using hother⟩
  · obtain ⟨w, hw, hall⟩ := (Option.any_eq_true _ _).1 hhidden
    refine ⟨w, resolveTable_eq_ok.2 hw, fun hmem => ?_⟩
    have hname := List.all_eq_true.1 hall w hmem
    simp at hname

end Scope

end Tsql
