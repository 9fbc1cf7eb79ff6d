import Tsql.Proofs.Scope.Paths
import Tsql.Proofs.Statement.Laminar
import Tsql.Token.Lexer

/-!
The scope at a position.

Scopes are numbered so that the id of one leads to it (`ScopeTree.path_id_of_mem`). A scope that
contains a position has all scopes around it containing it (`Scope.PathOf.contains_outer`), also at the
end of the text where parentheses are missing. Of the scopes next to each other at most one contains
the position (`Scope.Placed.pairwise_inner`), so that the first one that does is the only way down, and
the descent ends in the innermost scope (`ScopeTree.innermost_pathAt`). The exception is a query that
has been entered behind an `AS` in place of a table (`Scope.Enters`), which is found twice.
-/

namespace Tsql

/-! ### Ids -/

namespace ScopeTree

variable {p : Position} {levels : Nat} {s : Scope} {outer path : List Scope}

theorem length_pathsUnder (levels : Nat) (s : Scope) (outer outer' : List Scope) :
    (pathsUnder outer (grow levels s)).length = (pathsUnder outer' (grow levels s)).length := by
  induction levels generalizing s outer outer' with
  | zero => rfl
  | succ levels ih =>
      rw [grow, pathsUnder, pathsUnder, pathsUnderAll_eq, pathsUnderAll_eq, List.length_cons,
        List.length_cons, List.length_flatMap, List.length_flatMap]
      have hlengths : ∀ t ∈ growAll (grow levels) (s.id + 1) s.inner,
          (pathsUnder (s :: outer) t).length = (pathsUnder (s :: outer') t).length := by
        intro t ht
        obtain ⟨inner, -, id, rfl⟩ := exists_of_mem_growAll ht
        exact ih _ _ _
      rw [List.map_congr_left hlengths]

/-- The innermost scopes have the ids from the given one on, without gaps. -/
def CountsFrom (id : Nat) (paths : List (List Scope)) : Prop :=
  paths.map (fun path => path.head?.map Scope.id) = (List.range' id paths.length).map some

theorem CountsFrom.append {id : Nat} {as bs : List (List Scope)} (ha : CountsFrom id as)
    (hb : CountsFrom (id + as.length) bs) : CountsFrom id (as ++ bs) := by
  rw [CountsFrom, List.map_append, ha, hb, ← List.map_append, List.range'_append_1,
    List.length_append]

theorem countsFrom_growAll {make : Scope → ScopeTree}
    (hlength : ∀ s, (pathsUnder outer (make s)).length = (make s).size)
    (hmake : ∀ s, CountsFrom s.id (pathsUnder outer (make s))) (next : Nat) (ss : List Scope) :
    CountsFrom next ((growAll make next ss).flatMap (pathsUnder outer)) := by
  induction ss generalizing next with
  | nil => rfl
  | cons s ss ih =>
      rw [growAll, List.flatMap_cons]
      refine CountsFrom.append (hmake _) ?_
      rw [hlength]
      exact ih _

theorem countsFrom_pathsUnder (levels : Nat) (s : Scope) (outer : List Scope) :
    CountsFrom s.id (pathsUnder outer (grow levels s)) := by
  induction levels generalizing s outer with
  | zero => rfl
  | succ levels ih =>
      rw [grow, pathsUnder, pathsUnderAll_eq]
      have hinner := countsFrom_growAll (fun s' => length_pathsUnder levels s' (s :: outer) [])
        (fun s' => ih s' (s :: outer)) (s.id + 1) s.inner
      have hroot : CountsFrom s.id [s :: outer] := rfl
      exact hroot.append hinner

/-- A scope is found under its id. -/
theorem path_id_of_mem {statement : Statement} {maxDepth : Nat}
    (h : s :: outer ∈ (build maxDepth statement).paths) :
    (build maxDepth statement).path s.id = .ok (s :: outer) := by
  obtain ⟨i, hi⟩ := List.getElem?_of_mem h
  have hids : CountsFrom 0 (build maxDepth statement).paths :=
    countsFrom_pathsUnder maxDepth (.ofStatement statement) []
  have hat := congrArg (fun ids => ids[i]?) hids
  have hlt := (List.getElem?_eq_some_iff.1 hi).1
  simp only [List.getElem?_map, hi, Option.map_some, List.head?_cons, List.getElem?_range' hlt,
    Nat.zero_add, Nat.one_mul, Option.some.injEq] at hat
  rw [path, hat, hi]

/-! ### Descending -/

theorem descendFirst_cases (p : Position) (ts : List ScopeTree) :
    descendFirst p ts = [] ∨
      ∃ t ∈ ts, t.scope.contains p ∧ descendFirst p ts = descend p t := by
  induction ts with
  | nil => exact .inl rfl
  | cons t ts ih =>
      rw [descendFirst]
      split
      · next hp => exact .inr ⟨t, List.mem_cons_self, hp, rfl⟩
      · exact ih.imp_right fun ⟨t', ht', hp⟩ => ⟨t', List.mem_cons_of_mem t ht', hp⟩

theorem descendFirst_of_mem {ts : List ScopeTree} {t : ScopeTree} (ht : t ∈ ts)
    (hp : t.scope.contains p)
    (hts : ts.Pairwise fun t u => ¬ (t.scope.contains p ∧ u.scope.contains p)) :
    descendFirst p ts = descend p t := by
  induction ts with
  | nil => exact absurd ht List.not_mem_nil
  | cons u ts ih =>
      obtain ⟨hu, hts⟩ := List.pairwise_cons.1 hts
      rw [descendFirst]
      rcases List.mem_cons.1 ht with rfl | ht
      · rw [if_pos hp]
      · rw [if_neg fun hup => hu t ht ⟨hup, hp⟩, ih ht hts]

theorem scope_grow (levels : Nat) (s : Scope) : (grow levels s).scope = s := by
  cases levels <;> rfl

theorem exists_descend_grow (levels : Nat) (s : Scope) :
    ∃ rest, descend p (grow levels s) = s :: rest ∧ ∀ x ∈ rest, x.contains p := by
  induction levels generalizing s with
  | zero => exact ⟨[], rfl, by simp⟩
  | succ levels ih =>
      refine ⟨_, by rw [grow, descend], ?_⟩
      rcases descendFirst_cases p (growAll (grow levels) (s.id + 1) s.inner) with hnil | ⟨t, ht, hp, heq⟩
      · simp [hnil]
      · obtain ⟨inner, -, id, rfl⟩ := exists_of_mem_growAll ht
        rw [scope_grow] at hp
        obtain ⟨rest, hrest, hcontains⟩ := ih { inner with id := id }
        rw [heq, hrest]
        exact List.forall_mem_cons.2 ⟨hp, hcontains⟩

theorem reverse_descend_mem (levels : Nat) (s : Scope) (outer : List Scope) :
    (descend p (grow levels s)).reverse ++ outer ∈ pathsUnder outer (grow levels s) := by
  induction levels generalizing s outer with
  | zero => exact List.mem_singleton_self _
  | succ levels ih =>
      rw [grow, descend, pathsUnder, pathsUnderAll_eq, List.reverse_cons, List.append_assoc,
        List.singleton_append]
      rcases descendFirst_cases p (growAll (grow levels) (s.id + 1) s.inner) with hnil | ⟨t, ht, -, heq⟩
      · rw [hnil]
        exact List.mem_cons_self
      · rw [heq]
        refine List.mem_cons_of_mem _ (List.mem_flatMap.2 ⟨t, ht, ?_⟩)
        obtain ⟨inner, -, id, rfl⟩ := exists_of_mem_growAll ht
        exact ih _ _

end ScopeTree

/-! ### Scopes in the text -/

namespace Scope

variable {ts : List Token} {p : Position} {s child : Scope} {outer path : List Scope}

theorem map_inner (s : Scope) :
    s.inner.map (fun child => (child.range, child.statement)) = s.statement.places := by
  have hctes : s.statement.ctes.zipIdx.map (fun c => (c.1.range, c.1.body)) =
      s.statement.ctes.map fun c => (c.range, c.body) := by
    rw [← List.zipIdx_map_fst 0 s.statement.ctes, List.map_map, List.zipIdx_map_fst]
    rfl
  rw [inner_eq, List.map_append, List.map_map, List.map_map, Statement.places, ← hctes]
  rfl

theorem mem_places (h : child ∈ s.inner) : (child.range, child.statement) ∈ s.statement.places := by
  rw [← map_inner]
  exact List.mem_map.2 ⟨child, h, rfl⟩

/-- A scope inside a statement is open when no parenthesis stands behind its query. -/
theorem kind_ne_and_isOpen_of_mem_inner (h : child ∈ s.inner) :
    child.kind ≠ .statement ∧
      child.isOpen = decide (child.range.stop ≤ child.statement.range.stop) := by
  rcases mem_inner.1 h with ⟨i, c, -, rfl⟩ | ⟨q, -, rfl⟩
  · exact ⟨by simp [ofCte], rfl⟩
  · refine ⟨?_, rfl⟩
    unfold ofSubquery
    dsimp only
    split <;> simp

theorem contains_iff (h : s.kind ≠ .statement) :
    s.contains p ↔ s.range.start < p ∧ (p < s.range.stop ∨ s.isOpen ∧ p = s.range.stop) := by
  simp [contains, h]

theorem start_lt_and_le_stop_of_contains (h : s.kind ≠ .statement) (hp : s.contains p) :
    s.range.start < p ∧ p ≤ s.range.stop := by
  obtain ⟨hstart, hstop | ⟨-, rfl⟩⟩ := (contains_iff h).1 hp
  · exact ⟨hstart, Position.le_of_lt hstop⟩
  · exact ⟨hstart, Position.le_refl _⟩

/-- No position is in two scopes that are apart, not even at the end of an open one. -/
theorem not_contains_of_apart {a b : Scope} (ha : a.kind ≠ .statement) (hb : b.kind ≠ .statement)
    (h : a.range.Apart b.range) : ¬ (a.contains p ∧ b.contains p) := by
  rintro ⟨hap, hbp⟩
  obtain ⟨hastart, hastop⟩ := start_lt_and_le_stop_of_contains ha hap
  obtain ⟨hbstart, hbstop⟩ := start_lt_and_le_stop_of_contains hb hbp
  rcases h with h | h
  · exact Position.lt_irrefl p (Position.lt_of_le_of_lt (Position.le_trans hastop h) hbstart)
  · exact Position.lt_irrefl p (Position.lt_of_le_of_lt (Position.le_trans hbstop h) hastart)

/-- The statement of the scope describes some of the tokens, and what is nested in it lies between
the parentheses of the scope. -/
structure Placed (s : Scope) (ts : List Token) : Prop where
  describes : ∃ us, us <:+: ts ∧ s.statement.Describes us
  inside : s.kind = .statement ∨
    s.isOpen = decide (s.range.stop ≤ s.statement.range.stop) ∧
      (s.statement.nested = [] ∨
        s.range.start < s.statement.range.start ∧ s.statement.range.stop ≤ s.range.stop)

theorem placed_ofStatement (ts : List Token) : (ofStatement (.parse ts)).Placed ts where
  describes := ⟨ts, List.infix_rfl, Statement.describes_parse ts⟩
  inside := .inl rfl

namespace Placed

theorem laminar (h : s.Placed ts) (hts : IsOrdered ts) :
    ∃ us, us <:+: ts ∧ s.statement.Laminar us := by
  obtain ⟨us, hus, hdescribes⟩ := h.describes
  exact ⟨us, hus, hdescribes.laminar (hts.mono hus)⟩

theorem of_mem_inner (h : s.Placed ts) (hts : IsOrdered ts) (hchild : child ∈ s.inner) (id : Nat) :
    Placed { child with id := id } ts where
  describes := by
    obtain ⟨us, hus, hdescribes⟩ := h.describes
    obtain ⟨vs, hvs, hchild⟩ := hdescribes.exists_of_mem_nested (statement_mem_nested hchild)
    exact ⟨vs, hvs.trans hus, hchild⟩
  inside := by
    obtain ⟨us, -, hlaminar⟩ := h.laminar hts
    exact .inr ⟨(kind_ne_and_isOpen_of_mem_inner hchild).2, hlaminar.inside _ (mem_places hchild)⟩

/-- A scope contains what the scopes inside it contain. Where its last token is also the last one of
its query, its parenthesis is missing, and it contains its end. -/
theorem contains_of_mem_inner (h : s.Placed ts) (hts : IsOrdered ts) (hchild : child ∈ s.inner)
    (hp : child.contains p) : s.kind = .statement ∨ s.contains p := by
  by_cases hkind : s.kind = .statement
  · exact .inl hkind
  refine .inr ((contains_iff hkind).2 ?_)
  obtain ⟨us, -, hlaminar⟩ := h.laminar hts
  obtain ⟨hstart, hstop⟩ :=
    start_lt_and_le_stop_of_contains (kind_ne_and_isOpen_of_mem_inner hchild).1 hp
  have hwithin : child.range.Within s.statement.range := hlaminar.within _ (mem_places hchild)
  obtain ⟨hopen, hnil | ⟨hfront, hback⟩⟩ := h.inside.resolve_left hkind
  · exact absurd (hnil ▸ statement_mem_nested hchild) List.not_mem_nil
  have hle : p ≤ s.statement.range.stop := Position.le_trans hstop hwithin.2
  have hlt : s.range.start < p :=
    Position.lt_of_lt_of_le hfront (Position.le_trans hwithin.1 (Position.le_of_lt hstart))
  refine ⟨hlt, ?_⟩
  by_cases hend : p < s.range.stop
  · exact .inl hend
  · have hge := Position.not_lt.1 hend
    have heq := Position.le_antisymm (Position.le_trans hle hback) hge
    exact .inr ⟨by simpa [hopen] using Position.le_trans hge hle, heq⟩

end Placed

namespace PathOf

theorem placed (h : PathOf (.parse ts) path) (hts : IsOrdered ts) :
    ∀ s ∈ path.head?, s.Placed ts := by
  induction h with
  | statement =>
      rintro _ ⟨⟩
      exact placed_ofStatement ts
  | inside h hinner id ih =>
      rintro _ ⟨⟩
      exact (ih _ rfl).of_mem_inner hts hinner id

/-- Only the statement itself has no scope around it. -/
theorem eq_ofStatement_or_kind_ne {st : Statement} (h : PathOf st (s :: outer)) :
    s :: outer = [.ofStatement st] ∨ s.kind ≠ .statement := by
  cases h with
  | statement => exact .inl rfl
  | inside h hinner id => exact .inr (kind_ne_and_isOpen_of_mem_inner hinner).1

/-- The scopes around a position are around it up to the statement. -/
theorem contains_outer (h : PathOf (.parse ts) (s :: outer)) (hts : IsOrdered ts)
    (hp : s.contains p) : ∀ o ∈ outer, o = .ofStatement (.parse ts) ∨ o.contains p := by
  generalize hpath : s :: outer = path at h
  induction h generalizing s outer with
  | statement =>
      obtain ⟨rfl, rfl⟩ := List.cons.inj hpath
      exact fun o ho => absurd ho List.not_mem_nil
  | inside h hinner id ih =>
      obtain ⟨rfl, rfl⟩ := List.cons.inj hpath
      rcases h.eq_ofStatement_or_kind_ne with hroot | hkind
      · rw [hroot]
        exact fun o ho => .inl (List.mem_singleton.1 ho)
      · have hcontains :=
          ((h.placed hts _ rfl).contains_of_mem_inner hts hinner hp).resolve_left hkind
        exact List.forall_mem_cons.2 ⟨.inr hcontains, ih hcontains rfl⟩

end PathOf

/-- A query of the scope that contains the position stands directly behind an `AS` that is reported,
in place of a table. -/
def Enters (s : Scope) (ts : List Token) (p : Position) : Prop :=
  ∃ child ∈ s.inner, child.contains p ∧ ∃ a t, [a, t] <:+: ts ∧
    ⟨.aliasWithoutTable, a.range⟩ ∈ s.statement.issues ∧ child.range.start = t.start

theorem Placed.pairwise_inner (h : s.Placed ts) (hts : IsOrdered ts) (hp : ¬ s.Enters ts p) :
    s.inner.Pairwise fun a b => ¬ (a.contains p ∧ b.contains p) := by
  obtain ⟨us, hus, hlaminar⟩ := h.laminar hts
  have hseparate := hlaminar.separate
  rw [← map_inner, List.map_map, List.pairwise_map] at hseparate
  refine hseparate.imp_of_mem fun ha hb hab => ?_
  rcases hab with hapart | ⟨-, u, t, hbehind, hissue, hstart⟩ | ⟨-, u, t, hbehind, hissue, hstart⟩
  · exact not_contains_of_apart (kind_ne_and_isOpen_of_mem_inner ha).1
      (kind_ne_and_isOpen_of_mem_inner hb).1 hapart
  · exact fun hboth => hp ⟨_, ha, hboth.1, u, t, hbehind.trans hus, hissue, hstart⟩
  · exact fun hboth => hp ⟨_, hb, hboth.2, u, t, hbehind.trans hus, hissue, hstart⟩

end Scope

/-! ### The innermost scope -/

namespace ScopeTree

variable {ts : List Token} {p : Position} {levels : Nat} {s : Scope} {outer path : List Scope}

theorem pairwise_growAll {make : Scope → ScopeTree} {R : ScopeTree → ScopeTree → Prop}
    {ss : List Scope}
    (h : ss.Pairwise fun a b => ∀ i j, R (make { a with id := i }) (make { b with id := j }))
    (next : Nat) : (growAll make next ss).Pairwise R := by
  induction ss generalizing next with
  | nil => exact .nil
  | cons s ss ih =>
      obtain ⟨hs, hss⟩ := List.pairwise_cons.1 h
      refine List.pairwise_cons.2 ⟨fun t ht => ?_, ih hss _⟩
      obtain ⟨s', hs', id, rfl⟩ := exists_of_mem_growAll ht
      exact hs s' hs' next id

theorem exists_mem_growAll (make : Scope → ScopeTree) {ss : List Scope} (next : Nat) (h : s ∈ ss) :
    ∃ id, make { s with id := id } ∈ growAll make next ss := by
  induction ss generalizing next with
  | nil => exact absurd h List.not_mem_nil
  | cons s' ss ih =>
      rcases List.mem_cons.1 h with rfl | h
      · exact ⟨next, List.mem_cons_self⟩
      · exact (ih _ h).imp fun id hmem => List.mem_cons_of_mem _ hmem

theorem suffix_of_mem_pathsUnder (h : path ∈ pathsUnder outer (grow levels s)) :
    s :: outer <:+ path := by
  induction levels generalizing s outer with
  | zero =>
      rw [grow, pathsUnder, pathsUnderAll] at h
      obtain rfl := List.mem_singleton.1 h
      exact List.suffix_rfl
  | succ levels ih =>
      rw [grow, pathsUnder, pathsUnderAll_eq] at h
      rcases List.mem_cons.1 h with rfl | h
      · exact List.suffix_rfl
      · obtain ⟨t, ht, h⟩ := List.mem_flatMap.1 h
        obtain ⟨child, -, id, rfl⟩ := exists_of_mem_growAll ht
        exact (List.suffix_cons _ _).trans (ih h)

theorem pairwise_growAll_inner (h : s.Placed ts) (hts : IsOrdered ts) (hp : ¬ s.Enters ts p)
    (levels next : Nat) : (growAll (grow levels) next s.inner).Pairwise fun t u =>
      ¬ (t.scope.contains p ∧ u.scope.contains p) := by
  refine pairwise_growAll ((h.pairwise_inner hts hp).imp fun hab i j => ?_) next
  rw [scope_grow, scope_grow]
  exact hab

/-- Down from a scope the descent passes all scopes that contain the position, unless it has entered
one of them by mistake. -/
theorem suffix_descend_or_enters {inside : Scope} {around : List Scope}
    (h : Scope.PathOf (.parse ts) (s :: outer)) (hts : IsOrdered ts)
    (hpath : inside :: around ∈ pathsUnder outer (grow levels s)) (hp : inside.contains p) :
    inside :: around <:+ (descend p (grow levels s)).reverse ++ outer ∨
      ∃ o ∈ around, o.Enters ts p := by
  induction levels generalizing s outer with
  | zero =>
      rw [grow, pathsUnder, pathsUnderAll] at hpath
      rw [List.mem_singleton.1 hpath]
      exact .inl List.suffix_rfl
  | succ levels ih =>
      rw [grow, pathsUnder, pathsUnderAll_eq] at hpath
      rw [grow, descend, List.reverse_cons, List.append_assoc, List.singleton_append]
      rcases List.mem_cons.1 hpath with heq | hpath
      · rw [heq]
        exact .inl (List.suffix_append _ _)
      obtain ⟨t, ht, hpath⟩ := List.mem_flatMap.1 hpath
      obtain ⟨child, hchild, id, rfl⟩ := exists_of_mem_growAll ht
      have hinside : Scope.PathOf (.parse ts) ({ child with id := id } :: s :: outer) :=
        .inside h hchild id
      have haround : s ∈ around ∧ child.contains p := by
        rcases List.suffix_cons_iff.1 (suffix_of_mem_pathsUnder hpath) with heq | hsuffix
        · obtain ⟨rfl, rfl⟩ := List.cons.inj heq
          exact ⟨List.mem_cons_self, hp⟩
        · have hmem := hsuffix.subset
          refine ⟨hmem (List.mem_cons_of_mem _ List.mem_cons_self), ?_⟩
          have hcontains := (pathOf_of_mem_pathsUnder hinside hpath).contains_outer hts hp
          refine (hcontains _ (hmem List.mem_cons_self)).resolve_left fun hroot => ?_
          have hkind := congrArg Scope.kind hroot
          exact (Scope.kind_ne_and_isOpen_of_mem_inner hchild).1 hkind
      by_cases henters : s.Enters ts p
      · exact .inr ⟨s, haround.1, henters⟩
      · have hpairwise := pairwise_growAll_inner (h.placed hts s rfl) hts henters levels (s.id + 1)
        rw [descendFirst_of_mem ht (by rw [scope_grow]; exact haround.2) hpairwise]
        exact ih hinside hpath

/-- The scope found at a position is the innermost one. The ids of the scopes lead to them. The scopes
on the way down to the one that is found, but that of the statement, contain the position. Where a
scope contains a position, the scopes around it do, and it is on that way; a scope is missed only
where, in place of a table, an `AS` that is reported stands in front of the parenthesis of a query
around the position. In the same cases alone do two queries next to each other both contain it. -/
theorem innermost_pathAt (hts : IsOrdered ts) (maxDepth : Nat) (p : Position) :
    let tree := build maxDepth (.parse ts)
    (tree.pathAt p ∈ tree.paths ∧ tree.path (tree.idAt p) = .ok (tree.pathAt p) ∧
      ∀ s ∈ tree.pathAt p, s = .ofStatement (.parse ts) ∨ s.contains p) ∧
    ∀ s outer, s :: outer ∈ tree.paths →
      (s.contains p → (∀ o ∈ outer, o = .ofStatement (.parse ts) ∨ o.contains p) ∧
        (s :: outer <:+ tree.pathAt p ∨ ∃ o ∈ outer, o.Enters ts p)) ∧
      (¬ s.Enters ts p → s.inner.Pairwise fun a b => ¬ (a.contains p ∧ b.contains p)) := by
  intro tree
  have hmem : tree.pathAt p ∈ tree.paths := by
    have hpath := reverse_descend_mem (p := p) maxDepth (.ofStatement (.parse ts)) []
    rwa [List.append_nil] at hpath
  obtain ⟨rest, hdescend, hrest⟩ := exists_descend_grow (p := p) maxDepth (.ofStatement (.parse ts))
  refine ⟨⟨hmem, ?_, fun s hs => ?_⟩, fun s outer hs => ?_⟩
  · obtain ⟨s, outer, hpath⟩ := List.exists_cons_of_ne_nil (pathOf_of_mem_paths hmem).ne_nil
    have hid : tree.idAt p = s.id := by
      rw [idAt, List.getLast?_eq_head?_reverse, ← pathAt, hpath]
      rfl
    rw [hid, hpath, path_id_of_mem (hpath ▸ hmem)]
  · rw [pathAt, List.mem_reverse, show tree.descend p = _ from hdescend] at hs
    exact (List.mem_cons.1 hs).imp_right (hrest s)
  · have hpath := pathOf_of_mem_paths hs
    refine ⟨fun hp => ⟨hpath.contains_outer hts hp, ?_⟩,
      fun henters => (hpath.placed hts s rfl).pairwise_inner hts henters⟩
    have hfound := suffix_descend_or_enters .statement hts hs hp
    rwa [List.append_nil] at hfound

/-- At the end of two open queries the innermost scope is that of the second one. -/
theorem innermost_pathAt_open :
    let tree := build defaultDepth (.parse (tokenize
      "SELECT * FROM t WHERE a IN (SELECT b FROM (SELECT c"))
    ∃ s outer, s :: outer ∈ tree.paths ∧ s.depth = 2 ∧ s.contains ⟨1, 52⟩ ∧
      s :: outer <:+ tree.pathAt ⟨1, 52⟩ := by
  intro tree
  have hfound : tree.paths.any fun path => path.head?.any fun s =>
      s.depth = 2 && s.contains ⟨1, 52⟩ := by
    decide +kernel
  have hissues : tree.paths.all fun path => path.all fun s => s.statement.issues.all fun i =>
      i.anomaly ≠ .aliasWithoutTable := by
    decide +kernel
  obtain ⟨path, hpath, hhead⟩ := List.any_eq_true.1 hfound
  obtain ⟨s, hs, hfacts⟩ := (Option.any_eq_true _ _).1 hhead
  obtain ⟨hdepth, hcontains⟩ := Bool.and_eq_true_iff.1 hfacts
  obtain ⟨outer, rfl⟩ := List.head?_eq_some_iff.1 hs
  have hinnermost := (innermost_pathAt (isOrdered_tokenize _) defaultDepth ⟨1, 52⟩).2 s outer hpath
  refine ⟨s, outer, hpath, of_decide_eq_true hdepth, hcontains, ?_⟩
  refine (hinnermost.1 hcontains).2.resolve_right fun ⟨o, ho, hentered⟩ => ?_
  obtain ⟨-, -, -, a, -, -, hissue, -⟩ := hentered
  have hnone := List.all_eq_true.1 (List.all_eq_true.1 hissues _ hpath) o (List.mem_cons_of_mem s ho)
  exact of_decide_eq_true (List.all_eq_true.1 hnone _ hissue) rfl

theorem exists_mem_paths_of_mem_inner {statement : Statement} {child : Scope} (maxDepth : Nat)
    (h : child ∈ (Scope.ofStatement statement).inner) :
    ∃ id, [{ child with id := id }, .ofStatement statement] ∈
      (build (maxDepth + 1) statement).paths := by
  obtain ⟨id, ht⟩ := exists_mem_growAll (grow maxDepth) 1 h
  refine ⟨id, ?_⟩
  rw [build, grow, paths, pathsUnder, pathsUnderAll_eq]
  refine List.mem_cons_of_mem _ (List.mem_flatMap.2 ⟨_, ht, ?_⟩)
  cases maxDepth <;> exact List.mem_cons_self

/-- Each query found in a statement has a scope in its tree, which contains what is in its range. -/
theorem exists_mem_paths_of_mem_found (ts : List Token) {r : Range} (maxDepth : Nat)
    (hstart : r.start < p) (hstop : p < r.stop)
    (h : ∃ q ∈ (Statement.found (.ofQuery Statement.maxNesting) ts).subqueries ++
      Statement.expressions (.ofQuery Statement.maxNesting) ts, q.range = r) :
    ∃ s, [s, .ofStatement (.parse ts)] ∈ (build (maxDepth + 1) (.parse ts)).paths ∧
      s.range = r ∧ s.contains p := by
  obtain ⟨q, hq, rfl⟩ := h
  have hplace : q.range ∈ (Statement.parse ts).places.map Prod.fst := by
    rw [← (Statement.perm_subqueries_build _ ts).mem_iff] at hq
    rw [Statement.parse, Statement.map_fst_places_markedIn, Statement.places, List.map_append,
      List.map_map, List.map_map]
    exact List.mem_append_right _ (List.mem_map.2 ⟨q, hq, rfl⟩)
  rw [← show _ = (Statement.parse ts).places from Scope.map_inner (.ofStatement (.parse ts)),
    List.map_map] at hplace
  obtain ⟨child, hchild, hrange⟩ := List.mem_map.1 hplace
  replace hrange : child.range = q.range := hrange
  obtain ⟨id, hpath⟩ := exists_mem_paths_of_mem_inner maxDepth hchild
  have hcontains : child.contains p :=
    (Scope.contains_iff (Scope.kind_ne_and_isOpen_of_mem_inner hchild).1).2
      ⟨hrange ▸ hstart, .inl (hrange ▸ hstop)⟩
  exact ⟨_, hpath, hrange, hcontains⟩

/-- Behind an `AS` in place of a table, the query in a query is also found next to the outer one. -/
theorem siblings_contain_behind_as :
    let tree := build defaultDepth (.parse (tokenize
      "SELECT * FROM AS (SELECT * FROM (SELECT 1) x)"))
    ∃ a b root, [a, root] ∈ tree.paths ∧ [b, root] ∈ tree.paths ∧
      a.contains ⟨1, 36⟩ ∧ b.contains ⟨1, 36⟩ ∧
      ¬ ([a, root] <:+ tree.pathAt ⟨1, 36⟩ ∧ [b, root] <:+ tree.pathAt ⟨1, 36⟩) := by
  intro tree
  have hscope := fun r => exists_mem_paths_of_mem_found (p := ⟨1, 36⟩) (r := r) (tokenize
    "SELECT * FROM AS (SELECT * FROM (SELECT 1) x)") 31
  obtain ⟨a, ha, harange, hap⟩ :=
    hscope ⟨⟨1, 18⟩, ⟨1, 46⟩⟩ (by decide) (by decide) (by decide +kernel)
  obtain ⟨b, hb, hbrange, hbp⟩ :=
    hscope ⟨⟨1, 33⟩, ⟨1, 43⟩⟩ (by decide) (by decide) (by decide +kernel)
  refine ⟨a, b, _, ha, hb, hap, hbp, fun ⟨hasuffix, hbsuffix⟩ => ?_⟩
  have hsuffix := List.suffix_of_suffix_length_le hasuffix hbsuffix (Nat.le_refl 2)
  obtain ⟨rfl, -⟩ := List.cons.inj (hsuffix.eq_of_length rfl)
  exact absurd (harange.symm.trans hbrange) (by decide)

end ScopeTree

end Tsql
