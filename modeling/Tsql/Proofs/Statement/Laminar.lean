import Tsql.Proofs.Statement.Siblings

/-!
The places of the queries in a statement, at every level.

What is nested in a statement lies in it, what is nested in a query lies between its parentheses, and
two queries next to each other are apart (`Statement.Laminar`), unless one of them has been entered by
mistake (`Range.Entered`). Each statement that describes ordered tokens is like that, and so is what is
nested in it at any depth (`Statement.Describes.laminar`).
-/

namespace Tsql

/-- The inner range lies in the outer one, whose parenthesis stands directly behind an `AS` that is
reported. -/
def Range.Entered (issues : List Issue) (ts : List Token) (outer inner : Range) : Prop :=
  inner.Within outer ∧ ∃ a t, [a, t] <:+: ts ∧ ⟨.aliasWithoutTable, a.range⟩ ∈ issues ∧
    outer.start = t.start

/-- The ranges are apart, or one of them has been entered and the other one found in it. -/
def Range.Separate (issues : List Issue) (ts : List Token) (r s : Range) : Prop :=
  r.Apart s ∨ r.Entered issues ts s ∨ s.Entered issues ts r

theorem Range.Separate.symm {issues : List Issue} {ts : List Token} {r s : Range}
    (h : r.Separate issues ts s) : s.Separate issues ts r :=
  h.imp Apart.symm Or.symm

theorem Cte.map_range_markedIn (visible : List String) (cs : List Cte) :
    (Cte.markedIn visible cs).map Cte.range = cs.map Cte.range := by
  induction cs generalizing visible with
  | nil => rw [Cte.markedIn]
  | cons c cs ih => rw [Cte.markedIn, List.map_cons, List.map_cons, ih]

namespace Statement

/-- The queries nested directly in a statement lie in its range. What is nested in them lies between
their parentheses, and they are separate. -/
structure Laminar (s : Statement) (ts : List Token) : Prop where
  within : ∀ p ∈ s.places, p.1.Within s.range
  inside : ∀ p ∈ s.places,
    p.2.nested = [] ∨ p.1.start < p.2.range.start ∧ p.2.range.stop ≤ p.1.stop
  separate : (s.places.map Prod.fst).Pairwise (Range.Separate s.issues ts)

section

variable {nested : List Token → Statement} {ts : List Token}

theorem separate_subqueries_build (h : IsOrdered ts) :
    ((build nested ts).subqueries.map Subquery.range).Pairwise
      (Range.Separate (build nested ts).issues ts) := by
  have hperm := (perm_subqueries_build nested ts).map Subquery.range
  rw [hperm.pairwise_iff Range.Separate.symm, List.map_append]
  refine List.pairwise_append.2 ⟨List.pairwise_map.2 ?_, List.pairwise_map.2 ?_, ?_⟩
  · exact (pairwise_found h).imp fun hle => .inl (.inl hle)
  · exact (pairwise_expressions h).imp fun hle => .inl (.inl hle)
  intro r hr r' hr'
  obtain ⟨b, hb, rfl⟩ := List.mem_map.1 hr
  obtain ⟨a, ha, rfl⟩ := List.mem_map.1 hr'
  rcases apart_or_steppedInto h ha hb with hapart | ⟨hwithin, span, hspan, hinto⟩
  · exact .inl hapart.symm
  · obtain ⟨u, t, rest, rfl, hbehind, hissue⟩ := hinto
    refine .inr (.inr ⟨hwithin, u, t, hbehind, issues_found_subset nested ts hissue, ?_⟩)
    rw [hspan, Range.ofTokens_cons]

theorem separate_places_build (h : IsOrdered ts) :
    ((build nested ts).places.map Prod.fst).Pairwise
      (Range.Separate (build nested ts).issues ts) := by
  rw [places, List.map_append, List.map_map, List.map_map]
  refine List.pairwise_append.2 ⟨?_, separate_subqueries_build h, ?_⟩
  · rw [ctes_build]
    exact List.pairwise_map.2 ((pairwise_heading h).imp fun hle => .inl (.inl hle))
  · intro r hr r' hr'
    obtain ⟨c, hc, rfl⟩ := List.mem_map.1 hr
    obtain ⟨q, hq, rfl⟩ := List.mem_map.1 hr'
    exact .inl (apart_ctes_subqueries h hc hq)

theorem nested_ofQuery_of_nil (levels : Nat) (h : unwrapped ts = []) :
    (ofQuery levels ts).nested = [] := by
  cases levels with
  | zero => rfl
  | succ levels => rw [ofQuery, h]; rfl

theorem inside_of_readsQuery {levels : Nat} {range : Range} {body : Statement}
    (h : IsOrdered ts) (hreads : ReadsQuery (ofQuery levels) range body ts) :
    body.nested = [] ∨ range.start < body.range.start ∧ body.range.stop ≤ range.stop := by
  obtain ⟨front, t, us, -, rfl, rfl, rfl⟩ := hreads
  by_cases hnil : unwrapped (Group.after us).inner = []
  · exact .inl (nested_ofQuery_of_nil levels hnil)
  · have hin := isInfix_unwrapped (Group.after us).inner
    have hspan := hin.trans (Group.inner_isInfix_cons front t us)
    obtain ⟨u, hu, hstart⟩ := Range.exists_start_ofTokens hnil
    have hgroup := (List.pairwise_append.1 h.pairwise).2.1
    have hle : t.stop ≤ u.start :=
      (List.pairwise_cons.1 hgroup).1 u (List.mem_append_left _ (hin.subset hu))
    have ht : t ∈ front ++ t :: (Group.after us).tokens := by simp
    rw [(describes_ofQuery levels _).range_eq, hstart]
    refine .inr ⟨?_, (h.within hspan.subset hnil).2⟩
    exact Position.lt_of_le_of_lt (h.start_le_of_mem ht)
      (Position.lt_of_lt_of_le (h.start_lt_stop t ht) hle)

theorem laminar_build (levels : Nat) (h : IsOrdered ts) : (build (ofQuery levels) ts).Laminar ts where
  within p hp := by
    obtain ⟨span, hin, hne, hrange, -⟩ := exists_of_mem_places_build hp
    rw [hrange, range_build]
    exact h.within hin.subset hne
  inside p hp := by
    obtain ⟨span, hin, -, -, hempty | hreads⟩ := exists_of_mem_places_build hp
    · rw [hempty]
      exact .inl rfl
    · exact inside_of_readsQuery (h.mono hin) hreads
  separate := separate_places_build h

end

theorem nested_markedIn_eq_nil {s : Statement} (h : s.nested = []) (names : List String) :
    (s.markedIn names).nested = [] := by
  refine List.eq_nil_iff_forall_not_mem.2 fun n hn => ?_
  obtain ⟨m, hm, -⟩ := exists_of_mem_nested_markedIn hn
  exact absurd (h ▸ hm) List.not_mem_nil

theorem range_markedIn (names : List String) (s : Statement) :
    (s.markedIn names).range = s.range := by
  rw [markedIn]

theorem map_fst_places_markedIn (names : List String) (s : Statement) :
    (s.markedIn names).places.map Prod.fst = s.places.map Prod.fst := by
  rw [markedIn, places, places]
  simp [Cte.map_range_markedIn, Function.comp_def]

theorem Laminar.markedIn {s : Statement} {ts : List Token} (h : s.Laminar ts)
    (names : List String) : (s.markedIn names).Laminar ts where
  within p hp := by
    obtain ⟨m, _, hm, -⟩ := exists_of_mem_places_markedIn hp
    rw [range_markedIn]
    exact h.within (p.1, m) hm
  inside p hp := by
    obtain ⟨m, names', hm, heq⟩ := exists_of_mem_places_markedIn hp
    rw [heq, range_markedIn]
    exact (h.inside (p.1, m) hm).imp_left fun hnil => nested_markedIn_eq_nil hnil names'
  separate := by
    rw [map_fst_places_markedIn, Statement.markedIn]
    exact h.separate

theorem Describes.laminar {s : Statement} {ts : List Token} (h : Describes s ts)
    (hts : IsOrdered ts) : s.Laminar ts := by
  induction h with
  | built levels ts => exact laminar_build levels hts
  | placed ts => exact ⟨by simp [places], by simp [places], .nil⟩
  | marked _ names ih => exact (ih hts).markedIn names

end Statement

end Tsql
