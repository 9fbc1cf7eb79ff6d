import Tsql.Proofs.Resolve.Expansion
import Tsql.Proofs.Resolve.Owners

/-!
The lookups of a call.

A call of the resolver either asks the metadata itself (`Call.Asks`) or makes further calls, and its
lookups are those that are asked for on the way (`Call.exists_of_mem_lookups`). If the call answers, no
error has cut the way short, so everything that is asked for is looked up
(`Call.mem_lookups_of_reached`).
-/

namespace Tsql

namespace Traced

variable {α β : Type} {l : Lookup}

def Answers (x : Traced α) : Prop :=
  ∃ a, x.result = .ok a

/-- The first computation is a part of the second one: where this answers, it has answered, and its
lookups are among those of the second one. -/
def IsPartOf (x : Traced α) (y : Traced β) : Prop :=
  y.Answers → x.Answers ∧ x.lookups ⊆ y.lookups

theorem answers_map {f : α → β} {x : Traced α} : (x.map f).Answers ↔ x.Answers := by
  unfold Answers map
  cases x.result with
  | error e => simp [Except.map]
  | ok a => simp [Except.map]

theorem isPartOf_map (f : α → β) (x : Traced α) : x.IsPartOf (x.map f) :=
  fun h => ⟨answers_map.1 h, List.Subset.refl _⟩

theorem IsPartOf.trans {γ : Type} {x : Traced α} {y : Traced β} {z : Traced γ}
    (hxy : x.IsPartOf y) (hyz : y.IsPartOf z) : x.IsPartOf z := by
  intro hz
  obtain ⟨hy, hsub⟩ := hyz hz
  obtain ⟨hx, hsub'⟩ := hxy hy
  exact ⟨hx, List.Subset.trans hsub' hsub⟩

theorem isPartOf_each (f : α → Traced β) {as : List α} {a : α} (ha : a ∈ as) :
    (f a).IsPartOf (each f as) := by
  induction as with
  | nil => exact absurd ha List.not_mem_nil
  | cons b as ih =>
      unfold IsPartOf each andThen
      cases hb : (f b).result with
      | error e =>
          rintro ⟨bs, hbs⟩
          contradiction
      | ok b' =>
          intro h
          have hrest : (each f as).Answers := answers_map.1 h
          rcases List.mem_cons.1 ha with rfl | ha
          · exact ⟨⟨b', hb⟩, List.subset_append_left _ _⟩
          · obtain ⟨hanswers, hsub⟩ := ih ha hrest
            exact ⟨hanswers, List.Subset.trans hsub (List.subset_append_right _ _)⟩

theorem exists_of_mem_lookups_each {f : α → Traced β} {as : List α}
    (h : l ∈ (each f as).lookups) : ∃ a ∈ as, l ∈ (f a).lookups := by
  have hall : AllLookups (fun l => ∃ a ∈ as, l ∈ (f a).lookups) (each f as) :=
    .each fun a ha l hl => ⟨a, ha, hl⟩
  exact hall l h

variable {columns : TableRef → Traced (List ColumnRef)} {s : Statement} {c : ColumnRef}

theorem exists_of_mem_lookups_expand (h : l ∈ (expand columns s c).lookups) :
    ∃ t ∈ Resolver.itemTables s c, l ∈ (columns t).lookups := by
  unfold expand at h
  unfold Resolver.itemTables
  split
  · next hstar =>
    rw [if_pos hstar] at h
    exact exists_of_mem_lookups_each h
  · next hstar =>
    rw [if_neg hstar] at h
    split
    · next htyped =>
      rw [if_pos htyped] at h
      exact absurd h List.not_mem_nil
    · next htyped =>
      rw [if_neg htyped] at h
      cases ht : Resolver.columnTable? s c.source with
      | none =>
          rw [ht] at h
          exact absurd h List.not_mem_nil
      | some t =>
          rw [ht] at h
          exact ⟨t, List.mem_singleton_self t, h⟩

theorem isPartOf_expand {t : TableRef} (ht : t ∈ Resolver.itemTables s c) :
    (columns t).IsPartOf (expand columns s c) := by
  unfold Resolver.itemTables at ht
  unfold expand
  split
  · next hstar =>
    rw [if_pos hstar] at ht
    exact (isPartOf_each columns ht).trans (isPartOf_map _ _)
  · next hstar =>
    rw [if_neg hstar] at ht
    split
    · next htyped =>
      rw [if_pos htyped] at ht
      exact absurd ht List.not_mem_nil
    · next htyped =>
      rw [if_neg htyped] at ht
      rw [Option.mem_toList.1 ht]
      exact isPartOf_map _ _

end Traced

/-- Nothing but the metadata has columns for the table: there is no query behind it in the environment,
and it is neither a temporary table nor a function with columns of its own. -/
structure Environment.Misses (e : Environment) (t : TableRef) : Prop where
  derived : t.isDerived = false
  cte : t.isCte → e.findCte? t.name = none
  temp : t.isTemp = false
  function : t.isFunction → t.columns = []

namespace Resolver

namespace Call

open Traced

variable {r : Resolver} {call made : Call} {l : Lookup}

def traced (r : Resolver) : Call → Traced (List ColumnRef)
  | columns levels owner e t => r.tracedColumnsAt levels owner e t
  | output levels s e => r.tracedOutputAt levels s e

theorem result_traced (r : Resolver) (call : Call) : (call.traced r).result = call.result r := by
  cases call with
  | columns levels owner e t => exact r.result_tracedColumnsAt levels owner e t
  | output levels s e => exact r.result_tracedOutputAt levels s e

/-- The call is for the columns of a table, and asks the metadata for them. -/
inductive Asks (connection : Connection) : Call → Lookup → Prop
  | columns {levels : Nat} {owner : Statement} {e : Environment} {t : TableRef} (h : e.Misses t) :
      Asks connection (columns (levels + 1) owner e t) (.ofTable connection owner t)

/-! ### One call -/

theorem mem_lookups_of_asks (hsource : r.source.isSome) (h : call.Asks r.connection l) :
    l ∈ (call.traced r).lookups := by
  obtain ⟨source, hsource⟩ := Option.isSome_iff_exists.1 hsource
  cases h with
  | @columns levels owner e t h =>
      have hcte : (if t.isCte then e.findCte? t.name else none) = none := by
        split
        · next hcte => exact h.cte hcte
        · rfl
      have hfunction : ¬ (t.isFunction && !t.columns.isEmpty) := by
        intro hf
        obtain ⟨hf, hcolumns⟩ := Bool.and_eq_true_iff.1 hf
        rw [h.function hf] at hcolumns
        contradiction
      rw [traced, tracedColumnsAt, tracedColumnsWith, if_neg (by simp [h.derived]), hcte]
      simp [h.temp, hfunction, Traced.map, tracedLookup, hsource]

theorem asks_or_exists_of_mem_lookups_columns {levels : Nat} {owner : Statement} {e : Environment}
    {t : TableRef} (h : l ∈ ((columns (levels + 1) owner e t).traced r).lookups) :
    (columns (levels + 1) owner e t).Asks r.connection l ∨
      ∃ made, (columns (levels + 1) owner e t).Makes made ∧ l ∈ (made.traced r).lookups := by
  rw [traced, tracedColumnsAt, tracedColumnsWith] at h
  split at h
  · next hderived =>
    cases hq : t.subqueryIndex.bind fun i => owner.subqueries[i]? with
    | none =>
        rw [hq] at h
        exact absurd h List.not_mem_nil
    | some q =>
        rw [hq] at h
        exact .inr ⟨_, .derived hderived hq, h⟩
  next hderived =>
  have hderived : t.isDerived = false := by simpa using hderived
  cases hc : if t.isCte then e.findCte? t.name else none with
  | some c =>
      rw [hc] at h
      split at hc
      · next hcte => exact .inr ⟨_, .cte hderived hcte hc, h⟩
      · contradiction
  | none =>
      have hcte : t.isCte → e.findCte? t.name = none := by
        intro hmark
        rwa [if_pos hmark] at hc
      rw [hc] at h
      simp only [Traced.map] at h
      split at h
      · exact absurd h List.not_mem_nil
      next htemp =>
      split at h
      · exact absurd h List.not_mem_nil
      next hfunction =>
      -- the table is looked up in the catalog, if there is one
      unfold tracedLookup at h
      split at h
      · exact absurd h List.not_mem_nil
      · obtain rfl := List.mem_singleton.1 h
        exact .inl (.columns ⟨hderived, hcte, by simpa using htemp, by simpa using hfunction⟩)

/-- What a call looks up, it asks for or leaves to a call that it makes. -/
theorem asks_or_exists_of_mem_lookups (h : l ∈ (call.traced r).lookups) :
    call.Asks r.connection l ∨ ∃ made, call.Makes made ∧ l ∈ (made.traced r).lookups := by
  cases call with
  | columns levels owner e t =>
      cases levels with
      | zero => exact absurd h List.not_mem_nil
      | succ levels => exact asks_or_exists_of_mem_lookups_columns h
  | output levels s e =>
      cases levels with
      | zero => exact absurd h List.not_mem_nil
      | succ levels =>
          rw [traced, tracedOutputAt, Traced.map] at h
          obtain ⟨c, hc, hl⟩ := exists_of_mem_lookups_each h
          obtain ⟨t, ht, hl⟩ := exists_of_mem_lookups_expand hl
          exact .inr ⟨_, .item hc ht, hl⟩

theorem isPartOf_of_makes (r : Resolver) (h : call.Makes made) :
    (made.traced r).IsPartOf (call.traced r) := by
  cases h with
  | @derived levels owner e t q ht hq =>
      unfold Statement.queryOf? at hq
      rw [traced, traced, tracedColumnsAt, tracedColumnsWith, if_pos ht, hq]
      exact isPartOf_map _ _
  | @cte levels owner e t c ht hmark hc =>
      rw [traced, traced, tracedColumnsAt, tracedColumnsWith, if_neg (by simp [ht]), if_pos hmark, hc]
      exact isPartOf_map _ _
  | @item levels s e c t hc ht =>
      have heach := isPartOf_each
        (Traced.expand (r.tracedColumnsWith (r.tracedOutputAt levels) s e) s) hc
      exact ((isPartOf_expand ht).trans heach).trans (isPartOf_map _ _)

/-! ### All calls on the way -/

/-- What is looked up is asked for by a call on the way. -/
theorem exists_of_mem_lookups (r : Resolver) (call : Call) {l : Lookup}
    (h : l ∈ (call.traced r).lookups) :
    ∃ made, Relation.ReflTransGen Makes call made ∧ made.Asks r.connection l := by
  rcases asks_or_exists_of_mem_lookups h with hasks | ⟨made, hmade, hl⟩
  · exact ⟨call, .refl, hasks⟩
  · have := hmade.rank_lt
    obtain ⟨last, hway, hasks⟩ := exists_of_mem_lookups r made hl
    exact ⟨last, .head hmade hway, hasks⟩
termination_by call.rank

theorem isPartOf_of_reached (r : Resolver) (h : Relation.ReflTransGen Makes call made) :
    (made.traced r).IsPartOf (call.traced r) := by
  induction h with
  | refl => exact fun h => ⟨h, List.Subset.refl _⟩
  | tail _ hmade ih => exact (isPartOf_of_makes r hmade).trans ih

/-- Where a call answers, what is asked for on the way is looked up. -/
theorem mem_lookups_of_reached (hsource : r.source.isSome)
    (hfound : ∃ found, call.result r = .ok found) (hway : Relation.ReflTransGen Makes call made)
    (hasks : made.Asks r.connection l) : l ∈ (call.traced r).lookups := by
  rw [← result_traced] at hfound
  exact (isPartOf_of_reached r hway hfound).2 (mem_lookups_of_asks hsource hasks)

end Call

end Resolver

end Tsql
