import Tsql.Proofs.Statement.Derived
import Tsql.Proofs.Statement.Outermost

/-!
Where the issues of a statement come from.

The issues of a list of common table expressions, of forward references, of further `FROM`s and of the
table lists are of different kinds, so the kind of an issue tells where it has been found: an `AS`
without a table in the sources (`aliasWithoutTable_mem_build`), and a recursive expression without
`UNION ALL` in the heading, for one of its expressions (`exists_of_recursiveCteWithoutUnionAll`).
-/

namespace Tsql

/-! ### Heading -/

namespace CteList

variable {nested : List Token → Statement} {ts : List Token} {i : Issue}

/-- The issue is about the expression: it has no body, or it is recursive without `UNION ALL`. -/
def IsAbout (i : Issue) (c : Cte) : Prop :=
  i.range.start = c.range.start ∧ (i.anomaly = .cteWithoutBody c.name ∨
    i.anomaly = .recursiveCteWithoutUnionAll c.name ∧ c.isRecursive)

theorem exists_isAbout_one {name : Token} (h : i ∈ (one nested name ts).issues) :
    ∃ c ∈ (one nested name ts).ctes, IsAbout i c := by
  rcases one_cases nested name ts with ⟨t, us, -, -, -, heq⟩ | ⟨us, -, heq⟩
  · rw [heq] at h ⊢
    simp only [withBody] at h ⊢
    split at h
    · next hissue =>
      obtain rfl := List.mem_singleton.1 h
      exact ⟨_, List.mem_singleton_self _, rfl, .inr ⟨rfl, (Bool.and_eq_true_iff.1 hissue).1⟩⟩
    · contradiction
  · rw [heq] at h ⊢
    obtain rfl := List.mem_singleton.1 h
    exact ⟨_, List.mem_singleton_self _, rfl, .inl rfl⟩

theorem exists_isAbout (h : i ∈ (ofTokens nested ts).issues) :
    ∃ c ∈ (ofTokens nested ts).ctes, IsAbout i c := by
  fun_induction ofTokens nested ts with
  | case1 => exact absurd h List.not_mem_nil
  | case2 name rest hname first comma more heq hcomma ih =>
      rcases List.mem_append.1 h with h | h
      · obtain ⟨c, hc, habout⟩ := exists_isAbout_one h
        exact ⟨c, List.mem_append_left _ hc, habout⟩
      · obtain ⟨c, hc, habout⟩ := ih h
        exact ⟨c, List.mem_append_right _ hc, habout⟩
  | case3 name rest hname => exact exists_isAbout_one h
  | case4 name rest hname => exact exists_isAbout_one h
  | case5 => exact absurd h List.not_mem_nil

theorem anomaly_forwardReferences {cs : List Cte} (h : i ∈ forwardReferences cs) :
    ∃ name later, i.anomaly = .cteForwardReference name later := by
  induction cs with
  | nil => exact absurd h List.not_mem_nil
  | cons c cs ih =>
      rcases List.mem_append.1 h with h | h
      · obtain ⟨l, -, rfl⟩ := List.mem_map.1 h
        exact ⟨_, _, rfl⟩
      · exact ih h

end CteList

theorem anomaly_duplicateFroms {seen : Bool} {rs : List Region} {i : Issue}
    (h : i ∈ duplicateFroms seen rs) : i.anomaly = .duplicateFrom := by
  induction rs generalizing seen with
  | nil => exact absurd h List.not_mem_nil
  | cons r rs ih =>
      unfold duplicateFroms at h
      split at h
      · exact ih h
      · exact ih h
      · split at h
        · rcases List.mem_append.1 h with h | h
          · split at h
            · obtain rfl := List.mem_singleton.1 h
              rfl
            · exact absurd h List.not_mem_nil
          · exact ih h
        · exact ih h
      · exact ih h

/-! ### Sources -/

section

variable {nested : List Token → Statement} {ts : List Token} {i : Issue}

/-- The kinds of issues that the sources of a statement may have. -/
def sourceAnomalies : List Anomaly :=
  [.aliasWithoutTable, .aliasWithoutExpression, .derivedTableWithoutAlias]

theorem anomaly_derivedTable {clause : Clause} {t : Token}
    (h : i ∈ (derivedTable nested clause t ts).2.1.issues) :
    i.anomaly = .derivedTableWithoutAlias := by
  unfold derivedTable at h
  dsimp only at h
  split at h
  · obtain rfl := List.mem_singleton.1 h
    rfl
  · exact absurd h List.not_mem_nil

theorem anomaly_selectIssues {items : List (List Token)} (h : i ∈ selectIssues items) :
    i.anomaly = .aliasWithoutExpression := by
  obtain ⟨item, -, hissue⟩ := List.mem_filterMap.1 h
  split at hissue
  · split at hissue
    · obtain rfl := Option.some.inj hissue
      rfl
    · contradiction
  · contradiction

theorem Sources.issues_append (a b : Sources) : (a ++ b).issues = a.issues ++ b.issues := rfl

theorem anomaly_tableList (clause : Clause) (ts : List Token) :
    ∀ i ∈ (tableList nested clause ts).issues, i.anomaly ∈ sourceAnomalies := by
  fun_induction tableList nested clause ts with
  | case1 => exact fun i hi => absurd hi List.not_mem_nil
  | case2 t rest _ ih => exact ih
  | case3 t rest _ _ ih => exact List.forall_mem_cons.2 ⟨List.mem_cons_self, ih⟩
  | case4 t rest _ _ _ ih => exact ih
  | case5 t rest _ _ _ _ group _ derived ih =>
      intro i hi
      rcases List.mem_append.1 hi with hi | hi
      · rw [Sources.issues_append, List.append_nil] at hi
        rw [anomaly_derivedTable hi]
        decide
      · exact ih i hi
  | case6 t rest _ _ _ _ group _ ihInner ihRest =>
      exact fun i hi => (List.mem_append.1 hi).elim (ihInner i) (ihRest i)
  | case7 t rest _ _ _ _ hname named ih => exact ih
  | case8 t rest _ _ _ _ _ ih => exact ih

theorem anomaly_targetTable (ts : List Token) :
    ∀ i ∈ (targetTable nested ts).2.issues, i.anomaly ∈ sourceAnomalies := by
  intro i hi
  unfold targetTable at hi
  split at hi
  · exact absurd hi List.not_mem_nil
  · split at hi
    · dsimp only at hi
      split at hi
      · rw [anomaly_derivedTable hi]
        decide
      · exact anomaly_tableList _ _ i hi
    · exact absurd hi List.not_mem_nil

theorem Sources.anomaly_ofRegions (seen : Bool) (rs : List Region) :
    ∀ i ∈ (ofRegions nested seen rs).issues, i.anomaly ∈ sourceAnomalies := by
  induction rs generalizing seen with
  | nil => exact fun i hi => absurd hi List.not_mem_nil
  | cons r rs ih =>
      intro i hi
      rcases List.mem_append.1 hi with hi | hi
      · split at hi
        · exact anomaly_targetTable _ i hi
        · split at hi
          · exact absurd hi List.not_mem_nil
          · rw [anomaly_selectIssues hi]
            decide
        · exact anomaly_tableList _ _ i hi
        · exact anomaly_tableList _ _ i hi
        · exact absurd hi List.not_mem_nil
      · exact ih _ i hi

/-! ### Statements -/

namespace Statement

theorem exists_isAbout_of_mem_heading (h : i ∈ (heading nested ts).issues) :
    ∃ c ∈ (build nested ts).ctes, CteList.IsAbout i c := by
  rw [ctes_build]
  unfold heading at h ⊢
  split
  · exact absurd h List.not_mem_nil
  · next first rest =>
    dsimp only at h
    split
    · next hwith =>
      rw [if_pos hwith] at h
      exact CteList.exists_isAbout h
    · next hwith =>
      rw [if_neg hwith] at h
      exact absurd h List.not_mem_nil

theorem issues_cons (first : Token) (rest : List Token) :
    (build nested (first :: rest)).issues =
      (if isBalanced (first :: rest) then []
        else [⟨.unbalancedParentheses, .ofTokens (first :: rest)⟩]) ++
      (heading nested (first :: rest)).issues ++
      CteList.forwardReferences (heading nested (first :: rest)).ctes ++
      duplicateFroms false (layout nested (first :: rest)).regions ++
      (found nested (first :: rest)).issues := rfl

theorem exists_of_mem_issues (h : i ∈ (build nested ts).issues) :
    i.anomaly = .unbalancedParentheses ∨ (∃ c ∈ (build nested ts).ctes, CteList.IsAbout i c) ∨
      (∃ name later, i.anomaly = .cteForwardReference name later) ∨ i.anomaly = .duplicateFrom ∨
        i ∈ (found nested ts).issues := by
  cases ts with
  | nil => exact absurd h List.not_mem_nil
  | cons first rest =>
      rw [issues_cons, List.mem_append, List.mem_append, List.mem_append, List.mem_append] at h
      rcases h with (((h | h) | h) | h) | h
      · split at h
        · exact absurd h List.not_mem_nil
        · obtain rfl := List.mem_singleton.1 h
          exact .inl rfl
      · exact .inr (.inl (exists_isAbout_of_mem_heading h))
      · exact .inr (.inr (.inl (CteList.anomaly_forwardReferences h)))
      · exact .inr (.inr (.inr (.inl (anomaly_duplicateFroms h))))
      · exact .inr (.inr (.inr (.inr h)))

/-- An `AS` without a table is found in the sources. -/
theorem aliasWithoutTable_mem_build {r : Range} :
    ⟨.aliasWithoutTable, r⟩ ∈ (build nested ts).issues ↔
      ⟨.aliasWithoutTable, r⟩ ∈ (found nested ts).issues := by
  refine ⟨fun h => ?_, fun h => issues_found_subset nested ts h⟩
  rcases exists_of_mem_issues h with hkind | ⟨c, -, -, hkind | ⟨hkind, -⟩⟩ | ⟨_, _, hkind⟩ | hkind | h
  all_goals first | contradiction | exact h

/-- A recursive expression without `UNION ALL` is one of the statement. -/
theorem exists_of_recursiveCteWithoutUnionAll {name : String} {r : Range}
    (h : ⟨.recursiveCteWithoutUnionAll name, r⟩ ∈ (build nested ts).issues) :
    ∃ c ∈ (build nested ts).ctes, c.name = name ∧ c.range.start = r.start ∧ c.isRecursive := by
  rcases exists_of_mem_issues h with
    hkind | ⟨c, hc, hstart, hkind | ⟨hkind, hrecursive⟩⟩ | ⟨_, _, hkind⟩ | hkind | h
  · contradiction
  · contradiction
  · exact ⟨c, hc, (Anomaly.recursiveCteWithoutUnionAll.inj hkind).symm, hstart.symm, hrecursive⟩
  · contradiction
  · contradiction
  · have hkind := Sources.anomaly_ofRegions _ _ _ h
    simp [sourceAnomalies] at hkind

end Statement

end

end Tsql
