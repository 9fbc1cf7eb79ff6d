import Tsql.Proofs.Statement.Query

/-!
References to common table expressions before and after they are marked.

Reading the tokens marks no reference (`isCte_of_mem_all_ofQuery`), so all marks come from
`Statement.markedIn`. A mark tells that the reference may mean an expression and that a visible name
is its name (`TableRef.isCte_markedIn`). In a list of expressions the body of each is marked with the
names in front of it (`Cte.getElem?_markedIn`).
-/

namespace Tsql

/-! ### No marks at first -/

theorem isCte_derivedTable {nested : List Token → Statement} {clause : Clause} {u : Token}
    {ts : List Token} {t : TableRef} (h : (derivedTable nested clause u ts).1 = some t) :
    t.isCte = false := by
  obtain ⟨name, -, rfl⟩ := Option.map_eq_some_iff.1 h
  rfl

namespace Sources

/-- No table is marked. -/
def Unmarked (found : Sources) : Prop :=
  ∀ t ∈ found.tables, t.isCte = false

variable {a b : Sources}

theorem unmarked_of_nil (h : a.tables = []) : a.Unmarked := by
  intro t ht
  rw [h] at ht
  exact absurd ht List.not_mem_nil

theorem Unmarked.append (ha : a.Unmarked) (hb : b.Unmarked) : (a ++ b).Unmarked := by
  intro t ht
  rcases List.mem_append.1 ht with ht | ht
  · exact ha t ht
  · exact hb t ht

end Sources

section

variable (nested : List Token → Statement)

theorem unmarked_tableList (clause : Clause) (ts : List Token) :
    (tableList nested clause ts).Unmarked := by
  fun_induction tableList nested clause ts with
  | case1 => exact Sources.unmarked_of_nil rfl
  | case2 t rest _ ih => exact ih
  | case3 t rest _ _ ih => exact (Sources.unmarked_of_nil rfl).append ih
  | case4 t rest _ _ _ ih => exact ih
  | case5 t rest _ _ _ _ group _ derived ih =>
      refine ((Sources.unmarked_of_nil rfl).append fun u hu => ?_).append ih
      exact isCte_derivedTable (Option.mem_toList.1 hu)
  | case6 t rest _ _ _ _ group _ ihInner ihRest => exact ihInner.append ihRest
  | case7 t rest _ _ _ _ hname named ih =>
      refine Sources.Unmarked.append (fun u hu => ?_) ih
      exact (isNamed_namedTable (Option.mem_toList.1 hu)).isCte
  | case8 t rest _ _ _ _ _ ih => exact ih

theorem unmarked_targetTable (ts : List Token) :
    (∀ t, (targetTable nested ts).1 = some t → t.isCte = false) ∧
      (targetTable nested ts).2.Unmarked := by
  unfold targetTable
  split
  · exact ⟨by simp, Sources.unmarked_of_nil rfl⟩
  · split
    · dsimp only
      split
      · next t rest _ _ _ =>
        have hderived : ∀ u, (derivedTable nested .target t rest).1 = some u → u.isCte = false :=
          fun u hu => isCte_derivedTable hu
        exact ⟨hderived, Sources.unmarked_of_nil rfl⟩
      · exact ⟨by simp, unmarked_tableList nested _ _⟩
    · exact ⟨fun t ht => (isNamed_namedTable ht).isCte, Sources.unmarked_of_nil rfl⟩

theorem Sources.unmarked_ofRegions (seen : Bool) (rs : List Region) :
    (Sources.ofRegions nested seen rs).Unmarked := by
  induction rs generalizing seen with
  | nil => exact unmarked_of_nil rfl
  | cons r rs ih =>
      refine Unmarked.append ?_ (ih _)
      split
      · exact (unmarked_targetTable nested _).2
      · split <;> exact unmarked_of_nil rfl
      · exact unmarked_tableList nested _ _
      · exact unmarked_tableList nested _ _
      · exact unmarked_of_nil rfl

theorem Region.isCte_target? {rs : List Region} {t : TableRef}
    (h : Region.target? nested rs = some t) : t.isCte = false := by
  obtain ⟨r, -, ht⟩ := Option.bind_eq_some_iff.1 h
  exact (unmarked_targetTable nested r.tail).1 t ht

end

/-- The table of a statement about an object is read as a name. -/
theorem ObjectHead.exists_tableName {kind : StatementKind} {body : List Token} {t : TableRef}
    (h : (ofBody kind body).table = some t) : ∃ ts, (tableName ts).1 = some t := by
  have hnamed : (ofNamed body).table = some t → ∃ ts, (tableName ts).1 = some t := by
    intro ht
    unfold ofNamed at ht
    split at ht
    · split at ht
      · split at ht
        · split at ht <;> exact ⟨_, ht⟩
        · exact ⟨_, ht⟩
      · contradiction
    · contradiction
  cases kind with
  | createTable =>
      rw [ofBody] at h
      unfold ofCreate at h
      split at h
      · contradiction
      · split at h
        · contradiction
        · next table rest heq =>
          have htable : table = t := by
            split at h
            · exact Option.some.inj h
            · split at h <;> exact Option.some.inj h
          exact ⟨_, htable ▸ congrArg Prod.fst heq⟩
  | truncate => exact hnamed h
  | drop => exact hnamed h
  | alter => exact hnamed h
  | _ => contradiction

theorem ObjectHead.isCte_ofBody {kind : StatementKind} {body : List Token} {t : TableRef}
    (h : (ofBody kind body).table = some t) : t.isCte = false := by
  obtain ⟨ts, ht⟩ := exists_tableName h
  exact (isNamed_tableName ht).isCte

theorem mem_of_mem_placeTarget {kind : StatementKind} {target : Option TableRef}
    {tables : List TableRef} {t : TableRef} (h : t ∈ placeTarget kind target tables) :
    target = some t ∨ t ∈ tables := by
  unfold placeTarget at h
  split at h
  · exact .inr h
  · next u =>
    dsimp only at h
    split at h
    · rcases List.mem_append.1 h with h | h
      · exact .inr (List.mem_of_getElem? (Option.mem_toList.1 h))
      · exact .inr (List.mem_of_mem_eraseIdx h)
    · rcases List.mem_cons.1 h with rfl | h
      · exact .inl rfl
      · exact .inr h

@[simp] theorem TableRef.isCte_linkedIn (subqueries : List Subquery) (t : TableRef) :
    (t.linkedIn subqueries).isCte = t.isCte := by
  unfold linkedIn; split <;> rfl

namespace Statement

theorem isCte_build (nested : List Token → Statement) (ts : List Token) :
    ∀ t ∈ (build nested ts).tables, t.isCte = false := by
  cases ts with
  | nil => simp [build]
  | cons first rest =>
      intro t ht
      simp only [build, linkDerived_eq] at ht
      obtain ⟨u, hu, rfl⟩ := List.mem_map.1 ht
      rw [TableRef.isCte_linkedIn]
      rcases mem_of_mem_placeTarget hu with htarget | hu
      · exact Region.isCte_target? nested htarget
      · rcases List.mem_append.1 hu with hu | hu
        · exact Sources.unmarked_ofRegions nested _ _ u hu
        · exact ObjectHead.isCte_ofBody (Option.mem_toList.1 hu)

theorem isCte_of_mem_all_ofQuery (levels : Nat) (ts : List Token) :
    ∀ n ∈ (build (ofQuery levels) ts).all, ∀ t ∈ n.tables, t.isCte = false := by
  refine forall_all_build isCte_build (forall_all_ofQuery isCte_build ?_ levels) ts
  intro range t ht
  exact absurd ht List.not_mem_nil

end Statement

/-! ### Marking -/

namespace TableRef

variable (visible : List String) (t : TableRef)

@[simp] theorem name_markedIn : (t.markedIn visible).name = t.name := by
  unfold markedIn; split <;> rfl

@[simp] theorem mayBeCte_markedIn : (t.markedIn visible).mayBeCte = t.mayBeCte := by
  unfold markedIn; split <;> rfl

theorem isCte_markedIn {t : TableRef} (h : t.isCte = false) :
    (t.markedIn visible).isCte ↔ t.mayBeCte ∧ ∃ name ∈ visible, Ident.same name t.name := by
  unfold markedIn
  split
  · next hmark =>
    rw [Bool.and_eq_true, List.any_eq_true] at hmark
    simpa using hmark
  · next hmark =>
    rw [Bool.and_eq_true, List.any_eq_true] at hmark
    simpa [h] using hmark

end TableRef

/-- In a list the body of an expression is marked with the names in front of it. -/
theorem Cte.getElem?_markedIn (visible : List String) (cs : List Cte) (i : Nat) :
    (Cte.markedIn visible cs)[i]? = cs[i]?.map fun c =>
      let names := visible ++ (cs.take i).map Cte.name
      { c with body := c.body.markedIn (c.namesInBody names) } := by
  induction cs generalizing visible i with
  | nil => simp [Cte.markedIn]
  | cons c cs ih =>
      rw [Cte.markedIn]
      cases i with
      | zero => simp
      | succ i => simp [ih]

theorem Cte.map_name_markedIn (visible : List String) (cs : List Cte) :
    (Cte.markedIn visible cs).map Cte.name = cs.map Cte.name := by
  induction cs generalizing visible with
  | nil => simp [Cte.markedIn]
  | cons c cs ih => simp [Cte.markedIn, ih]

namespace Statement

variable (visible : List String) (s : Statement)

theorem tables_markedIn :
    (s.markedIn visible).tables =
      s.tables.map (TableRef.markedIn (visible ++ s.ctes.map Cte.name)) := by
  rw [markedIn]

theorem ctes_markedIn : (s.markedIn visible).ctes = Cte.markedIn visible s.ctes := by
  rw [markedIn]

end Statement

end Tsql
