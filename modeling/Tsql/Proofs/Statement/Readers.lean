import Tsql.Proofs.Token.Queries
import Tsql.Statement.Source

/-!
What the readers of table lists leave, and what kind of table they read.

A reader of a name, an alias, a hint or the like steps over tokens outside groups and over whole groups
(`Skips`), so it leaves the end of the tokens that it was given. A table that is read as a name is no
derived table (`isNamed_namedTable`).
-/

namespace Tsql

namespace Token

theorem isOpen_of_isName {t : Token} (h : t.isName) : t.isOpen = false := by
  rcases Bool.or_eq_true_iff.1 h with hkind | hkind <;>
    simp [isOpen, of_decide_eq_true hkind]

theorem of_isName {t : Token} (h : t.isName) : t.isOpen = false ∧ ∀ word, t.kind ≠ .keyword word := by
  refine ⟨isOpen_of_isName h, fun word hkind => ?_⟩
  simp [isName, hkind] at h

theorem isOpen_of_isKeyword {t : Token} {word : Keyword} (h : t.isKeyword word) :
    t.isOpen = false := by
  simp [isOpen, of_decide_eq_true h]

theorem isOpen_of_isAnyKeyword {t : Token} {words : List Keyword} (h : t.isAnyKeyword words) :
    t.isOpen = false := by
  unfold isAnyKeyword at h
  split at h
  · next hkind => simp [isOpen, hkind]
  · contradiction

end Token

/-! ### What is left -/

theorem skips_nameTail (ts : List Token) : Skips ts (nameTail ts).2 := by
  fun_induction nameTail ts with
  | case1 => exact .refl _
  | case2 t hdot => exact .nil _
  | case3 t hdot u rest hname ih =>
      exact .token (by simp [Token.isOpen, hdot]) (.token (Token.isOpen_of_isName hname) ih)
  | case4 t hdot u rest hname hdot' ih => exact .token (by simp [Token.isOpen, hdot]) ih
  | case5 t hdot u rest hname hdot' => exact .token (by simp [Token.isOpen, hdot]) (.refl _)
  | case6 t ts hdot => exact .refl _

theorem skips_tableName (ts : List Token) : Skips ts (tableName ts).2 := by
  unfold tableName
  split
  · exact .refl _
  · split
    · next t ts hname => exact .token (Token.isOpen_of_isName hname) (skips_nameTail ts)
    · exact .refl _

theorem skips_tableAlias (ts : List Token) : Skips ts (tableAlias ts).2 := by
  unfold tableAlias
  split
  · exact .refl _
  · next t ts =>
    split
    · next has =>
      refine .token (Token.isOpen_of_isKeyword has) ?_
      split
      · next a rest =>
        split
        · next hname => exact .token (Token.isOpen_of_isName hname) (.refl _)
        · split
          · next hquoted => exact .token (by simp [Token.isOpen, hquoted]) (.refl _)
          · exact .refl _
      · exact .refl _
    · split
      · next hname => exact .token (Token.isOpen_of_isName hname) (.refl _)
      · exact .refl _

/-- A group is stepped over as a whole. -/
theorem skips_startsOpen {ts : List Token} (h : startsOpen ts) : Skips ts (Group.after ts.tail).rest := by
  cases ts with
  | nil => simp [startsOpen] at h
  | cons t ts => exact .group h (.refl _)

theorem skips_skipHints (ts : List Token) : Skips ts (skipHints ts) := by
  fun_induction skipHints ts with
  | case1 => exact .refl _
  | case2 t rest hwith ih =>
      obtain ⟨hkeyword, hopen⟩ := Bool.and_eq_true_iff.1 hwith
      exact .token (Token.isOpen_of_isKeyword hkeyword) ((skips_startsOpen hopen).trans ih)
  | case3 t rest _ hhints ih => exact .group (Bool.and_eq_true_iff.1 hhints).1 ih
  | case4 => exact .refl _

theorem skips_skipCondition (ts : List Token) : Skips ts (skipCondition ts) := by
  fun_induction skipCondition ts with
  | case1 => exact .refl _
  | case2 t rest hopen ih => exact .group hopen ih
  | case3 => exact .refl _
  | case4 t rest hopen _ ih => exact .token (by simpa using hopen) ih

theorem skips_columnNames (ts : List Token) : Skips ts (columnNames ts).2 := by
  unfold columnNames
  split
  · exact .refl _
  · split
    · next hopen => exact .group hopen (.refl _)
    · exact .refl _

theorem skips_callArguments {ts rest : List Token} (h : callArguments ts = some rest) :
    Skips ts rest := by
  unfold callArguments at h
  split at h
  · contradiction
  · split at h
    · next hcall =>
      obtain rfl := Option.some.inj h
      exact .group (Bool.and_eq_true_iff.1 hcall).1 (.refl _)
    · contradiction

theorem skips_namedTable (ts : List Token) : Skips ts (namedTable ts).2 := by
  have hname := skips_tableName ts
  unfold namedTable
  split
  · next rest heq => rwa [heq] at hname
  · next table rest heq =>
    rw [heq] at hname
    have hcall : Skips rest ((callArguments rest).getD rest) := by
      cases hc : callArguments rest with
      | none => exact .refl _
      | some r => exact skips_callArguments hc
    have halias := (hname.trans hcall).trans ((skips_skipHints _).trans (skips_tableAlias _))
    refine Skips.trans ?_ (skips_skipHints _)
    split
    · exact halias.trans (skips_columnNames _)
    · exact halias

theorem skips_derivedTable (nested : List Token → Statement) (clause : Clause) (t : Token)
    (ts : List Token) : Skips (Group.after ts).rest (derivedTable nested clause t ts).2.2 := by
  have halias := skips_tableAlias (Group.after ts).rest
  unfold derivedTable
  dsimp only
  split
  · exact halias.trans (skips_columnNames _)
  · exact halias

theorem skips_behindPivot (ts : List Token) : Skips ts (behindPivot ts) := by
  unfold behindPivot
  split
  · next hopen => exact (skips_startsOpen hopen).trans (skips_tableAlias _)
  · exact .nil _

theorem skips_skipRowCount (ts : List Token) : Skips ts (skipRowCount ts) := by
  unfold skipRowCount
  split
  · exact .refl _
  · next t rest =>
    split
    · next hopen => exact .group hopen (.refl _)
    · next hopen =>
      split
      · exact .token (by simpa using hopen) (.refl _)
      · exact .refl _

theorem skips_skipTargetWords (ts : List Token) : Skips ts (skipTargetWords ts) := by
  fun_induction skipTargetWords ts with
  | case1 => exact .refl _
  | case2 t rest hword ih => exact .token (Token.isOpen_of_isAnyKeyword hword) ih
  | case3 t rest _ htop ih =>
      exact .token (Token.isOpen_of_isKeyword htop) ((skips_skipRowCount rest).trans ih)
  | case4 => exact .refl _

/-! ### What the tables are -/

theorem TableRef.range_ofParts (parts : List String) (range : Range) :
    (ofParts parts range).range = range := by
  rw [ofParts]
  split <;> rfl

namespace Range

theorem start_taken {t : Token} {ts rest : List Token} (h : rest.length ≤ ts.length) :
    (Range.taken (t :: ts) rest).start = t.start := by
  have htake : (t :: ts).length - rest.length = ts.length - rest.length + 1 := by
    simp only [List.length_cons]
    omega
  rw [Range.taken, htake, List.take_succ_cons, Range.ofTokens_cons]

end Range

namespace Sources

theorem tables_append (a b : Sources) : (a ++ b).tables = a.tables ++ b.tables := rfl

section

variable (more : Nat) (found : Sources)

@[simp] theorem tables_inFrontOf : (found.inFrontOf more).tables = found.tables := rfl

@[simp] theorem subqueries_inFrontOf : (found.inFrontOf more).subqueries = found.subqueries := rfl

@[simp] theorem issues_inFrontOf : (found.inFrontOf more).issues = found.issues := rfl

end

end Sources

theorem TableRef.isTemp_iff (t : TableRef) : t.isTemp ↔ t.name.toList.head? = some '#' := by
  unfold isTemp TempKind.ofName?
  split
  · next heq => simp [heq]
  · next heq => simp [heq]
  · next hne =>
    refine iff_of_false Bool.false_ne_true fun hhead => ?_
    obtain ⟨cs, heq⟩ := List.head?_eq_some_iff.1 hhead
    exact hne cs heq

/-- The table is read as a name: it is no derived table, and nothing has been marked or linked yet. -/
structure TableRef.IsNamed (t : TableRef) : Prop where
  isDerived : t.isDerived = false
  isCte : t.isCte = false
  subqueryIndex : t.subqueryIndex = none

theorem isNamed_tableName {ts : List Token} {t : TableRef} (h : (tableName ts).1 = some t) :
    t.IsNamed := by
  unfold tableName at h
  split at h
  · contradiction
  · split at h
    · obtain ⟨parts, -, rfl⟩ := Option.map_eq_some_iff.1 h
      unfold TableRef.ofParts
      split <;> exact ⟨rfl, rfl, rfl⟩
    · contradiction

theorem isNamed_namedTable {ts : List Token} {t : TableRef} (h : (namedTable ts).1 = some t) :
    t.IsNamed := by
  unfold namedTable at h
  split at h
  · contradiction
  · next table rest heq =>
    obtain ⟨hderived, hcte, hindex⟩ : table.IsNamed := isNamed_tableName (congrArg Prod.fst heq)
    obtain rfl := Option.some.inj h
    exact ⟨hderived, hcte, hindex⟩

end Tsql
