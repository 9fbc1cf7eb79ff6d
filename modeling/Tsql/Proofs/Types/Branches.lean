import Mathlib.Data.List.Pairwise
import Tsql.Types.Check

/-!
Branches of a conditional expression agree just if any two of them compare without a warning.

Compatibility is not transitive, so neighbours or the first branch alone would not do. It is
symmetric, so neither the sides of a comparison (`checkFamilies_comm`) nor the order of the branches
(`checkBranches_perm`) matter.
-/

namespace Tsql

/-! ### Families -/

theorem checkFamilies_comm (a b : Option TypeFamily) : checkFamilies a b = checkFamilies b a := by
  cases a with
  | none => cases b <;> rfl
  | some f =>
      cases b with
      | none => rfl
      | some g => rw [checkFamilies, checkFamilies, f.isCompatible_comm g]

theorem checkFamilies_eq_noWarning_iff (a b : Option TypeFamily) :
    checkFamilies a b = .noWarning ↔ ∀ f ∈ a, ∀ g ∈ b, f.isCompatible g := by
  cases a with
  | none => simp [checkFamilies]
  | some f =>
      cases b with
      | none => simp [checkFamilies]
      | some g => simp [checkFamilies]

theorem pairwiseCompatible_iff (fs : List TypeFamily) :
    pairwiseCompatible fs ↔ fs.Pairwise fun f g => f.isCompatible g := by
  induction fs with
  | nil => simp [pairwiseCompatible]
  | cons f fs ih => simp [pairwiseCompatible, ih]

/-! ### Branches -/

theorem pairwiseCompatible_branches_iff (branches : List Operand) :
    pairwiseCompatible (branches.filterMap Operand.comparedFamily?) ↔
      branches.Pairwise fun a b => checkOperands a b = .noWarning := by
  rw [pairwiseCompatible_iff, List.pairwise_filterMap]
  simp only [checkOperands, checkFamilies_eq_noWarning_iff, Option.mem_def]

theorem pairwiseCompatible_perm {fs gs : List TypeFamily} (h : fs.Perm gs) :
    pairwiseCompatible fs = pairwiseCompatible gs := by
  rw [Bool.eq_iff_iff, pairwiseCompatible_iff, pairwiseCompatible_iff]
  exact h.pairwise_iff fun {f g} hfg => (f.isCompatible_comm g).symm.trans hfg

variable {kind : BranchKind} {branches branches' : List Operand}

theorem checkBranches_perm (h : branches.Perm branches') :
    checkBranches kind branches = checkBranches kind branches' := by
  rw [checkBranches, checkBranches, h.isEmpty_eq, h.length_eq,
    pairwiseCompatible_perm (h.filterMap Operand.comparedFamily?)]

/-- Where there may be as many branches, they agree or there is the warning of their kind. -/
theorem checkBranches_eq (hne : branches ≠ []) (hcount : ∀ n ∈ kind.arity?, branches.length = n) :
    checkBranches kind branches =
      if branches.Pairwise fun a b => checkOperands a b = .noWarning then .noWarning
      else .warning kind.warning := by
  have hempty : branches.isEmpty = false := by simpa using hne
  have harity : (kind.arity?.any fun n => n ≠ branches.length) = false := by
    cases hn : kind.arity? with
    | none => rfl
    | some n => simp [hcount n hn]
  simp only [checkBranches, hempty, harity, Bool.false_eq_true, if_false,
    pairwiseCompatible_branches_iff]

/-- Two operands are compared the same way in either order, and the branches of a conditional
expression by comparing any two of them, in any order of the branches. -/
theorem checkBranches_iff_checkOperands :
    (∀ (kind : BranchKind) (branches : List Operand), branches ≠ [] →
      (kind = .iif ∨ kind = .nullif → branches.length = 2) →
        (checkBranches kind branches = .noWarning ↔
          ∀ (i j : Nat) (_ : i < j) (_ : j < branches.length),
            checkOperands branches[i] branches[j] = .noWarning) ∧
        (checkBranches kind branches ≠ .noWarning → checkBranches kind branches =
          .warning (if kind = .caseWhen then .caseTypeInconsistency else .typeMismatch))) ∧
    (∀ (kind : BranchKind) (branches branches' : List Operand), branches.Perm branches' →
      checkBranches kind branches = checkBranches kind branches') ∧
    (∀ a b : String, checkTypes a b = checkTypes b a) ∧
    ∀ a b : Operand, checkOperands a b = checkOperands b a := by
  refine ⟨fun kind branches hne hcount => ?_, fun kind branches branches' => checkBranches_perm,
    fun a b => checkFamilies_comm _ _, fun a b => checkFamilies_comm _ _⟩
  have harity : ∀ n ∈ kind.arity?, branches.length = n := by
    cases kind <;> simp_all [BranchKind.arity?]
  have hwarning :
      kind.warning = if kind = .caseWhen then .caseTypeInconsistency else .typeMismatch := by
    cases kind <;> rfl
  have hpairs : (branches.Pairwise fun a b => checkOperands a b = .noWarning) ↔
      ∀ (i j : Nat) (_ : i < j) (_ : j < branches.length),
        checkOperands branches[i] branches[j] = .noWarning := by
    rw [List.pairwise_iff_getElem]
    exact ⟨fun h i j hij hj => h i j _ hj hij, fun h i j _ hj hij => h i j hij hj⟩
  rw [checkBranches_eq hne harity, hwarning, ← hpairs]
  split
  · next h => simp [h]
  · next h => simp [h]

/-- Bits go with binary data and binary data with characters, but bits do not go with characters. -/
theorem checkBranches_of_binary_between :
    let flag : Operand := { typeName := some "bit" }
    let bytes : Operand := { typeName := some "varbinary(8)" }
    let letters : Operand := { typeName := some "VARCHAR(3)" }
    checkBranches .iif [flag, bytes] = .noWarning ∧
      checkBranches .iif [bytes, letters] = .noWarning ∧
      checkBranches .caseWhen [flag, bytes, letters] = .warning .caseTypeInconsistency ∧
      checkBranches .caseWhen [bytes, letters, flag] = .warning .caseTypeInconsistency := by
  intro flag bytes letters
  have hnear : checkOperands flag bytes = .noWarning ∧
      checkOperands bytes letters = .noWarning := by decide +kernel
  have hfar : checkOperands flag letters ≠ .noWarning := by decide +kernel
  obtain ⟨hpairs, hperm, -⟩ := checkBranches_iff_checkOperands
  have hcase : checkBranches .caseWhen [flag, bytes, letters] =
      .warning .caseTypeInconsistency := by
    obtain ⟨hiff, hwarning⟩ := hpairs .caseWhen [flag, bytes, letters] (by simp) (by simp)
    exact hwarning (mt hiff.1 fun hall => hfar (hall 0 2 (by decide) (by decide)))
  have hpair : ∀ a b : Operand, checkOperands a b = .noWarning →
      checkBranches .iif [a, b] = .noWarning := by
    intro a b h
    refine (hpairs .iif [a, b] (by simp) (by simp)).1.2 fun i j hij hj => ?_
    obtain ⟨rfl, rfl⟩ : i = 0 ∧ j = 1 := by
      simp only [List.length_cons, List.length_nil] at hj
      omega
    exact h
  refine ⟨hpair flag bytes hnear.1, hpair bytes letters hnear.2, hcase, ?_⟩
  exact (hperm .caseWhen _ _ (@List.perm_append_comm _ [bytes, letters] [flag])).trans hcase

end Tsql
