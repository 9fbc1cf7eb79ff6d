import Tsql.Text.Basic

/-!
Names as SQL compares them: without regard to ASCII letter case, and `[name]` or `"name"` is the
same object as `name`.
-/

namespace Tsql.Ident

/-- Removes one level of quotes from a text that both starts and ends with them. -/
def unquoted : List Char → List Char
  | [] => []
  | [c] => [c]
  | c :: d :: rest =>
    let last := (d :: rest).getLast (List.cons_ne_nil d rest)
    if (c = '[' ∧ last = ']') ∨ (c = '"' ∧ last = '"') then (d :: rest).dropLast
    else c :: d :: rest

/-- The name without blanks around it and without its quotes. Doubled delimiters inside stay. -/
def bare (name : String) : String :=
  String.ofList (unquoted (Text.trim name.toList))

/-- Whether two names denote the same object. -/
def same (a b : String) : Bool :=
  Text.sameFolded (bare a).toList (bare b).toList

@[simp] theorem same_refl (a : String) : same a a := by
  simp [same]

theorem same_comm (a b : String) : same a b = same b a := by
  simp [same, Text.sameFolded_comm]

theorem same_trans {a b c : String} (h₁ : same a b) (h₂ : same b c) : same a c := by
  simp_all [same, Text.sameFolded]

theorem same_congr {a b : String} (h : same a b) (c : String) : same c a = same c b := by
  rw [Bool.eq_iff_iff]
  exact ⟨fun hc => same_trans hc h, fun hc => same_trans hc ((same_comm b a).trans h)⟩

/-- Equality up to ASCII letter case, for words that are not names. -/
def sameWord (a b : String) : Bool :=
  Text.sameFolded a.toList b.toList

end Tsql.Ident
