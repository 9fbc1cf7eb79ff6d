import Mathlib.Data.List.TakeWhile
import Tsql.Text.Basic

/-!
Texts with blanks around them, and the parts of a text that was put together from parts.
-/

namespace Tsql.Text

section

variable {as bs cs : List Char}

/-! ### Trimming -/

theorem trimStart_eq_self (h : ∀ c ∈ cs.head?, isBlank c = false) : trimStart cs = cs := by
  cases cs with
  | nil => rfl
  | cons c cs => exact List.dropWhile_cons_of_neg (by simp [h c rfl])

theorem trimEnd_eq_self (h : ∀ c ∈ cs.getLast?, isBlank c = false) : trimEnd cs = cs := by
  have hreverse : trimStart cs.reverse = cs.reverse := trimStart_eq_self (by simpa using h)
  rw [trimEnd]
  exact (congrArg List.reverse hreverse).trans cs.reverse_reverse

theorem trim_eq_self (hhead : ∀ c ∈ cs.head?, isBlank c = false)
    (hlast : ∀ c ∈ cs.getLast?, isBlank c = false) : trim cs = cs := by
  rw [trim, trimStart_eq_self hhead, trimEnd_eq_self hlast]

theorem head_trimStart (cs : List Char) : ∀ c ∈ (trimStart cs).head?, isBlank c = false := by
  intro c hc
  have hnot := List.head?_dropWhile_not isBlank cs
  rw [← trimStart, Option.mem_def.1 hc] at hnot
  simpa using hnot

theorem last_trimEnd (cs : List Char) : ∀ c ∈ (trimEnd cs).getLast?, isBlank c = false := by
  intro c hc
  rw [trimEnd, List.getLast?_reverse] at hc
  exact head_trimStart cs.reverse c hc

/-- What is trimmed from the end is behind the first character that is left. -/
theorem trimEnd_isPrefix (cs : List Char) : trimEnd cs <+: cs := by
  have hsuffix := List.dropWhile_suffix isBlank (l := cs.reverse)
  rw [← List.reverse_prefix, List.reverse_reverse] at hsuffix
  exact hsuffix

/-- A trimmed text begins and ends with characters that are no blanks. -/
theorem ends_of_trim (h : trim cs = cs) :
    (∀ c ∈ cs.head?, isBlank c = false) ∧ ∀ c ∈ cs.getLast?, isBlank c = false := by
  constructor
  · intro c hc
    rw [← h, trim] at hc
    obtain ⟨more, hmore⟩ := trimEnd_isPrefix (trimStart cs)
    refine head_trimStart cs c ?_
    rw [← hmore, List.head?_append, Option.mem_def.1 hc]
    rfl
  · intro c hc
    rw [← h] at hc
    exact last_trimEnd _ c hc

theorem trimStart_blanks_append (h : ∀ c ∈ bs, isBlank c) (as : List Char) :
    trimStart (bs ++ as) = trimStart as :=
  List.dropWhile_append_of_pos h

theorem trim_blanks_append (h : ∀ c ∈ bs, isBlank c) (as : List Char) :
    trim (bs ++ as) = trim as := by
  rw [trim, trimStart_blanks_append h, trim]

theorem trimEnd_append_blanks (h : ∀ c ∈ bs, isBlank c) (as : List Char) :
    trimEnd (as ++ bs) = trimEnd as := by
  rw [trimEnd, List.reverse_append]
  exact congrArg List.reverse (trimStart_blanks_append (by simpa using h) as.reverse)

/-- Up to a character that is no blank nothing is trimmed from the end. -/
theorem trimEnd_append_cons {c : Char} (h : isBlank c = false) (as bs : List Char) :
    trimEnd (as ++ c :: bs) = as ++ c :: trimEnd bs := by
  rw [trimEnd, List.reverse_append, List.reverse_cons, List.append_assoc, List.dropWhile_append,
    trimEnd]
  split
  · next hnil =>
    rw [List.isEmpty_iff.1 hnil]
    simp [h]
  · simp

theorem trim_blanks (h : ∀ c ∈ bs, isBlank c) : trim bs = [] := by
  have hall := trim_blanks_append h []
  rwa [List.append_nil] at hall

theorem trim_append_blanks (h : ∀ c ∈ bs, isBlank c) (as : List Char) :
    trim (as ++ bs) = trim as := by
  rw [trim, trim]
  by_cases hblank : ∀ c ∈ as, isBlank c
  · have hall : ∀ c ∈ as ++ bs, isBlank c := fun c hc =>
      (List.mem_append.1 hc).elim (hblank c) (h c)
    exact (trim_blanks hall).trans (trim_blanks hblank).symm
  · have hsplit : trimStart (as ++ bs) = trimStart as ++ bs := by
      rw [trimStart, List.dropWhile_append, if_neg]
      · rfl
      · intro hnil
        exact hblank (List.dropWhile_eq_nil_iff.1 (List.isEmpty_iff.1 hnil))
    rw [hsplit, trimEnd_append_blanks h]

end

/-! ### Parts -/

theorem split_of_forall {p : Char → Bool} {cs : List Char} (h : ∀ d ∈ cs, p d = false) :
    split p cs = [cs] := by
  induction cs with
  | nil => rfl
  | cons c cs ih =>
      obtain ⟨hc, hcs⟩ := List.forall_mem_cons.1 h
      simp [split, hc, ih hcs]

theorem split_append_cons {p : Char → Bool} {c : Char} (h : p c) (as bs : List Char) :
    split p (as ++ c :: bs) = split p as ++ split p bs := by
  induction as with
  | nil => simp [split, h]
  | cons a as ih =>
      rw [List.cons_append, split, ih, split]
      cases hparts : split p as with
      | nil => exact absurd hparts (split_ne_nil p as)
      | cons part parts => split <;> rfl

theorem lines_append_lineFeed (as bs : List Char) :
    lines (as ++ '\n' :: bs) = lines as ++ lines bs :=
  split_append_cons (by decide) as bs

theorem lines_eq_singleton {cs : List Char} (h : '\n' ∉ cs) : lines cs = [cs] :=
  split_of_forall fun _ hd => decide_eq_false fun heq => h (heq ▸ hd)

theorem notMem_of_mem_lines {cs l : List Char} (h : l ∈ lines cs) : '\n' ∉ l := by
  induction cs generalizing l with
  | nil =>
      obtain rfl := List.mem_singleton.1 h
      exact List.not_mem_nil
  | cons c cs ih =>
      simp only [lines, split] at h ih
      cases hs : split (· = '\n') cs with
      | nil => exact absurd hs (split_ne_nil _ cs)
      | cons part parts =>
          rw [hs] at h ih
          split at h
          · rcases List.mem_cons.1 h with rfl | h
            · exact List.not_mem_nil
            · exact ih h
          · next hc =>
            rcases List.mem_cons.1 h with rfl | h
            · have hpart := ih List.mem_cons_self
              have hne : '\n' ≠ c := fun heq => hc (by simp [← heq])
              simp [hne, hpart]
            · exact ih (List.mem_cons_of_mem part h)

theorem lines_joinLines {ls : List (List Char)} (h : ∀ l ∈ ls, '\n' ∉ l) (hne : ls ≠ []) :
    lines (joinLines ls) = ls := by
  induction ls with
  | nil => contradiction
  | cons l ls ih =>
      obtain ⟨hl, hls⟩ := List.forall_mem_cons.1 h
      cases ls with
      | nil => exact lines_eq_singleton hl
      | cons l' ls =>
          have hjoin : joinLines (l :: l' :: ls) = l ++ '\n' :: joinLines (l' :: ls) := by
            simp [joinLines, joinWith]
          rw [hjoin, lines_append_lineFeed, lines_eq_singleton hl, ih hls (List.cons_ne_nil l' ls)]
          rfl

end Tsql.Text
