import Tsql.Text.Basic

/-!
The words of a text, texts of words with blanks between them, and words that spell a keyword in any
letter case.
-/

namespace Tsql.Text

/-! ### Words -/

@[simp] theorem words_nil : words [] = [] := rfl

theorem words_cons_blank {c : Char} (h : isBlank c) (cs : List Char) :
    words (c :: cs) = words cs := by
  simp [words, split, h]

theorem split_append_solid {w rest : List Char} (hw : ∀ d ∈ w, isBlank d = false)
    (hrest : ∀ d ∈ rest.head?, isBlank d) :
    split isBlank (w ++ rest) = w :: (split isBlank rest).tail := by
  induction w with
  | nil =>
      cases rest with
      | nil => rfl
      | cons d rest => simp [split, hrest d rfl]
  | cons c w ih =>
      obtain ⟨hc, hw⟩ := List.forall_mem_cons.1 hw
      rw [List.cons_append, split, ih hw, hc]
      rfl

theorem words_append_solid {w rest : List Char} (hne : w ≠ []) (hw : ∀ d ∈ w, isBlank d = false)
    (hrest : ∀ d ∈ rest.head?, isBlank d) : words (w ++ rest) = w :: words rest := by
  have hparts : (split isBlank rest).filter (!·.isEmpty) =
      (split isBlank rest).tail.filter (!·.isEmpty) := by
    cases rest with
    | nil => rfl
    | cons d rest => simp [split, hrest d rfl]
  have hsome : (!w.isEmpty) = true := by simpa using hne
  rw [words, split_append_solid hw hrest, List.filter_cons, if_pos hsome, words, hparts]

/-- The words with blanks between them. -/
inductive Spaced : List (List Char) → List Char → Prop
  | last (w : List Char) : Spaced [w] w
  | next {ws : List (List Char)} {gap cs : List Char} (w : List Char) (hne : gap ≠ [])
      (hgap : ∀ d ∈ gap, isBlank d) (behind : Spaced ws cs) : Spaced (w :: ws) (w ++ (gap ++ cs))

theorem words_append_blanks {gap : List Char} (h : ∀ d ∈ gap, isBlank d) (cs : List Char) :
    words (gap ++ cs) = words cs := by
  induction gap with
  | nil => rfl
  | cons d gap ih =>
      obtain ⟨hd, hgap⟩ := List.forall_mem_cons.1 h
      rw [List.cons_append, words_cons_blank hd, ih hgap]

theorem joinWith_cons_cons (sep w v : List Char) (ws : List (List Char)) :
    joinWith sep (w :: v :: ws) = w ++ sep ++ joinWith sep (v :: ws) := rfl

theorem map_joinWith (f : Char → Char) (sep : List Char) (ws : List (List Char)) :
    (joinWith sep ws).map f = joinWith (sep.map f) (ws.map (List.map f)) := by
  induction ws with
  | nil => rfl
  | cons w ws ih =>
      cases ws with
      | nil => rfl
      | cons v ws =>
          rw [joinWith_cons_cons, List.map_append, List.map_append, ih]
          rfl

namespace Spaced

variable {ws : List (List Char)} {cs : List Char}

theorem joinWith (h : ws ≠ []) : Spaced ws (joinWith [' '] ws) := by
  induction ws with
  | nil => contradiction
  | cons w ws ih =>
      cases ws with
      | nil => exact .last w
      | cons v ws =>
          have hblank : ∀ d ∈ [' '], isBlank d := List.all_eq_true.1 (by decide)
          rw [joinWith_cons_cons, List.append_assoc]
          exact .next w (List.cons_ne_nil ' ' []) hblank (ih (List.cons_ne_nil v ws))

theorem words (h : Spaced ws cs) (hws : ∀ w ∈ ws, w ≠ [] ∧ ∀ d ∈ w, isBlank d = false) :
    words cs = ws := by
  induction h with
  | last w =>
      obtain ⟨hne, hw⟩ := hws w List.mem_cons_self
      have hend : ∀ d ∈ [].head?, isBlank d := by simp
      simpa using words_append_solid hne hw hend
  | @next ws gap cs w hgap hblank behind ih =>
      obtain ⟨⟨hne, hw⟩, hws⟩ := List.forall_mem_cons.1 hws
      have hstop : ∀ d ∈ (gap ++ cs).head?, isBlank d := by
        obtain ⟨d, gap, rfl⟩ := List.exists_cons_of_ne_nil hgap
        simpa using hblank d List.mem_cons_self
      rw [words_append_solid hne hw hstop, words_append_blanks hblank, ih hws]

/-- The text has no blank at its ends. -/
theorem exists_ends (h : Spaced ws cs) (hws : ∀ w ∈ ws, w ≠ [] ∧ ∀ d ∈ w, isBlank d = false) :
    (∃ c rest, cs = c :: rest ∧ isBlank c = false) ∧
      ∃ front c, cs = front ++ [c] ∧ isBlank c = false := by
  induction h with
  | last w =>
      obtain ⟨hne, hw⟩ := hws w List.mem_cons_self
      refine ⟨?_, w.dropLast, w.getLast hne, (List.dropLast_concat_getLast hne).symm,
        hw _ (List.getLast_mem hne)⟩
      obtain ⟨c, rest, rfl⟩ := List.exists_cons_of_ne_nil hne
      exact ⟨c, rest, rfl, hw c List.mem_cons_self⟩
  | @next ws gap cs w hgap hblank behind ih =>
      obtain ⟨⟨hne, hw⟩, hws⟩ := List.forall_mem_cons.1 hws
      obtain ⟨-, front, c, rfl, hc⟩ := ih hws
      refine ⟨?_, w ++ (gap ++ front), c, by simp, hc⟩
      obtain ⟨d, rest, rfl⟩ := List.exists_cons_of_ne_nil hne
      exact ⟨d, _, rfl, hw d List.mem_cons_self⟩

theorem isBlank_or_mem (h : Spaced ws cs) : ∀ d ∈ cs, isBlank d ∨ ∃ w ∈ ws, d ∈ w := by
  induction h with
  | last w => exact fun d hd => .inr ⟨w, List.mem_cons_self, hd⟩
  | next w hne hgap behind ih =>
      intro d hd
      rcases List.mem_append.1 hd with hd | hd
      · exact .inr ⟨w, List.mem_cons_self, hd⟩
      rcases List.mem_append.1 hd with hd | hd
      · exact .inl (hgap d hd)
      · exact (ih d hd).imp_right fun ⟨v, hv, hmem⟩ => ⟨v, List.mem_cons_of_mem w hv, hmem⟩

end Spaced

/-! ### Letters -/

/-- What is true of all letters is true of a character if it is true of it in lower case. -/
theorem of_toLower {p : Char → Bool} (hp : ∀ c, c.isAlpha → p c) {c : Char} (h : p c.toLower) :
    p c := by
  unfold Char.toLower at h
  split at h
  · next hc => exact hp c (Bool.or_eq_true_iff.2 (.inl (decide_eq_true hc)))
  · exact h

theorem isAlpha_of_toLower {c : Char} (h : c.toLower.isAlpha) : c.isAlpha :=
  of_toLower (fun _ => id) h

theorem startsWord_of_isAlpha {c : Char} (h : c.isAlpha) : startsWord c := by
  have hlt : c.toNat < 128 := by
    rcases Bool.or_eq_true_iff.1 h with h | h
    · have hle := UInt32.le_iff_toNat_le.1 (of_decide_eq_true h).2
      exact Nat.lt_of_le_of_lt hle (by decide)
    · have hle := UInt32.le_iff_toNat_le.1 (of_decide_eq_true (Bool.and_eq_true_iff.1 h).2)
      exact Nat.lt_of_le_of_lt hle (by decide)
  simp [startsWord, isAlphabetic, hlt, h]

theorem isAlpha_eq_false_of_isDigit {c : Char} (h : c.isDigit) : c.isAlpha = false := by
  have hhigh := (Char.isDigit_iff_toNat.1 h).2
  cases ha : c.isAlpha with
  | false => rfl
  | true =>
      rcases Bool.or_eq_true_iff.1 ha with ha | ha
      · have hupper := UInt32.le_iff_toNat_le.1 (of_decide_eq_true ha).1
        exact absurd (Nat.le_trans hupper hhigh) (by decide)
      · have hlower := of_decide_eq_true (Bool.and_eq_true_iff.1 ha).1
        exact absurd (Nat.le_trans (UInt32.le_iff_toNat_le.1 hlower) hhigh) (by decide)

theorem startsWord_eq_false_of_isDigit {c : Char} (h : c.isDigit) : startsWord c = false := by
  have hlt : c.toNat < 128 := Nat.lt_of_le_of_lt (Char.isDigit_iff_toNat.1 h).2 (by decide)
  have hne : ∀ d : Char, d.isDigit = false → c ≠ d := by
    rintro d hd rfl
    exact absurd (h.symm.trans hd) (by decide)
  simp [startsWord, isAlphabetic, hlt, isAlpha_eq_false_of_isDigit h, hne '_' rfl, hne '@' rfl,
    hne '#' rfl]

theorem isDigit_eq_false_of_startsWord {c : Char} (h : startsWord c) : c.isDigit = false := by
  cases hd : c.isDigit with
  | false => rfl
  | true =>
      rw [startsWord_eq_false_of_isDigit hd] at h
      exact absurd h Bool.false_ne_true

theorem toUpper_of_isDigit {c : Char} (h : c.isDigit) : c.toUpper = c := by
  have hhigh := (Char.isDigit_iff_toNat.1 h).2
  refine dif_neg ?_
  rintro ⟨hlow, -⟩
  exact absurd (Nat.le_trans (UInt32.le_iff_toNat_le.1 hlow) hhigh) (by decide)

/-- The letters of a word are those of the word that it spells. -/
theorem startsWord_of_sameFolded {w v : List Char} (h : sameFolded w v)
    (hv : v.all fun d => d.toLower.isAlpha) : ∀ d ∈ w, startsWord d := by
  intro d hd
  have hmap : w.map Char.toLower = v.map Char.toLower := by simpa [sameFolded] using h
  have hlower : d.toLower ∈ v.map Char.toLower := hmap ▸ List.mem_map.2 ⟨d, hd, rfl⟩
  obtain ⟨e, he, heq⟩ := List.mem_map.1 hlower
  exact startsWord_of_isAlpha (isAlpha_of_toLower (heq ▸ List.all_eq_true.1 hv e he))

theorem length_of_sameFolded {w v : List Char} (h : sameFolded w v) : w.length = v.length := by
  have hmap : w.map Char.toLower = v.map Char.toLower := by simpa [sameFolded] using h
  simpa using congrArg List.length hmap

/-- A word that the lexer reads as one word or number. -/
def Wordlike (w : List Char) : Prop :=
  ∃ c tail, w = c :: tail ∧ (c.isDigit ∨ startsWord c) ∧ ∀ d ∈ tail, isWordChar d

theorem isBlank_of_isWordChar {c : Char} (h : isWordChar c) : isBlank c = false := by
  cases hb : isBlank c with
  | false => rfl
  | true =>
      rw [isWordChar_of_isBlank hb] at h
      contradiction

theorem wordlike_of_sameFolded {w v : List Char} (h : sameFolded w v)
    (hv : v.all fun d => d.toLower.isAlpha) (hne : v ≠ []) : Wordlike w := by
  have hstart := startsWord_of_sameFolded h hv
  cases w with
  | nil =>
      have hlen := length_of_sameFolded h
      exact absurd (List.length_eq_zero_iff.1 hlen.symm) hne
  | cons c tail =>
      obtain ⟨hc, htail⟩ := List.forall_mem_cons.1 hstart
      exact ⟨c, tail, rfl, .inr hc, fun d hd => isWordChar_of_startsWord (htail d hd)⟩

theorem wordlike_of_digits {w : List Char} (h : w.all Char.isDigit) (hne : w ≠ []) :
    Wordlike w := by
  cases w with
  | nil => contradiction
  | cons c tail =>
      obtain ⟨hc, htail⟩ := List.forall_mem_cons.1 (List.all_eq_true.1 h)
      exact ⟨c, tail, rfl, .inl hc, fun d hd => isWordChar_of_isDigit (htail d hd)⟩

end Tsql.Text
