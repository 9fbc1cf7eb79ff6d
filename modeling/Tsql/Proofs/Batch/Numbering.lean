import Tsql.Batch.Basic
import Tsql.Proofs.Batch.Lines

/-!
The numbers of the batches of a text.

A section between separator lines has the number of separators in front of it, and so has every
slice, segment and batch that is cut out of it, because none of them starts outside the lines of its
section (`Batch.number_eq`).
-/

namespace Tsql

open Text Scan

/-! ### Lines of a section -/

theorem Text.count_joinLines {ls : List (List Char)} (h : ∀ l ∈ ls, '\n' ∉ l) (hne : ls ≠ []) :
    (joinLines ls).count '\n' + 1 = ls.length := by
  induction ls with
  | nil => contradiction
  | cons l ls ih =>
      obtain ⟨hl, hls⟩ := List.forall_mem_cons.1 h
      have hzero := List.count_eq_zero.2 hl
      cases ls with
      | nil => simp [joinLines, joinWith, hzero]
      | cons l' ls =>
          have ih := ih hls (List.cons_ne_nil l' ls)
          have hjoin : joinLines (l :: l' :: ls) = l ++ (['\n'] ++ joinLines (l' :: ls)) := by
            simp [joinLines, joinWith]
          rw [hjoin, List.count_append, List.count_append, hzero, List.length_cons]
          simp only [List.count_singleton_self]
          omega

namespace Batch

theorem notMem_of_mem_markedLines {cs : List Char} {m : Bool × List Char}
    (h : m ∈ markedLines cs) : '\n' ∉ m.2 := by
  rw [markedLines, ← List.map_uncurry_zip_eq_zipWith] at h
  obtain ⟨⟨l, s⟩, hmem, rfl⟩ := List.mem_map.1 h
  exact notMem_of_mem_lines (List.of_mem_zip hmem).1

/-- The sections between the separators, each with the number of its first line. -/
def numberedSections (line : Nat) (ms : List (Bool × List Char)) : List (Nat × List (List Char)) :=
  (line, (sections line ms).1) :: (sections line ms).2

theorem mem_of_mem_numberedSections {n : Nat} {ms : List (Bool × List Char)}
    {s : Nat × List (List Char)} (h : s ∈ numberedSections n ms) :
    n ≤ s.1 ∧ ∀ l ∈ s.2, l ∈ ms.map Prod.snd := by
  induction ms generalizing n s with
  | nil =>
      obtain rfl := List.mem_singleton.1 h
      exact ⟨Nat.le_refl n, by simp [sections]⟩
  | cons m ms ih =>
      obtain ⟨separating, l⟩ := m
      cases separating with
      | true =>
          rcases List.mem_cons.1 h with rfl | h
          · exact ⟨Nat.le_refl n, by simp [sections]⟩
          · obtain ⟨hle, hmem⟩ := ih (n := n + 1) h
            exact ⟨by omega, fun l' hl' => List.mem_cons_of_mem _ (hmem l' hl')⟩
      | false =>
          rcases List.mem_cons.1 h with rfl | h
          · refine ⟨Nat.le_refl n, List.forall_mem_cons.2 ⟨List.mem_cons_self, fun l' hl' => ?_⟩⟩
            exact List.mem_cons_of_mem _ ((ih (n := n + 1) List.mem_cons_self).2 l' hl')
          · obtain ⟨hle, hmem⟩ := ih (n := n + 1) (List.mem_cons_of_mem _ h)
            exact ⟨by omega, fun l' hl' => List.mem_cons_of_mem _ (hmem l' hl')⟩

theorem numberedSections_true (n : Nat) (l : List Char) (ms : List (Bool × List Char)) :
    numberedSections n ((true, l) :: ms) = (n, []) :: numberedSections (n + 1) ms := rfl

theorem numberedSections_false (n : Nat) (l : List Char) (ms : List (Bool × List Char)) :
    numberedSections n ((false, l) :: ms) =
      (n, l :: (sections (n + 1) ms).1) :: (sections (n + 1) ms).2 := rfl

/-- The lines of a section have as many separators in front of them as there are sections. -/
theorem countP_separatorsFrom {n k firstLine number : Nat} {ms : List (Bool × List Char)}
    {ls : List (List Char)} (h : ((firstLine, ls), number) ∈ (numberedSections n ms).zipIdx k)
    {line : Nat} (hlow : firstLine ≤ line) (hhigh : line < firstLine + ls.length) :
    (separatorsFrom n ms).countP (· < line) + k = number := by
  induction ms generalizing n k firstLine ls with
  | nil =>
      have hls : ls = [] := congrArg (fun s => s.1.2) (List.mem_singleton.1 h)
      rw [hls, List.length_nil] at hhigh
      omega
  | cons m ms ih =>
      obtain ⟨separating, l⟩ := m
      cases separating with
      | true =>
          rw [numberedSections_true, List.zipIdx_cons] at h
          rcases List.mem_cons.1 h with h | h
          · have hls : ls = [] := congrArg (fun s => s.1.2) h
            rw [hls, List.length_nil] at hhigh
            omega
          · -- the section is behind the separator, which counts for it
            have hle := (mem_of_mem_numberedSections (List.fst_mem_of_mem_zipIdx h)).1
            have hcount := ih h hlow hhigh
            have hlt : n < line := Nat.lt_of_lt_of_le hle hlow
            have hcons : (separatorsFrom n ((true, l) :: ms)).countP (· < line) =
                (separatorsFrom (n + 1) ms).countP (· < line) + 1 := by
              rw [separatorsFrom, List.countP_cons_of_pos (by simpa using hlt)]
            rw [hcons]
            omega
      | false =>
          rw [numberedSections_false, List.zipIdx_cons] at h
          rcases List.mem_cons.1 h with h | h
          · obtain ⟨⟨rfl, rfl⟩, rfl⟩ : (firstLine = n ∧ ls = l :: (sections (n + 1) ms).1) ∧
                number = k := by simpa using h
            -- the first line of the section has no separator in front, the others are later lines
            by_cases heq : line = firstLine
            · have hzero : (separatorsFrom firstLine ((false, l) :: ms)).countP (· < line) = 0 := by
                rw [List.countP_eq_zero]
                intro j hj
                have hle := (le_of_mem_separatorsFrom hj).1
                simpa [heq] using hle
              rw [hzero, Nat.zero_add]
            · rw [List.length_cons] at hhigh
              exact ih List.mem_cons_self (by omega) (by omega)
          · exact ih (List.mem_cons_of_mem _ h) hlow hhigh

/-! ### Slices and segments -/

/-- A slice with text is cut out of a numbered section. -/
theorem exists_section_of_mem_slices {cs : List Char} {slice : Slice} (h : slice ∈ slices cs)
    (hsql : slice.sql ≠ []) :
    ∃ firstLine ls number,
      ((firstLine, ls), number) ∈ (numberedSections 1 (markedLines cs)).zipIdx ∧
        Slice.ofLines? number firstLine ls = some slice := by
  unfold slices at h
  rw [numberedSections]
  split at h
  · next first heq =>
    rw [List.mem_singleton] at h
    refine ⟨1, first, 0, by simp [heq], ?_⟩
    cases hs : Slice.ofLines? 0 1 first with
    | some s => rw [h, hs, Option.getD_some]
    | none =>
        rw [hs, Option.getD_none] at h
        exact absurd (by rw [h]) hsql
  · next first others _ heq =>
    obtain ⟨⟨⟨firstLine, ls⟩, number⟩, hmem, hs⟩ := List.mem_filterMap.1 h
    exact ⟨firstLine, ls, number, by rw [heq]; exact hmem, hs⟩

/-- What a function of the texts of batches is at the text of a section, without the blanks around
it. -/
def ofTrimmed {β : Type} (f : Nat → List Char → List β) (firstLine : Nat) (ls : List (List Char)) :
    List β :=
  f (firstLine + (leadingBlanks (joinLines ls)).count '\n') (trim (joinLines ls))

section

variable {β : Type} {f : Nat → List Char → List β} (hf : ∀ line, f line [] = [])
include hf

/-- A blank section has no slice. -/
theorem flatMap_ofLines? (number firstLine : Nat) (ls : List (List Char)) :
    (Slice.ofLines? number firstLine ls).toList.flatMap (fun slice => f slice.startLine slice.sql) =
      ofTrimmed f firstLine ls := by
  unfold Slice.ofLines?
  simp only
  split
  · next hempty =>
    have hnil : trim (joinLines ls) = [] := by simpa using hempty
    rw [ofTrimmed, hnil, hf]
    rfl
  · exact List.flatMap_singleton ..

theorem flatMap_zipIdx (ss : List (Nat × List (List Char))) (k : Nat) :
    ((ss.zipIdx k).filterMap fun ((firstLine, ls), number) =>
        Slice.ofLines? number firstLine ls).flatMap (fun slice => f slice.startLine slice.sql) =
      ss.flatMap fun s => ofTrimmed f s.1 s.2 := by
  induction ss generalizing k with
  | nil => rfl
  | cons s ss ih =>
      rw [List.zipIdx_cons, List.filterMap_cons, List.flatMap_cons, ← ih (k + 1),
        ← flatMap_ofLines? hf k s.1 s.2]
      simp only
      cases Slice.ofLines? k s.1 s.2 with
      | none => rfl
      | some slice => simp

/-- The slices stand for the sections. -/
theorem flatMap_slices (cs : List Char) :
    (slices cs).flatMap (fun slice => f slice.startLine slice.sql) =
      (numberedSections 1 (markedLines cs)).flatMap fun s => ofTrimmed f s.1 s.2 := by
  unfold slices numberedSections
  split
  · next first heq =>
    rw [heq, List.flatMap_singleton, List.flatMap_singleton, ← flatMap_ofLines? hf 0]
    cases Slice.ofLines? 0 1 first with
    | none => simp [hf]
    | some slice => simp
  · next first others _ heq =>
    rw [heq]
    exact flatMap_zipIdx hf _ 0

end

theorem ofLines?_eq_some {number firstLine : Nat} {ls : List (List Char)} {slice : Slice}
    (h : Slice.ofLines? number firstLine ls = some slice) :
    slice.sql = trim (joinLines ls) ∧ slice.sql ≠ [] ∧ slice.number = number ∧
      slice.startLine = firstLine + (leadingBlanks (joinLines ls)).count '\n' := by
  unfold Slice.ofLines? at h
  simp only at h
  split at h
  · contradiction
  · next hempty =>
    cases h
    exact ⟨rfl, by simpa using hempty, rfl, rfl⟩

theorem exists_trim (cs : List Char) :
    ∃ trailing, leadingBlanks cs ++ trim cs ++ trailing = cs := by
  refine ⟨((trimStart cs).reverse.takeWhile isBlank).reverse, ?_⟩
  rw [trim, trimEnd, List.append_assoc, ← List.reverse_append, List.takeWhile_append_dropWhile,
    List.reverse_reverse, leadingBlanks_append_trimStart]

theorem count_leadingBlanks_le (cs : List Char) :
    (leadingBlanks cs).count '\n' ≤ cs.count '\n' :=
  (List.takeWhile_sublist isBlank).count_le '\n'

theorem lineOffset_le_of_mem_segmentsFrom {before : Nat} {ps : List (Directive × List Char)}
    {s : Segment} (h : s ∈ segmentsFrom before ps) :
    s.lineOffset ≤ before + (ps.flatMap fun p => p.1.text ++ p.2).count '\n' := by
  induction ps generalizing before with
  | nil => exact absurd h List.not_mem_nil
  | cons p ps ih =>
      obtain ⟨d, text⟩ := p
      rw [List.flatMap_cons, List.count_append, List.count_append]
      rcases List.mem_cons.1 h with rfl | h
      · have hle := count_leadingBlanks_le text
        simp only [Segment.ofText]
        omega
      · have hle := ih h
        simp only
        omega

/-- The first line of a segment is a line of its batch. -/
theorem lineOffset_le_of_mem_segments {cs : List Char} {s : Segment} (h : s ∈ segments cs) :
    s.lineOffset ≤ cs.count '\n' := by
  have hflat := flatten_directives none (marked cs)
  rw [map_fst_marked] at hflat
  simp only [segments] at h
  rw [← hflat, List.count_append]
  rcases List.mem_append.1 h with h | h
  · split at h
    · exact absurd h List.not_mem_nil
    · obtain rfl := List.mem_singleton.1 h
      have hle := count_leadingBlanks_le (directives none (marked cs)).1
      simp only [Segment.ofText]
      omega
  · exact lineOffset_le_of_mem_segmentsFrom h

/-- A line of a slice has as many separators in front of it as the slice. -/
theorem countP_of_mem_slices {cs : List Char} {slice : Slice} (h : slice ∈ slices cs)
    (hsql : slice.sql ≠ []) {offset : Nat} (hoffset : offset ≤ slice.sql.count '\n') :
    (separators cs).countP (· < slice.startLine + offset) = slice.number := by
  obtain ⟨firstLine, ls, number, hmem, hslice⟩ := exists_section_of_mem_slices h hsql
  obtain ⟨hsqlEq, -, hnumber, hstart⟩ := ofLines?_eq_some hslice
  have hlines : ∀ l ∈ ls, '\n' ∉ l := by
    intro l hl
    obtain ⟨m, hm, rfl⟩ := List.mem_map.1
      ((mem_of_mem_numberedSections (List.fst_mem_of_mem_zipIdx hmem)).2 l hl)
    exact notMem_of_mem_markedLines hm
  have hne : ls ≠ [] := by
    rintro rfl
    exact hsql hsqlEq
  have hcount := count_joinLines hlines hne
  obtain ⟨trailing, htrim⟩ := exists_trim (joinLines ls)
  rw [← htrim, List.count_append, List.count_append, ← hsqlEq] at hcount
  rw [separators, hnumber, hstart]
  exact countP_separatorsFrom hmem (by omega) (by omega)

end Batch

/-! ### Batches -/

namespace Batch

theorem exists_segment_of_mem_ofSegments {slice : Slice} {database : Option String}
    {ss : List Segment} {b : Batch} (h : b ∈ (ofSegments slice database ss).1) :
    ∃ s ∈ ss, s.sql.isEmpty = false ∧ b.sql = s.sql ∧ b.number = slice.number ∧
      b.startLine = slice.startLine + s.lineOffset := by
  induction ss generalizing database with
  | nil => exact absurd h List.not_mem_nil
  | cons s ss ih =>
      simp only [ofSegments] at h
      split at h
      · obtain ⟨s', hs', hb⟩ := ih h
        exact ⟨s', List.mem_cons_of_mem s hs', hb⟩
      · next hsql =>
        rcases List.mem_cons.1 h with rfl | h
        · exact ⟨s, List.mem_cons_self, by simpa using hsql, rfl, rfl, rfl⟩
        · obtain ⟨s', hs', hb⟩ := ih h
          exact ⟨s', List.mem_cons_of_mem s hs', hb⟩

theorem exists_slice_of_mem_ofSlices {database : Option String} {ss : List Slice} {b : Batch}
    (h : b ∈ ofSlices database ss) :
    ∃ slice ∈ ss, ∃ s ∈ segments slice.sql, s.sql.isEmpty = false ∧ b.sql = s.sql ∧
      b.number = slice.number ∧ b.startLine = slice.startLine + s.lineOffset := by
  induction ss generalizing database with
  | nil => exact absurd h List.not_mem_nil
  | cons slice ss ih =>
      simp only [ofSlices] at h
      rcases List.mem_append.1 h with h | h
      · exact ⟨slice, List.mem_cons_self, exists_segment_of_mem_ofSegments h⟩
      · obtain ⟨slice', hslice', hb⟩ := ih h
        exact ⟨slice', List.mem_cons_of_mem slice hslice', hb⟩

theorem segments_nil : segments [] = [] := by
  simp [segments, marked, pieces, directives, segmentsFrom, Segment.ofText, trim, trimEnd, trimStart]

/-- The number of a batch is that of the separators in front of its first line. -/
theorem number_eq {source : String} {database : Option String} {b : Batch}
    (h : b ∈ ofSource source database) :
    b.number = (separators (clean source.toList)).countP (· < b.startLine) := by
  obtain ⟨slice, hslice, s, hs, -, -, hnumber, hstart⟩ := exists_slice_of_mem_ofSlices h
  have hsql : slice.sql ≠ [] := by
    intro hnil
    rw [hnil, segments_nil] at hs
    exact absurd hs List.not_mem_nil
  rw [hnumber, hstart]
  exact (countP_of_mem_slices hslice hsql (lineOffset_le_of_mem_segments hs)).symm

end Batch

end Tsql
