import Mathlib.Data.List.Basic
import Tsql.Proofs.Cursor.Offset
import Tsql.Proofs.Elements.Lines
import Tsql.Proofs.Elements.Spans

/-!
What removing and masking comments does to each character of a text.

Both ask of a character only in which comment it is, if any. Such a question about the characters of
a text is one about its elements (`flatMap_offsets`), where comments are whole. What comes out has no
comments, because blanks in their place keep the elements around them as they are.
-/

namespace Tsql

open Text Scan

namespace Scan

/-- The comment that the character at a byte offset is in. -/
def commentAt? (ss : List Span) (offset : Nat) : Option Span :=
  ss.find? fun s => s.isComment && s.covers offset

theorem commentAt?_eq_none {ss : List Span} {offset : Nat}
    (h : ∀ s ∈ ss, s.covers offset = false) : commentAt? ss offset = none := by
  refine List.find?_eq_none.2 fun s hs => ?_
  simp [h s hs]

/-- What masking puts in the place of a character in a comment, or in none. -/
def maskedAt (comment : Option Span) (c : Char) : Char :=
  if comment.isSome ∧ c ≠ '\n' then ' ' else c

/-- What removal puts in the place of a character in a comment, or in none: line feeds stay, and a
blank stands where a block comment opens. -/
def cleanedAt (comment : Option Span) (x : Nat × Char) : List Char :=
  match comment with
  | none => [x.2]
  | some s =>
    (if s.kind = .blockComment ∧ s.start = x.1 then [' '] else []) ++
      if x.2 = '\n' then [x.2] else []

end Scan

namespace Element

theorem commentSpan?_eq_none {e : Element} (h : ¬ e.IsComment) (offset : Nat) :
    e.commentSpan? offset = none := by
  cases e with
  | blank => rfl
  | lineComment => exact absurd trivial h
  | blockComment => exact absurd trivial h
  | lexeme => rfl

theorem isComment_of_literalSpan? {offset : Nat} {e : Element} {s : Span}
    (h : s ∈ e.literalSpan? offset) : s.isComment = false := by
  cases e with
  | lexeme k c tail =>
      obtain ⟨l, -, rfl⟩ := Option.map_eq_some_iff.1 h
      exact isComment_ofOpening _ _ _ _
  | _ => contradiction

/-- A character of an element is in the comment that the element is. -/
theorem commentAt?_span? {offset : Nat} {e : Element} {x : Nat × Char}
    (h : x ∈ offsets offset e.text) :
    commentAt? (e.span? offset).toList x.1 = e.commentSpan? offset := by
  have hbounds := bounds_of_mem_offsets h
  cases e with
  | blank => rfl
  | lineComment body =>
      refine List.find?_cons_of_pos ?_
      simpa [Span.isComment, Span.covers] using hbounds
  | blockComment body =>
      refine List.find?_cons_of_pos ?_
      simpa [Span.isComment, Span.covers] using hbounds
  | lexeme k c tail =>
      refine List.find?_eq_none.2 fun s hs => ?_
      rw [span?_lexeme] at hs
      simp [isComment_of_literalSpan? (Option.mem_toList.1 hs)]

theorem flatMap_maskedAt (e : Element) (offset : Nat) :
    (offsets offset e.text).flatMap (fun x => [maskedAt (e.commentSpan? offset) x.2]) =
      Elements.text e.masked := by
  rw [← List.map_eq_flatMap]
  have hmap : ∀ g : Char → Char, (offsets offset e.text).map (fun x => g x.2) = e.text.map g := by
    intro g
    conv_rhs => rw [← map_snd_offsets offset e.text, List.map_map]
    rfl
  rw [hmap]
  by_cases hc : e.IsComment
  · have hhidden : maskedAt (e.commentSpan? offset) = hidden := by
      funext c
      cases e with
      | blank => exact hc.elim
      | lexeme => exact hc.elim
      | lineComment => simp [maskedAt, commentSpan?, hidden]
      | blockComment => simp [maskedAt, commentSpan?, hidden]
    rw [hhidden]
    cases e with
    | blank => exact hc.elim
    | lexeme => exact hc.elim
    | lineComment => exact (Elements.text_map_blank _).symm
    | blockComment => exact (Elements.text_map_blank _).symm
  · have hkept : maskedAt none = id := by
      funext c
      simp [maskedAt]
    rw [commentSpan?_eq_none hc, hkept, List.map_id, blanks_masked.keeps e hc, Elements.text_cons,
      Elements.text_nil, List.append_nil]

/-- Where no block comment opens, only the line feeds of a comment are left. -/
theorem flatMap_cleanedAt_some {s : Span} {offset : Nat}
    (h : s.kind = .blockComment → s.start < offset) (cs : List Char) :
    (offsets offset cs).flatMap (cleanedAt (some s)) = cs.filter (· = '\n') := by
  induction cs generalizing offset with
  | nil => rfl
  | cons c cs ih =>
      have hopens : ¬ (s.kind = .blockComment ∧ s.start = offset) :=
        fun hs => Nat.ne_of_lt (h hs.1) hs.2
      have hc : cleanedAt (some s) (offset, c) = if c = '\n' then [c] else [] := by
        rw [cleanedAt, if_neg hopens, List.nil_append]
      rw [offsets, List.flatMap_cons, ih fun hs => Nat.lt_add_right _ (h hs), hc, List.filter_cons]
      by_cases hfeed : c = '\n'
      · simp [hfeed]
      · simp [hfeed]

theorem flatMap_cleanedAt (e : Element) (offset : Nat) :
    (offsets offset e.text).flatMap (cleanedAt (e.commentSpan? offset)) =
      Elements.text e.cleaned := by
  by_cases hc : e.IsComment
  · cases e with
    | blank => exact hc.elim
    | lexeme => exact hc.elim
    | lineComment body =>
        rw [commentSpan?, flatMap_cleanedAt_some (fun hs => by contradiction), cleaned,
          Elements.text_map_blank]
    | blockComment body =>
        have hopener : cleanedAt ((blockComment body).commentSpan? offset) (offset, '/') = [' '] := by
          simp [cleanedAt, commentSpan?]
        have hbehind := flatMap_cleanedAt_some
          (s := ⟨.blockComment, offset, offset + size (blockComment body).text, closesBlock 1 body⟩)
          (fun _ => Nat.lt_add_of_pos_right (Char.utf8Size_pos '/')) ('*' :: body)
        rw [cleaned, Elements.text_map_blank]
        exact congrArg₂ (· ++ ·) hopener hbehind
  · have hkept : ∀ x : Nat × Char, cleanedAt none x = [x.2] := fun _ => rfl
    rw [commentSpan?_eq_none hc, blanks_cleaned.keeps e hc, List.flatMap_congr fun x _ => hkept x,
      ← List.map_eq_flatMap, map_snd_offsets, Elements.text_cons, Elements.text_nil,
      List.append_nil]

end Element

namespace Elements

/-- What is asked of each character and the comment that it is in is asked of the elements. -/
theorem flatMap_offsets {α : Type} {f : Option Span → Nat × Char → List α}
    {g : Element → List α}
    (hfg : ∀ e offset, (offsets offset e.text).flatMap (f (e.commentSpan? offset)) = g e)
    (offset : Nat) (es : List Element) :
    (offsets offset (text es)).flatMap (fun x => f (commentAt? (spans offset es) x.1) x) =
      es.flatMap g := by
  induction es generalizing offset with
  | nil => rfl
  | cons e es ih =>
      -- the spans behind an element cover none of its characters, and its own none behind it
      have hhere : ∀ x ∈ offsets offset e.text,
          commentAt? (spans offset (e :: es)) x.1 = e.commentSpan? offset := by
        intro x hx
        have hx' := bounds_of_mem_offsets hx
        have hlater : commentAt? (spans (offset + size e.text) es) x.1 = none := by
          refine commentAt?_eq_none fun s hs => ?_
          have hs' := bounds_of_mem_spans hs
          simp only [Span.covers, Bool.and_eq_false_iff, decide_eq_false_iff_not]
          omega
        rw [spans, commentAt?, List.find?_append, ← commentAt?, ← commentAt?,
          Element.commentAt?_span? hx, hlater, Option.or_none]
      have hbehind : ∀ x ∈ offsets (offset + size e.text) (text es),
          commentAt? (spans offset (e :: es)) x.1 =
            commentAt? (spans (offset + size e.text) es) x.1 := by
        intro x hx
        have hx' := bounds_of_mem_offsets hx
        have hfront : commentAt? (e.span? offset).toList x.1 = none := by
          refine commentAt?_eq_none fun s hs => ?_
          have hs' := Element.bounds_of_span? (Option.mem_toList.1 hs)
          simp only [Span.covers, Bool.and_eq_false_iff, decide_eq_false_iff_not]
          omega
        rw [spans, commentAt?, List.find?_append, ← commentAt?, ← commentAt?, hfront,
          Option.none_or]
      rw [text_cons, offsets_append, List.flatMap_append, List.flatMap_cons, ← hfg e offset, ← ih]
      congr 1
      · exact List.flatMap_congr fun x hx => by rw [hhere x hx]
      · exact List.flatMap_congr fun x hx => by rw [hbehind x hx]

theorem mask_offsets {es : List Element} (h : Placed es) :
    mask (text es) =
      (offsets 0 (text es)).map fun x => maskedAt (commentAt? (spans 0 es) x.1) x.2 := by
  rw [mask_text h, text, List.flatMap_assoc, List.map_eq_flatMap]
  exact (flatMap_offsets (f := fun comment x => [maskedAt comment x.2])
    Element.flatMap_maskedAt 0 es).symm

theorem clean_offsets {es : List Element} (h : Placed es) :
    clean (text es) =
      (offsets 0 (text es)).flatMap fun x => cleanedAt (commentAt? (spans 0 es) x.1) x := by
  rw [clean_text h, text, List.flatMap_assoc]
  exact (flatMap_offsets Element.flatMap_cleanedAt 0 es).symm

theorem count_cleaned (es : List Element) :
    (text (es.flatMap Element.cleaned)).count '\n' = (text es).count '\n' := by
  induction es with
  | nil => rfl
  | cons e es ih =>
      have hhere : (text e.cleaned).count '\n' = e.text.count '\n' := by
        cases e with
        | blank c => exact congrArg (List.count '\n') (List.append_nil _)
        | lexeme k c tail => exact congrArg (List.count '\n') (List.append_nil _)
        | lineComment body => rw [Element.cleaned, text_map_blank, count_filter_lineFeed]
        | blockComment body =>
            rw [Element.cleaned, text_map_blank, List.count_cons_of_ne (by decide),
              count_filter_lineFeed]
      rw [List.flatMap_cons, text_append, text_cons, List.count_append, List.count_append, ih, hhere]

theorem isComment_of_mem_spans {es : List Element} (h : ∀ e ∈ es, ¬ e.IsComment) {offset : Nat}
    {s : Span} (hs : s ∈ spans offset es) : s.isComment = false := by
  induction es generalizing offset with
  | nil => contradiction
  | cons e es ih =>
      obtain ⟨he, hes⟩ := List.forall_mem_cons.1 h
      rcases List.mem_append.1 hs with hs | hs
      · rw [Element.span?, Element.commentSpan?_eq_none he, Option.none_or] at hs
        exact Element.isComment_of_literalSpan? (Option.mem_toList.1 hs)
      · exact ih hes hs

end Elements

/-! ### The whole text -/

/-- Nothing in the text is a comment. -/
structure IsBare (source : String) : Prop where
  removed : removeComments source = source
  masked : maskComments source = source
  spans : ∀ s ∈ spans source.toList, s.isComment = false

theorem isBare_of_uncommented {es : List Element} (h : Elements.Uncommented es) :
    IsBare (String.ofList (Elements.text es)) where
  removed := by
    rw [removeComments, String.toList_ofList, Elements.clean_text h.placed,
      h.flatMap_blanks Element.blanks_cleaned]
  masked := by
    rw [maskComments, String.toList_ofList, Elements.mask_text h.placed,
      h.flatMap_blanks Element.blanks_masked]
  spans s hs := by
    rw [String.toList_ofList, Scan.spans, Elements.spans_text h.placed] at hs
    exact Elements.isComment_of_mem_spans h.bare hs

theorem getElem?_map_snd {α β : Type} {xs : List (α × β)} {ys : List β} {f : α × β → β} {b : β}
    (h : xs.map Prod.snd = ys) (hf : ∀ x, f x = b ↔ x.2 = b) (i : Nat) :
    (xs.map f)[i]? = some b ↔ ys[i]? = some b := by
  simp [← h, hf]

/-- Removing and masking comments leave no comment behind and are done after one pass. -/
theorem removeComments_and_maskComments (source : String) :
    IsBare (removeComments source) ∧ IsBare (maskComments source) ∧
      (removeComments source).toList.count '\n' = source.toList.count '\n' ∧
      (maskComments source).toList.length = source.toList.length ∧
      (∀ i : Nat, (maskComments source).toList[i]? = some '\n' ↔
        source.toList[i]? = some '\n') ∧
      (maskComments source).toList = (offsets 0 source.toList).map (fun x =>
        maskedAt (commentAt? (spans source.toList) x.1) x.2) ∧
      (removeComments source).toList = (offsets 0 source.toList).flatMap (fun x =>
        cleanedAt (commentAt? (spans source.toList) x.1) x) := by
  obtain ⟨es, htext, hplaced⟩ := Elements.exists_placed source.toList
  have hspans : spans source.toList = Elements.spans 0 es := by
    rw [← htext, spans, Elements.spans_text hplaced]
  have hmask : (maskComments source).toList = (offsets 0 source.toList).map fun x =>
      maskedAt (commentAt? (spans source.toList) x.1) x.2 := by
    rw [maskComments, String.toList_ofList, hspans, ← htext, Elements.mask_offsets hplaced]
  have hclean : (removeComments source).toList = (offsets 0 source.toList).flatMap fun x =>
      cleanedAt (commentAt? (spans source.toList) x.1) x := by
    rw [removeComments, String.toList_ofList, hspans, ← htext, Elements.clean_offsets hplaced]
  refine ⟨?_, ?_, ?_, ?_, fun i => ?_, hmask, hclean⟩
  · have hbare := isBare_of_uncommented (.of_blanks Element.blanks_cleaned hplaced)
    rwa [← Elements.clean_text hplaced, htext] at hbare
  · have hbare := isBare_of_uncommented (.of_blanks Element.blanks_masked hplaced)
    rwa [← Elements.mask_text hplaced, htext] at hbare
  · rw [removeComments, String.toList_ofList, ← htext, Elements.clean_text hplaced,
      Elements.count_cleaned]
  · rw [maskComments, String.toList_ofList, length_mask]
  · rw [hmask]
    refine getElem?_map_snd (map_snd_offsets 0 _) (fun x => ?_) i
    unfold maskedAt
    split
    · next h => simp [h.2]
    · rfl

end Tsql
