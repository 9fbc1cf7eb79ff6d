import Mathlib.Data.List.Pairwise
import Tsql.Proofs.Elements.Basic

/-!
Tokens in the order of the text, and the ranges of lists of them.

The tokens of a text are ordered (`isOrdered_tokenize`), and so is whatever is selected from them. In
ordered tokens a range of some of them lies inside the range of all, and ranges of lists that follow
each other do too (`IsOrdered.pairwise_spans`).
-/

namespace Tsql

/-! ### Ranges -/

namespace Range

/-- The range lies inside the other one. -/
def Within (r s : Range) : Prop :=
  s.start ≤ r.start ∧ r.stop ≤ s.stop

/-- One of the ranges ends before the other begins. -/
def Apart (r s : Range) : Prop :=
  r.stop ≤ s.start ∨ s.stop ≤ r.start

theorem Apart.symm {r s : Range} (h : r.Apart s) : s.Apart r :=
  Or.symm h

theorem Apart.of_within {r s t : Range} (h : r.Apart t) (hsub : s.Within t) : r.Apart s :=
  h.imp (fun h => Position.le_trans h hsub.1) (fun h => Position.le_trans hsub.2 h)

theorem ofTokens_cons_append (t : Token) (ts : List Token) {us : List Token} (hne : us ≠ []) :
    ofTokens (t :: (ts ++ us)) = ⟨t.start, (ofTokens us).stop⟩ := by
  obtain ⟨u, rest, rfl⟩ := List.exists_cons_of_ne_nil hne
  rw [ofTokens_cons, ofTokens_cons]
  congr 2
  exact List.getLast_append_of_ne_nil (l := t :: ts) (by simp) hne

theorem exists_start_ofTokens {ts : List Token} (hne : ts ≠ []) :
    ∃ t ∈ ts, (ofTokens ts).start = t.start := by
  obtain ⟨t, rest, rfl⟩ := List.exists_cons_of_ne_nil hne
  exact ⟨t, List.mem_cons_self, by rw [ofTokens_cons]⟩

theorem exists_stop_ofTokens {ts : List Token} (hne : ts ≠ []) :
    ∃ t ∈ ts, (ofTokens ts).stop = t.stop := by
  obtain ⟨t, rest, rfl⟩ := List.exists_cons_of_ne_nil hne
  exact ⟨_, List.getLast_mem _, by rw [ofTokens_cons]⟩

end Range

/-! ### Order -/

/-- Each token has a width and ends before the next one begins. -/
structure IsOrdered (ts : List Token) : Prop where
  start_lt_stop : ∀ t ∈ ts, t.start < t.stop
  pairwise : ts.Pairwise fun t u => t.stop ≤ u.start

namespace IsOrdered

variable {ts us : List Token} {t : Token}

theorem sublist (h : IsOrdered ts) (hsub : us.Sublist ts) : IsOrdered us where
  start_lt_stop t ht := h.start_lt_stop t (hsub.subset ht)
  pairwise := h.pairwise.sublist hsub

theorem mono (h : IsOrdered ts) (hin : us <:+: ts) : IsOrdered us :=
  h.sublist hin.sublist

theorem start_le_of_mem (h : IsOrdered ts) (ht : t ∈ ts) : (Range.ofTokens ts).start ≤ t.start := by
  obtain ⟨first, rest, rfl⟩ := List.exists_cons_of_ne_nil (List.ne_nil_of_mem ht)
  rw [Range.ofTokens_cons]
  rcases List.mem_cons.1 ht with rfl | hrest
  · exact Position.le_refl _
  · have hlt := h.start_lt_stop first List.mem_cons_self
    have hle := (List.pairwise_cons.1 h.pairwise).1 t hrest
    exact Position.le_trans (Position.le_of_lt hlt) hle

theorem stop_le_of_mem (h : IsOrdered ts) (ht : t ∈ ts) : t.stop ≤ (Range.ofTokens ts).stop := by
  obtain ⟨first, rest, rfl⟩ := List.exists_cons_of_ne_nil (List.ne_nil_of_mem ht)
  rw [Range.ofTokens_cons]
  have hsplit := List.dropLast_concat_getLast (List.cons_ne_nil first rest)
  generalize (first :: rest).getLast _ = last at hsplit ⊢
  rw [← hsplit] at h ht
  rcases List.mem_append.1 ht with hfront | hlast
  · have hle := (List.pairwise_append.1 h.pairwise).2.2 t hfront last (List.mem_singleton_self last)
    exact Position.le_trans hle (Position.le_of_lt (h.start_lt_stop last (by simp)))
  · obtain rfl := List.mem_singleton.1 hlast
    exact Position.le_refl _

theorem start_lt_stop_ofTokens (h : IsOrdered ts) (hne : ts ≠ []) :
    (Range.ofTokens ts).start < (Range.ofTokens ts).stop := by
  obtain ⟨t, ht, hstart⟩ := Range.exists_start_ofTokens hne
  rw [hstart]
  exact Position.lt_of_lt_of_le (h.start_lt_stop t ht) (h.stop_le_of_mem ht)

theorem within (h : IsOrdered ts) (hsub : us ⊆ ts) (hne : us ≠ []) :
    (Range.ofTokens us).Within (Range.ofTokens ts) := by
  obtain ⟨t, ht, hstart⟩ := Range.exists_start_ofTokens hne
  obtain ⟨u, hu, hstop⟩ := Range.exists_stop_ofTokens hne
  exact ⟨hstart ▸ h.start_le_of_mem (hsub ht), hstop ▸ h.stop_le_of_mem (hsub hu)⟩

theorem stop_le_start (h : IsOrdered (ts ++ us)) (hts : ts ≠ []) (hus : us ≠ []) :
    (Range.ofTokens ts).stop ≤ (Range.ofTokens us).start := by
  obtain ⟨t, ht, hstop⟩ := Range.exists_stop_ofTokens hts
  obtain ⟨u, hu, hstart⟩ := Range.exists_start_ofTokens hus
  rw [hstop, hstart]
  exact (List.pairwise_append.1 h.pairwise).2.2 t ht u hu

/-- Lists of tokens from two lists that follow each other follow each other too. -/
theorem stop_le_start_of_sublist {as bs : List Token} (h : IsOrdered (ts ++ us))
    (has : as.Sublist ts) (hbs : bs.Sublist us) (hne : as ≠ []) (hne' : bs ≠ []) :
    (Range.ofTokens as).stop ≤ (Range.ofTokens bs).start :=
  (h.sublist (has.append hbs)).stop_le_start hne hne'

/-- The ranges of lists that stand one after the other in the tokens follow each other. -/
theorem pairwise_spans {spans : List (List Token)} (h : IsOrdered ts)
    (hsub : spans.flatten.Sublist ts) (hne : ∀ span ∈ spans, span ≠ []) :
    spans.Pairwise fun a b => (Range.ofTokens a).stop ≤ (Range.ofTokens b).start := by
  have hflat := List.pairwise_flatten.1 (h.sublist hsub).pairwise
  refine hflat.2.imp_of_mem fun {a b} ha hb hab => ?_
  obtain ⟨t, ht, hstop⟩ := Range.exists_stop_ofTokens (hne a ha)
  obtain ⟨u, hu, hstart⟩ := Range.exists_start_ofTokens (hne b hb)
  rw [hstop, hstart]
  exact hab t ht u hu

/-- Tokens that belong to different parts of the tokens begin at different places. -/
theorem start_ne_of_mem_flatMap {α : Type} {f : α → List Token} {as : List α} {a b : α} {u : Token}
    (h : IsOrdered (as.flatMap f)) (ha : a ∈ as) (hb : b ∈ as) (hne : a ≠ b) (ht : t ∈ f a)
    (hu : u ∈ f b) : t.start ≠ u.start := by
  have hapart : as.Pairwise fun a b => ∀ t ∈ f a, ∀ u ∈ f b, t.start ≠ u.start := by
    refine (List.pairwise_flatMap.1 h.pairwise).2.imp_of_mem fun {a b} ha _ hab t ht u hu heq => ?_
    have hlt := h.start_lt_stop t (List.mem_flatMap.2 ⟨a, ha, ht⟩)
    exact Position.lt_irrefl _ (heq ▸ Position.lt_of_lt_of_le hlt (hab t ht u hu))
  have hsymm : Std.Symm fun a b : α => ∀ t ∈ f a, ∀ u ∈ f b, t.start ≠ u.start :=
    ⟨fun _ _ hab t ht u hu => (hab u hu t ht).symm⟩
  exact hapart.forall ha hb hne t ht u hu

end IsOrdered

/-! ### The tokens of a text -/

namespace Elements

theorem start_lt_stop {p : Position} {es : List Element} {t : Token}
    (h : t ∈ tokensFrom p es) : p ≤ t.start ∧ t.start < t.stop := by
  induction es generalizing p with
  | nil => exact absurd h List.not_mem_nil
  | cons e es ih =>
      rcases List.mem_append.1 h with h | h
      · cases e with
        | lexeme k c tail =>
            obtain rfl := List.mem_singleton.1 h
            refine ⟨Position.le_refl p, ?_⟩
            show p < (p.next c).advance tail
            exact Position.lt_of_lt_of_le (Position.lt_next p c) (Position.le_advance _ tail)
        | blank c => exact absurd h List.not_mem_nil
        | lineComment body => exact absurd h List.not_mem_nil
        | blockComment body => exact absurd h List.not_mem_nil
      · obtain ⟨hle, hlt⟩ := ih h
        exact ⟨Position.le_trans (Position.le_advance p e.text) hle, hlt⟩

/-- Each token ends before the next one begins. -/
theorem pairwise_tokensFrom (p : Position) (es : List Element) :
    (tokensFrom p es).Pairwise fun s t => s.stop ≤ t.start := by
  induction es generalizing p with
  | nil => exact .nil
  | cons e es ih =>
      refine List.pairwise_append.2 ⟨?_, ih _, fun s hs t ht => ?_⟩
      · cases e with
        | lexeme k c tail => exact List.pairwise_singleton _ _
        | blank c => exact .nil
        | lineComment body => exact .nil
        | blockComment body => exact .nil
      · cases e with
        | lexeme k c tail =>
            obtain rfl := List.mem_singleton.1 hs
            exact (start_lt_stop ht).1
        | blank c => exact absurd hs List.not_mem_nil
        | lineComment body => exact absurd hs List.not_mem_nil
        | blockComment body => exact absurd hs List.not_mem_nil

theorem isOrdered_tokensFrom (p : Position) (es : List Element) : IsOrdered (tokensFrom p es) where
  start_lt_stop _ ht := (start_lt_stop ht).2
  pairwise := pairwise_tokensFrom p es

end Elements

theorem isOrdered_tokenize (source : String) : IsOrdered (tokenize source) := by
  obtain ⟨es, htext, hplaced⟩ := Elements.exists_placed source.toList
  rw [tokenize, tokenizeFrom, ← htext, Elements.tokens_text hplaced]
  exact Elements.isOrdered_tokensFrom .origin es

end Tsql
