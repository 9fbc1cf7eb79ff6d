import Mathlib.Data.List.Pairwise
import Tsql.Proofs.Statement.Step
import Tsql.Token.Lexer

/-!
The division of tokens into statements loses none of them.

The statements are pieces of the list in its order, and they do not overlap. What belongs to none
are the tokens that separate statements outside groups, and a `TRY` or `CATCH` behind an `END` or
`ELSE` among them (`splitStatements_partition`).
-/

namespace Tsql

namespace Split

/-- The statement has the token at the given place. -/
def Segment.Covers (g : Segment) (i : Nat) : Prop :=
  g.first ≤ i ∧ i < g.stop

instance (g : Segment) (i : Nat) : Decidable (g.Covers i) :=
  inferInstanceAs (Decidable (_ ∧ _))

/-! ### Gathering -/

/-- What is gathered are pieces of the tokens. -/
theorem gather_pieces (index : Nat) (mts : List (Mark × Token)) :
    (gather index mts).1 <+: mts.map Prod.snd ∧
      ∀ g ∈ (gather index mts).2, g.tokens ≠ [] ∧
        ∃ front, g.first = index + front.length ∧ front ++ g.tokens <+: mts.map Prod.snd := by
  induction mts generalizing index with
  | nil => simp [gather]
  | cons mt mts ih =>
      obtain ⟨mark, t⟩ := mt
      obtain ⟨htail, hlater⟩ := ih (index + 1)
      have hlater' : ∀ g ∈ (gather (index + 1) mts).2, g.tokens ≠ [] ∧
          ∃ front, g.first = index + front.length ∧
            front ++ g.tokens <+: t :: mts.map Prod.snd := by
        intro g hg
        obtain ⟨hne, front, hfirst, hpiece⟩ := hlater g hg
        refine ⟨hne, t :: front, ?_, (List.prefix_cons_inj t).2 hpiece⟩
        rw [hfirst, List.length_cons]
        omega
      have hhead := (List.prefix_cons_inj t).2 htail
      cases mark with
      | continues => exact ⟨hhead, hlater'⟩
      | opens =>
          exact ⟨List.nil_prefix,
            List.forall_mem_cons.2 ⟨⟨List.cons_ne_nil t _, [], rfl, hhead⟩, hlater'⟩⟩
      | delimits => exact ⟨List.nil_prefix, hlater'⟩

/-- Each statement ends before the next one begins. -/
theorem gather_ordered (index : Nat) (mts : List (Mark × Token)) :
    (∀ g ∈ (gather index mts).2, index + (gather index mts).1.length ≤ g.first) ∧
      (gather index mts).2.Pairwise fun g g' => g.stop ≤ g'.first := by
  induction mts generalizing index with
  | nil => simp [gather]
  | cons mt mts ih =>
      obtain ⟨mark, t⟩ := mt
      obtain ⟨hbehind, hpairwise⟩ := ih (index + 1)
      have hbehind' : ∀ g ∈ (gather (index + 1) mts).2,
          index + ((gather (index + 1) mts).1.length + 1) ≤ g.first := by
        intro g hg
        have := hbehind g hg
        omega
      have hindex : ∀ g ∈ (gather (index + 1) mts).2, index ≤ g.first := fun g hg =>
        Nat.le_trans (Nat.le_add_right index _) (hbehind' g hg)
      cases mark with
      | continues => exact ⟨hbehind', hpairwise⟩
      | opens =>
          exact ⟨List.forall_mem_cons.2 ⟨Nat.le_refl index, hindex⟩,
            List.pairwise_cons.2 ⟨hbehind', hpairwise⟩⟩
      | delimits => exact ⟨hindex, hpairwise⟩

/-- Where no statement is being read nothing is gathered for it. -/
theorem gather_of_none {s : State} (hs : s.IsSound) (hnone : s.current = none) (index : Nat)
    (ts : List Token) : (gather index ((marks s ts).zip ts)).1 = [] := by
  cases ts with
  | nil => rfl
  | cons t ts =>
      have hmark := (step_spec hs t ts).2.2 hnone
      rw [marks, List.zip_cons_cons, gather]
      cases h : (s.step t ts).1 with
      | continues => exact absurd h hmark
      | opens => rfl
      | delimits => rfl

/-- Of the places of the tokens just those that delimit are in no statement. -/
theorem covers_gather {s : State} (hs : s.IsSound) (index : Nat) (ts : List Token) {i : Nat}
    (hi : i < ts.length) :
    let found := gather index ((marks s ts).zip ts)
    (i < found.1.length ∨ ∃ g ∈ found.2, g.Covers (index + i)) ↔
      (marks s ts)[i]? ≠ some .delimits := by
  induction ts generalizing s index i with
  | nil => exact absurd hi (Nat.not_lt_zero i)
  | cons t ts ih =>
      obtain ⟨hsound, hdelimits, -⟩ := step_spec hs t ts
      have hnil := fun hmark => gather_of_none hsound (hdelimits hmark) (index + 1) ts
      obtain ⟨hbehind, -⟩ := gather_ordered (index + 1) ((marks (s.step t ts).2 ts).zip ts)
      have hnot : ∀ g ∈ (gather (index + 1) ((marks (s.step t ts).2 ts).zip ts)).2,
          ¬ g.Covers index := by
        intro g hg hcovers
        have := hbehind g hg
        have := hcovers.1
        omega
      have htail := fun {i : Nat} (hi : i < ts.length) => ih hsound (index + 1) hi
      rw [marks, List.zip_cons_cons, gather]
      generalize gather (index + 1) ((marks (s.step t ts).2 ts).zip ts) = found at *
      have hfirst : ∀ j, Segment.Covers ⟨index, t :: found.1⟩ (index + j) ↔
          j < found.1.length + 1 := by
        intro j
        simp [Segment.Covers, Segment.stop]
      cases i with
      | zero =>
          rw [List.getElem?_cons_zero]
          cases hmark : (s.step t ts).1 with
          | continues => simp
          | opens =>
              have hcovers := (hfirst 0).2 (Nat.succ_pos _)
              simpa using .inl hcovers
          | delimits => simpa using hnot
      | succ i =>
          have htail := htail (Nat.lt_of_succ_lt_succ hi)
          simp only [Nat.add_assoc index 1 i, Nat.add_comm 1 i] at htail
          rw [List.getElem?_cons_succ, ← htail]
          cases hmark : (s.step t ts).1 with
          | continues => simp
          | opens => simp [hfirst]
          | delimits => simp [hnil hmark]

/-! ### Tokens in no statement -/

/-- The token at the given place is outside groups and separates statements, where `depth` groups
are open in front of the tokens. -/
def SeparatesAt (depth : Nat) (ts : List Token) (i : Nat) : Prop :=
  depthAfter depth (ts.take i) = 0 ∧ ∃ t, ts[i]? = some t ∧ separates t (ts.drop (i + 1))

/-- The token at the given place is a `TRY` or a `CATCH`. -/
def IsTryAt (ts : List Token) (i : Nat) : Prop :=
  ∃ t, ts[i]? = some t ∧ (t.isWord "TRY" ∨ t.isWord "CATCH")

/-- The token at the given place is an `END` or an `ELSE`. -/
def IsEndAt (ts : List Token) (i : Nat) : Prop :=
  ∃ t, ts[i]? = some t ∧ (t.isKeyword .END ∨ t.isKeyword .ELSE)

/-- What a token is that delimits. A `TRY` or `CATCH` does so right behind the end of a block. -/
theorem delimits_cases {s : State} {ts : List Token} {i : Nat}
    (h : (marks s ts)[i]? = some .delimits) :
    SeparatesAt s.depth ts i ∨ IsTryAt ts i ∧ (i = 0 ∧ s.closedBlock ∨
      ∃ j, i = j + 1 ∧ IsEndAt ts j ∧ SeparatesAt s.depth ts j ∧
        (marks s ts)[j]? = some .delimits) := by
  induction ts generalizing s i with
  | nil => simp [marks] at h
  | cons t ts ih =>
      have hdepth := depth_step s t ts
      cases i with
      | zero =>
          rw [marks, List.getElem?_cons_zero, Option.some.injEq] at h
          have hstep := steps_step s t ts
          generalize s.step t ts = res at hstep h
          cases hstep with
          | closing hclosed hword => exact .inr ⟨⟨t, rfl, hword⟩, .inl ⟨rfl, hclosed⟩⟩
          | separating s' hzero hsep hcurrent hclosed => exact .inl ⟨hzero, t, rfl, hsep⟩
          | opening cases hzero => contradiction
          | continuing r r' cases hcurrent hr => contradiction
      | succ i =>
          rw [marks, List.getElem?_cons_succ] at h
          have hbehind : ∀ {j}, SeparatesAt (s.step t ts).2.depth ts j →
              SeparatesAt s.depth (t :: ts) (j + 1) := by
            intro j hsep
            rw [hdepth] at hsep
            exact hsep
          rcases ih h with hsep | ⟨htry, ⟨rfl, hclosed⟩ | ⟨j, rfl, hend, hsep, hmark⟩⟩
          · exact .inl (hbehind hsep)
          · -- the block has ended with the token in front
            refine .inr ⟨htry, .inr ⟨0, rfl, ?_⟩⟩
            rw [marks, List.getElem?_cons_zero]
            have hstep := steps_step s t ts
            generalize s.step t ts = res at hstep hclosed
            cases hstep with
            | closing hclosed' hword => exact absurd hclosed Bool.false_ne_true
            | separating s' hzero hsep hcurrent hend =>
                exact ⟨⟨t, rfl, hend hclosed⟩, ⟨hzero, t, rfl, hsep⟩, rfl⟩
            | opening cases hzero => exact absurd hclosed Bool.false_ne_true
            | continuing r r' cases hcurrent hr => exact absurd hclosed Bool.false_ne_true
          · exact .inr ⟨htry, .inr ⟨j + 1, rfl, hend, hbehind hsep, hmark⟩⟩

end Split

/-! ### Statements -/

section

variable {ts : List Token}

/-- A statement is the piece of the list between its ends. -/
theorem piece_of_mem_splitStatements {g : Split.Segment} (h : g ∈ splitStatements ts) :
    g.tokens ≠ [] ∧ g.stop ≤ ts.length ∧ g.tokens = (ts.drop g.first).take (g.stop - g.first) := by
  have hmap : ((Split.marks {} ts).zip ts).map Prod.snd = ts :=
    List.map_snd_zip (Nat.le_of_eq (Split.length_marks {} ts).symm)
  obtain ⟨hne, front, hfirst, back, heq⟩ := (Split.gather_pieces 0 _).2 g h
  rw [hmap] at heq
  rw [Nat.zero_add] at hfirst
  refine ⟨hne, ?_, ?_⟩
  · rw [Split.Segment.stop, hfirst, ← heq]
    simp
  · rw [Split.Segment.stop, Nat.add_sub_cancel_left, hfirst, ← heq]
    simp

/-- A statement that ends with the tokens is all of them. -/
theorem splitStatements_eq_singleton_of_stop
    (h : (splitStatements ts).map (fun g => (g.first, g.stop)) = [(0, ts.length)]) :
    splitStatements ts = [⟨0, ts⟩] := by
  obtain ⟨g, hg, hends⟩ := List.map_eq_singleton_iff.1 h
  obtain ⟨-, -, htokens⟩ := piece_of_mem_splitStatements (hg ▸ List.mem_singleton_self g)
  obtain ⟨hfirst, hstop⟩ := Prod.mk.inj hends
  rw [hfirst, hstop, Nat.sub_zero, List.drop_zero, List.take_length] at htokens
  rw [hg, ← hfirst, ← htokens]

theorem ordered_splitStatements (ts : List Token) :
    (splitStatements ts).Pairwise fun g g' => g.stop ≤ g'.first :=
  (Split.gather_ordered 0 _).2

/-- No place is in two statements. -/
theorem eq_of_covers {g g' : Split.Segment} (hg : g ∈ splitStatements ts)
    (hg' : g' ∈ splitStatements ts) {i : Nat} (h : g.Covers i) (h' : g'.Covers i) : g = g' := by
  obtain ⟨hle, hlt⟩ := h
  obtain ⟨hle', hlt'⟩ := h'
  obtain ⟨m, hm, rfl⟩ := List.getElem_of_mem hg
  obtain ⟨n, hn, rfl⟩ := List.getElem_of_mem hg'
  have hordered := List.pairwise_iff_getElem.1 (ordered_splitStatements ts)
  obtain rfl : m = n := by
    rcases Nat.lt_trichotomy m n with hmn | rfl | hmn
    · have := hordered m n hm hn hmn
      omega
    · rfl
    · have := hordered n m hn hm hmn
      omega
  rfl

theorem mem_of_covers {g : Split.Segment} (hg : g ∈ splitStatements ts) {i : Nat}
    (hi : i < ts.length) (h : g.Covers i) : ts[i] ∈ g.tokens := by
  obtain ⟨-, -, htokens⟩ := piece_of_mem_splitStatements hg
  obtain ⟨hle, hlt⟩ := h
  have hget : ((ts.drop g.first).take (g.stop - g.first))[i - g.first]? = some ts[i] := by
    rw [List.getElem?_take_of_lt (by omega), List.getElem?_drop, Nat.add_sub_cancel' hle,
      List.getElem?_eq_getElem hi]
  exact htokens ▸ List.mem_of_getElem? hget

/-- Just the tokens that delimit are in no statement. -/
theorem exists_covers_iff {i : Nat} (hi : i < ts.length) :
    (∃ g ∈ splitStatements ts, g.Covers i) ↔ (Split.marks {} ts)[i]? ≠ some .delimits := by
  have hsound : Split.State.IsSound {} := fun _ => rfl
  have hcovers := Split.covers_gather hsound 0 ts hi
  simp only [Split.gather_of_none hsound rfl, List.length_nil, Nat.not_lt_zero, false_or,
    Nat.zero_add] at hcovers
  exact hcovers

end

/-- The statements are non-empty pieces of the tokens in their order, which do not overlap, and each
token is in one of them, unless it separates statements outside groups or is the `TRY` or `CATCH`
behind an `END` or `ELSE` that does. -/
theorem splitStatements_partition (ts : List Token) :
    (∀ g ∈ splitStatements ts, g.tokens ≠ [] ∧ g.stop ≤ ts.length ∧
        g.tokens = (ts.drop g.first).take (g.stop - g.first)) ∧
      (splitStatements ts).Pairwise (fun g g' => g.stop ≤ g'.first) ∧
        ∀ i < ts.length, (∃! g, g ∈ splitStatements ts ∧ g.Covers i) ∨
          (∀ g ∈ splitStatements ts, ¬ g.Covers i) ∧ (Split.SeparatesAt 0 ts i ∨
            Split.IsTryAt ts i ∧ ∃ j, i = j + 1 ∧ Split.IsEndAt ts j ∧ Split.SeparatesAt 0 ts j ∧
              ∀ g ∈ splitStatements ts, ¬ g.Covers j) := by
  refine ⟨fun g => piece_of_mem_splitStatements, ordered_splitStatements ts, fun i hi => ?_⟩
  have hnone : ∀ {j}, j < ts.length → (Split.marks {} ts)[j]? = some .delimits →
      ∀ g ∈ splitStatements ts, ¬ g.Covers j := fun hj hmark g hg hcovers =>
    (exists_covers_iff hj).1 ⟨g, hg, hcovers⟩ hmark
  by_cases hmark : (Split.marks {} ts)[i]? = some .delimits
  · refine .inr ⟨hnone hi hmark, ?_⟩
    rcases Split.delimits_cases hmark with
      hsep | ⟨htry, ⟨-, hclosed⟩ | ⟨j, rfl, hend, hsep, hmark'⟩⟩
    · exact .inl hsep
    · exact absurd hclosed Bool.false_ne_true
    · exact .inr ⟨htry, j, rfl, hend, hsep, hnone (Nat.lt_of_succ_lt hi) hmark'⟩
  · obtain ⟨g, hg, hcovers⟩ := (exists_covers_iff hi).2 hmark
    exact .inl ⟨g, ⟨hg, hcovers⟩, fun g' hg' => eq_of_covers hg'.1 hg hg'.2 hcovers⟩

/-- The last token is in no statement, as the `END` in front of it separates. -/
theorem splitStatements_partition_try :
    let ts := tokenize "BEGIN TRY SELECT 1; END TRY"
    6 < ts.length ∧ ∃ j, 6 = j + 1 ∧ Split.IsEndAt ts j ∧ Split.SeparatesAt 0 ts j ∧
      ∀ g ∈ splitStatements ts, ¬ g.Covers j := by
  intro ts
  have hfacts : 6 < ts.length ∧ (∀ g ∈ splitStatements ts, ¬ g.Covers 6) ∧
      ∀ t ∈ ts[6]?, Split.separates t [] = false := by
    decide +kernel
  obtain ⟨hlength, hnone, hnot⟩ := hfacts
  refine ⟨hlength, ?_⟩
  rcases (splitStatements_partition ts).2.2 6 hlength with ⟨g, ⟨hg, hcovers⟩, -⟩ | ⟨-, hsep | h⟩
  · exact absurd hcovers (hnone g hg)
  · obtain ⟨-, t, ht, hsep⟩ := hsep
    have hdrop : ts.drop 7 = [] := by decide +kernel
    rw [hdrop, hnot t ht] at hsep
    exact absurd hsep Bool.false_ne_true
  · exact h.2

end Tsql
