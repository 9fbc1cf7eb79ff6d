import Tsql.Proofs.Statement.Pending
import Tsql.Proofs.Statement.Restart
import Tsql.Token.Lexer

/-!
Statements on both sides of a semicolon.

A semicolon outside groups ends the statement in front of it, and the tokens behind it are divided
as on their own. Those in front of it are too, unless a statement that begins with `WITH` takes its
kind from behind the semicolon and absorbs the one that follows it (`splitStatements_semicolon`).
-/

namespace Tsql

section

variable {semi : Token}

namespace Split

section

variable {s : State} {t : Token} {ts : List Token}

/-- The statement begins with a `WITH`, there is no main keyword outside groups in the tokens behind
it, and a keyword that may belong to a statement of the kind begins the next statement. -/
def AbsorbsNext (kind : StatementKind) (ts : List Token) (g g' : Segment) : Prop :=
  g.tokens.head?.any (fun t => t.isKeyword .WITH) ∧
    StatementKind.ofTokens (ts.drop g.first) = .unknown ∧
      g'.first = g.stop ∧ g'.tokens.head?.any fun t => t.isAnyKeyword (absorbed kind)

instance (kind : StatementKind) (ts : List Token) (g g' : Segment) :
    Decidable (AbsorbsNext kind ts g g') :=
  inferInstanceAs (Decidable (_ ∧ _ ∧ _ ∧ _))

/-- A pending `WITH` stays so as long as it is continued. -/
theorem isPending_step_iff (hs : s.IsSound) (hfits : s.Fits (t :: ts))
    (h : (s.step t ts).1 = .continues) : (s.step t ts).2.IsPending ↔ s.IsPending := by
  obtain ⟨r, r', hcurrent, hcurrent', hiff, -⟩ := exists_of_continues hs hfits (Prod.ext h rfl)
  simp [State.IsPending, hcurrent, hcurrent', hiff]

/-- One of the statements begins at the given place, with one of the words. -/
def BeginsAt (words : List Keyword) (gs : List Segment) (place : Nat) : Prop :=
  ∃ g ∈ gs, g.first = place ∧ g.tokens.head?.any fun t => t.isAnyKeyword words

theorem not_beginsAt {words : List Keyword} {gs : List Segment} {place : Nat}
    (h : ∀ g ∈ gs, place < g.first) : ¬ BeginsAt words gs place := by
  rintro ⟨g, hg, hfirst, -⟩
  exact Nat.ne_of_gt (h g hg) hfirst

/-- Of some statements the first absorbs the one that follows it, or another one does so. -/
theorem exists_absorbsNext_cons_iff (kind : StatementKind) {all tail : List Token}
    {later : List Segment} {index : Nat} (hdrop : all.drop index = t :: ts)
    (hbehind : ∀ g ∈ later, index < g.first) :
    (∃ g ∈ ⟨index, t :: tail⟩ :: later, ∃ g' ∈ ⟨index, t :: tail⟩ :: later,
        AbsorbsNext kind all g g') ↔
      ((Reading.start t ts).IsPending ∧
        BeginsAt (absorbed kind) later (index + 1 + tail.length)) ∨
      ∃ g ∈ later, ∃ g' ∈ later, AbsorbsNext kind all g g' := by
  have hstop : Segment.stop ⟨index, t :: tail⟩ = index + 1 + tail.length :=
    Nat.add_right_comm index tail.length 1
  have hnew : ∀ g, AbsorbsNext kind all ⟨index, t :: tail⟩ g ↔ (Reading.start t ts).IsPending ∧
      g.first = index + 1 + tail.length ∧
        g.tokens.head?.any fun t => t.isAnyKeyword (absorbed kind) := by
    intro g
    rw [AbsorbsNext, hstop, hdrop, isPending_start_iff]
    simp [and_assoc]
  have hnot : ∀ g ∈ later, ¬ AbsorbsNext kind all g ⟨index, t :: tail⟩ := by
    rintro g hg ⟨-, -, hfirst, -⟩
    replace hfirst : index = g.first + g.tokens.length := hfirst
    have := hbehind g hg
    omega
  have hself : ¬ AbsorbsNext kind all ⟨index, t :: tail⟩ ⟨index, t :: tail⟩ := by
    rintro ⟨-, -, hfirst, -⟩
    replace hfirst : index = index + (tail.length + 1) := hfirst
    omega
  constructor
  · rintro ⟨g, hg, g', hg', h⟩
    rcases List.mem_cons.1 hg with rfl | hg
    · rcases List.mem_cons.1 hg' with rfl | hg'
      · exact absurd h hself
      · obtain ⟨hpending, hbegins⟩ := (hnew g').1 h
        exact .inl ⟨hpending, g', hg', hbegins⟩
    · rcases List.mem_cons.1 hg' with rfl | hg'
      · exact absurd h (hnot g hg)
      · exact .inr ⟨g, hg, g', hg', h⟩
  · rintro (⟨hpending, g', hg', hbegins⟩ | ⟨g, hg, g', hg', h⟩)
    · exact ⟨_, List.mem_cons_self, g', List.mem_cons_of_mem _ hg', (hnew g').2 ⟨hpending, hbegins⟩⟩
    · exact ⟨g, List.mem_cons_of_mem _ hg, g', List.mem_cons_of_mem _ hg', h⟩

/-- A token is absorbed just if a statement absorbs the next one. The first of them may be the one
being read, which goes on with the tokens gathered for it. -/
theorem absorbs_iff (kind : StatementKind) {all : List Token} (hs : s.IsSound) (hfits : s.Fits ts)
    {index : Nat} (hdrop : all.drop index = ts) {tail : List Token} {later : List Segment}
    (hfound : gather index ((marks s ts).zip ts) = (tail, later)) :
    Absorbs kind s ts ↔
      (s.IsPending ∧ BeginsAt (absorbed kind) later (index + tail.length)) ∨
      ∃ g ∈ later, ∃ g' ∈ later, AbsorbsNext kind all g g' := by
  induction ts generalizing s index tail later with
  | nil =>
      obtain ⟨-, rfl⟩ := Prod.mk.inj hfound
      simp [Absorbs, BeginsAt]
  | cons t ts ih =>
      have hdrop' : all.drop (index + 1) = ts := by
        rw [← List.tail_drop, hdrop, List.tail_cons]
      obtain ⟨hsound, hdelimits, -⟩ := step_spec hs t ts
      obtain ⟨hordered, -⟩ := gather_ordered (index + 1) ((marks (s.step t ts).2 ts).zip ts)
      generalize hinner : gather (index + 1) ((marks (s.step t ts).2 ts).zip ts) = found at *
      obtain ⟨tail', later'⟩ := found
      have hbehind : ∀ g ∈ later', index < g.first := by
        intro g hg
        have := hordered g hg
        omega
      have ih := ih hsound (fits_step hs hfits) hdrop' hinner
      rw [marks, List.zip_cons_cons, gather, hinner] at hfound
      rw [Absorbs, ih, AbsorbsAt]
      cases hmark : (s.step t ts).1 with
      | continues =>
          rw [hmark] at hfound
          obtain ⟨rfl, rfl⟩ := Prod.mk.inj hfound
          rw [isPending_step_iff hs hfits hmark, List.length_cons, Nat.add_assoc, Nat.add_comm 1]
          simp
      | delimits =>
          rw [hmark] at hfound
          obtain ⟨rfl, rfl⟩ := Prod.mk.inj hfound
          have hnext : ¬ (s.step t ts).2.IsPending := by
            rintro ⟨r, hr, -⟩
            rw [hdelimits hmark] at hr
            contradiction
          simp [hnext, not_beginsAt hbehind]
      | opens =>
          -- the token is absorbed by the statement in front, and begins one that may absorb the next
          rw [hmark] at hfound
          obtain ⟨rfl, rfl⟩ := Prod.mk.inj hfound
          have hnext : (s.step t ts).2.IsPending ↔ (Reading.start t ts).IsPending := by
            simp [State.IsPending, current_of_opens hmark]
          have hhere : BeginsAt (absorbed kind) (⟨index, t :: tail'⟩ :: later') index ↔
              t.isAnyKeyword (absorbed kind) := by
            have hnot := @not_beginsAt (absorbed kind) later' index hbehind
            rw [BeginsAt] at hnot ⊢
            simp only [List.mem_cons, exists_eq_or_imp, hnot, or_false]
            simp
          rw [exists_absorbsNext_cons_iff kind hdrop hbehind, hnext]
          simp only [List.length_nil, Nat.add_zero, hhere, true_and]

/-- Whatever is in front of it, a semicolon outside groups is a delimiter behind which the division
begins anew. -/
theorem exists_marks_semicolon (hsemi : semi.kind = .semicolon) (us : List Token)
    (hclosed : depthAfter s.depth ts = 0) :
    ∃ front, front.length = ts.length ∧
      marks s (ts ++ semi :: us) = front ++ .delimits :: marks {} us := by
  induction ts generalizing s with
  | nil => exact ⟨[], rfl, marks_semicolon hsemi hclosed us⟩
  | cons t ts ih =>
      have hclosed' : depthAfter (s.step t (ts ++ semi :: us)).2.depth ts = 0 := by
        rw [depth_step]
        exact hclosed
      obtain ⟨front, hlength, hfront⟩ := ih hclosed'
      refine ⟨(s.step t (ts ++ semi :: us)).1 :: front, congrArg Nat.succ hlength, ?_⟩
      rw [List.cons_append, marks, hfront, List.cons_append]

theorem gather_append_delimits (index : Nat) (mts nts : List (Mark × Token)) :
    gather index (mts ++ (.delimits, semi) :: nts) = ((gather index mts).1,
      (gather index mts).2 ++ (gather (index + mts.length + 1) nts).2) := by
  induction mts generalizing index with
  | nil => rfl
  | cons mt mts ih =>
      obtain ⟨mark, t⟩ := mt
      rw [List.cons_append, gather, gather, ih, List.length_cons, Nat.add_assoc index,
        Nat.add_comm 1]
      cases mark <;> rfl

/-- A statement begins just where a token opens one. -/
theorem exists_first_iff (index : Nat) (mts : List (Mark × Token)) (i : Nat) :
    (∃ g ∈ (gather index mts).2, g.first = index + i) ↔
      (mts.map Prod.fst)[i]? = some .opens := by
  induction mts generalizing index i with
  | nil => simp [gather]
  | cons mt mts ih =>
      obtain ⟨mark, t⟩ := mt
      obtain ⟨hordered, -⟩ := gather_ordered (index + 1) mts
      have hbehind : ∀ g ∈ (gather (index + 1) mts).2, g.first ≠ index := by
        intro g hg
        have := hordered g hg
        omega
      have ih := ih (index + 1)
      rw [gather]
      generalize gather (index + 1) mts = found at *
      cases i with
      | zero =>
          cases mark with
          | opens => simp
          | continues => simpa using hbehind
          | delimits => simpa using hbehind
      | succ i =>
          rw [List.map_cons, List.getElem?_cons_succ, ← ih, Nat.add_assoc index 1, Nat.add_comm 1]
          cases mark with
          | opens => simp
          | continues => rfl
          | delimits => rfl

end

end Split

/-! ### Both sides of a semicolon -/

variable {ts us : List Token}

theorem splitStatements_of_marks {front : List Split.Mark} (hlength : front.length = ts.length)
    (h : Split.marks {} (ts ++ semi :: us) = front ++ .delimits :: Split.marks {} us) :
    splitStatements (ts ++ semi :: us) = (Split.gather 0 (front.zip ts)).2 ++
      (splitStatements us).map (Split.Segment.shift (ts.length + 1)) := by
  have hzip : (front.zip ts).length = ts.length := by simp [hlength]
  rw [splitStatements, h, List.zip_append hlength, List.zip_cons_cons, Split.gather_append_delimits,
    hzip, Nat.zero_add, Split.gather_marks]

/-- A statement of the list begins just where a token opens one. -/
theorem exists_first_zip_iff {front : List Split.Mark} (hlength : front.length = ts.length)
    (i : Nat) :
    (∃ g ∈ (Split.gather 0 (front.zip ts)).2, g.first = i) ↔ front[i]? = some .opens := by
  have hiff := Split.exists_first_iff 0 (front.zip ts) i
  rwa [Nat.zero_add, List.map_fst_zip (Nat.le_of_eq hlength)] at hiff

theorem absorbs_iff_splitStatements (kind : StatementKind) (ts : List Token) :
    Split.Absorbs kind {} ts ↔ ∃ g ∈ splitStatements ts, ∃ g' ∈ splitStatements ts,
      Split.AbsorbsNext kind ts g g' := by
  have hfits : Split.State.Fits {} ts := by simp [Split.State.Fits]
  have hpending : ¬ Split.State.IsPending {} := by simp [Split.State.IsPending]
  have hdrop : ts.drop 0 = ts := rfl
  have hiff := Split.absorbs_iff kind (fun _ => rfl) hfits hdrop rfl
  rw [hiff]
  exact or_iff_right fun h => hpending h.1

end

/-- The division goes on behind a semicolon outside groups as if it began there. In front of it, it
is that of the tokens alone just if no statement absorbs the next one. -/
theorem splitStatements_semicolon {semi : Token} {ts us : List Token}
    (hsemi : semi.kind = .semicolon) (hclosed : depthAfter 0 ts = 0) :
    (∃ front, splitStatements (ts ++ semi :: us) =
        front ++ (splitStatements us).map (Split.Segment.shift (ts.length + 1))) ∧
      (splitStatements (ts ++ semi :: us) =
          splitStatements ts ++ (splitStatements us).map (Split.Segment.shift (ts.length + 1)) ↔
        ∀ g ∈ splitStatements ts, ∀ g' ∈ splitStatements ts,
          ¬ Split.AbsorbsNext (.ofBody 0 us) ts g g') := by
  have hsound : Split.State.IsSound {} := fun _ => rfl
  have hfits : Split.State.Fits {} ts := by simp [Split.State.Fits]
  obtain ⟨front, hlength, hfront⟩ := Split.exists_marks_semicolon hsemi us (s := {}) hclosed
  have hsplit := splitStatements_of_marks hlength hfront
  have habsorbs := absorbs_iff_splitStatements (.ofBody 0 us) ts
  refine ⟨⟨_, hsplit⟩, ?_⟩
  rw [hsplit, List.append_left_inj]
  constructor
  · intro heq g hg g' hg' h
    obtain ⟨i, hi, hopens, hcontinues⟩ :=
      Split.exists_of_absorbs hsemi us hsound hfits hclosed (habsorbs.2 ⟨g, hg, g', hg', h⟩)
    replace hcontinues : (Split.marks {} (ts ++ semi :: us))[i]? = some .continues := hcontinues
    rw [hfront, List.getElem?_append_left (hlength ▸ hi)] at hcontinues
    have hfirst := (exists_first_zip_iff (Split.length_marks {} ts) i).2 hopens
    have hopens' := (exists_first_zip_iff hlength i).1 (heq ▸ hfirst)
    simp [hcontinues] at hopens'
  · intro hnone
    have hmarks := Split.marks_of_not_absorbs hsemi us hsound hfits hclosed
      (mt habsorbs.1 fun ⟨g, hg, g', hg', h⟩ => hnone g hg g' hg' h)
    have hmarks' := hfront.symm.trans hmarks
    rw [List.append_inj_left hmarks' (hlength.trans (Split.length_marks {} ts).symm)]
    rfl

/-- A `WITH` that has its main keyword absorbs nothing. -/
theorem splitStatements_semicolon_select :
    let ts := tokenize "WITH c AS (SELECT 1 AS x) SELECT x FROM c; UPDATE t SET b = 2"
    splitStatements ts = splitStatements (ts.take 13) ++
      (splitStatements (ts.drop 14)).map (Split.Segment.shift 14) := by
  intro ts
  have hfacts : (ts.take 13).length = 13 ∧ ts[13]?.map Token.kind = some .semicolon ∧
      depthAfter 0 (ts.take 13) = 0 ∧
      ∀ g ∈ splitStatements (ts.take 13), ∀ g' ∈ splitStatements (ts.take 13),
        ¬ Split.AbsorbsNext (.ofBody 0 (ts.drop 14)) (ts.take 13) g g' := by
    decide +kernel
  obtain ⟨hlength, hkind, hclosed, hnone⟩ := hfacts
  obtain ⟨semi, hsemi, hkind⟩ := Option.map_eq_some_iff.1 hkind
  have hsplit := (splitStatements_semicolon hkind hclosed).2.2 hnone
  obtain ⟨hlt, rfl⟩ := List.getElem?_eq_some_iff.1 hsemi
  rwa [hlength, List.getElem_cons_drop, List.take_append_drop] at hsplit

/-- The main keyword behind the semicolon is that of the `WITH` in front of it. -/
theorem splitStatements_ne_semicolon :
    let ts := tokenize "WITH c AS (SELECT 1 AS x) SET @a = 1; UPDATE t SET b = 2"
    ts[13]?.map Token.kind = some .semicolon ∧ depthAfter 0 (ts.take 13) = 0 ∧
      splitStatements ts ≠ splitStatements (ts.take 13) ++
        (splitStatements (ts.drop 14)).map (Split.Segment.shift 14) := by
  intro ts
  have hfacts : ts[13]?.map Token.kind = some .semicolon ∧ depthAfter 0 (ts.take 13) = 0 ∧
      (splitStatements ts).length = 2 ∧ (splitStatements (ts.take 13)).length = 2 ∧
      (splitStatements (ts.drop 14)).length = 1 := by
    decide +kernel
  obtain ⟨hkind, hclosed, htwo, hfront, hback⟩ := hfacts
  refine ⟨hkind, hclosed, fun heq => ?_⟩
  have hlength := congrArg List.length heq
  simp [htwo, hfront, hback] at hlength

end Tsql
