import Tsql.Proofs.Statement.Kind
import Tsql.Proofs.Statement.Step

/-!
A `WITH` that awaits its main keyword.

The kind of a statement that begins with `WITH` is that of the first main keyword outside groups,
also if it stands behind a semicolon. Up to the kind of such a statement, each token in front of the
semicolon does what it does on its own, unless it is a keyword that this kind absorbs
(`Split.stepsInFront_step`).
-/

namespace Tsql

namespace Split

section

variable {semi : Token}

theorem headsCte_append (hsemi : semi.kind = .semicolon) (ts us : List Token) :
    headsCte (ts ++ semi :: us) = headsCte ts := by
  have hname : semi.isName = false := by simp [Token.isName, hsemi]
  have hfollow : semi.isKeyword .AS = false ∧ semi.isOpen = false := by
    simp [Token.isKeyword, Token.isOpen, hsemi]
  cases ts with
  | nil => cases us <;> simp [headsCte, hname]
  | cons t ts =>
      cases ts with
      | nil => simp [headsCte, hfollow]
      | cons u ts => rfl

theorem any_head?_append (hsemi : semi.kind = .semicolon) (word : String) (ts us : List Token) :
    (ts ++ semi :: us).head?.any (fun t => t.isWord word) =
      ts.head?.any fun t => t.isWord word := by
  cases ts with
  | nil => simp [Token.isWord_of_semicolon hsemi]
  | cons t ts => rfl

theorem opensBlock_append (hsemi : semi.kind = .semicolon) (ts us : List Token) :
    opensBlock (ts ++ semi :: us) = opensBlock ts := by
  cases ts with
  | nil => simp [opensBlock, Token.isWord_of_semicolon hsemi]
  | cons t ts => rfl

theorem meets?_append (hsemi : semi.kind = .semicolon) (r : Reading) (word : Keyword)
    (ts us : List Token) : r.meets? word (ts ++ semi :: us) = r.meets? word ts := by
  simp only [Reading.meets?, headsCte_append hsemi, any_head?_append hsemi]

/-! ### A `WITH` without a main keyword -/

/-- A `WITH` whose main keyword is behind the semicolon, if it has one. -/
def Reading.IsPending (r : Reading) : Prop :=
  r.awaitsBody ∧ r.kind = .unknown

instance (r : Reading) : Decidable r.IsPending :=
  inferInstanceAs (Decidable (_ ∧ _))

/-- A pending `WITH` is being read. -/
def State.IsPending (s : State) : Prop :=
  ∃ r, s.current = some r ∧ r.IsPending

/-- The statement as it is read in front of a semicolon behind which the first main keyword is of
the kind. -/
def Reading.inFront (kind : StatementKind) (r : Reading) : Reading :=
  if r.IsPending then { r with kind := kind } else r

def State.inFront (kind : StatementKind) (s : State) : State :=
  { s with current := s.current.map (Reading.inFront kind) }

/-- Keywords that open a statement, but not behind one of the kind. -/
def absorbed : StatementKind → List Keyword
  | .update => [.SET]
  | .merge => [.SET]
  | .insert => [.EXEC, .EXECUTE]
  | _ => []

section

variable {kind : StatementKind} {r r' : Reading} {word : Keyword} {following : List Token}

theorem inFront_of_not_isPending (h : ¬ r.IsPending) (kind : StatementKind) : r.inFront kind = r :=
  if_neg h

@[simp] theorem Reading.depth_inFront (kind : StatementKind) (r : Reading) :
    (r.inFront kind).depth = r.depth := by
  unfold inFront
  split <;> rfl

theorem Reading.inFront_behind (kind : StatementKind) (r : Reading) (depth : Nat) (last : Token) :
    Reading.inFront kind { r with depth := depth, last := last } =
      { r.inFront kind with depth := depth, last := last } := by
  by_cases hr : r.IsPending
  · have hr' : Reading.IsPending { r with depth := depth, last := last } := hr
    rw [inFront, if_pos hr', inFront, if_pos hr]
  · have hr' : ¬ Reading.IsPending { r with depth := depth, last := last } := hr
    rw [inFront, if_neg hr', inFront, if_neg hr]

@[simp] theorem State.depth_inFront (kind : StatementKind) (s : State) :
    (s.inFront kind).depth = s.depth := by
  unfold State.depth State.inFront
  cases s.current with
  | none => rfl
  | some r => exact Reading.depth_inFront kind r

theorem isPending_of_meets? (h : r.meets? word following = some r') (h' : r'.IsPending) :
    r.IsPending := by
  obtain ⟨hbody, hkind⟩ := h'
  rcases meets?_cases h with rfl | ⟨rfl, -⟩ | ⟨rfl, -⟩
  · exact ⟨hbody, hkind⟩
  · exact ⟨hbody, hkind⟩
  · contradiction

theorem mem_of_dmlKind?_eq_none (h : word ∈ openers) (hword : word.dmlKind? = none) :
    word ∈ [.CREATE, .ALTER, .DROP, .TRUNCATE, .WITH, .DECLARE, .SET, .EXEC, .EXECUTE, .USE, .IF,
      .WHILE, .PRINT] := by
  revert h hword
  cases word <;> decide

theorem eq_of_meets? (hr : r.IsPending) (hword : word.dmlKind? = none)
    (h : r.meets? word following = some r') : r' = r := by
  rcases meets?_cases h with rfl | ⟨-, hinsert⟩ | ⟨-, hsome⟩
  · rfl
  · exact absurd (hinsert.symm.trans hr.2) (by decide)
  · simp [hword] at hsome

/-- A keyword that continues a pending `WITH` on its own continues it in front of the semicolon. -/
theorem meets?_inFront_some (hr : r.IsPending) (hword : word.dmlKind? = none)
    (h : r.meets? word following = some r') :
    (r.inFront kind).meets? word following = some (r.inFront kind) := by
  rw [Reading.inFront, if_pos hr]
  have hunknown := hr.2
  have hdml : word.dmlKind?.isSome = false := by simp [hword]
  by_cases hopens : word ∈ openers
  · by_cases hlast : r.last.isAnyKeyword [.THEN, .ON, .FOR]
    · simp [Reading.meets?, hlast]
    · have hmem := mem_of_dmlKind?_eq_none hopens hword
      simp only [List.mem_cons, List.not_mem_nil, or_false] at hmem
      rcases hmem with rfl | rfl | rfl | rfl | rfl | rfl | rfl | rfl | rfl | rfl | rfl | rfl |
        rfl <;>
          simp [Reading.meets?, hopens, hlast, hdml, hunknown] at h ⊢ <;>
            simp [h.1]
  · simp [Reading.meets?, hopens]

/-- One that opens a statement on its own continues the `WITH` just if it is absorbed. -/
theorem meets?_inFront_none (hr : r.IsPending) (hsource : r.hasSource = false)
    (hword : word.dmlKind? = none) (hkind : kind ∈ StatementKind.ofMainKeywords)
    (h : r.meets? word following = none) :
    ((r.inFront kind).meets? word following).isSome ↔ word ∈ absorbed kind := by
  rw [Reading.inFront, if_pos hr]
  obtain ⟨hbody, hunknown⟩ := hr
  have hdml : word.dmlKind?.isSome = false := by simp [hword]
  by_cases hopens : word ∈ openers
  · by_cases hlast : r.last.isAnyKeyword [.THEN, .ON, .FOR]
    · simp [Reading.meets?, hlast] at h
    · have hmem := mem_of_dmlKind?_eq_none hopens hword
      simp only [StatementKind.ofMainKeywords, List.mem_cons, List.not_mem_nil, or_false]
        at hmem hkind
      rcases hmem with rfl | rfl | rfl | rfl | rfl | rfl | rfl | rfl | rfl | rfl | rfl | rfl |
        rfl <;>
          simp [Reading.meets?, hopens, hlast, hdml, hunknown] at h ⊢ <;>
            rcases hkind with rfl | rfl | rfl | rfl | rfl | rfl <;>
              simp_all [absorbed]
  · simp [Reading.meets?, hopens] at h

end

/-! ### Steps in front of a semicolon -/

section

variable {s : State} {t : Token} {ts : List Token}

/-- A statement that awaits its main keyword has none outside groups in the tokens to come. -/
def State.Fits (s : State) (ts : List Token) : Prop :=
  ∀ r, s.current = some r → r.IsPending →
    StatementKind.ofBody r.depth ts = .unknown ∧ r.hasSource = false

theorem isPending_start_iff :
    (Reading.start t ts).IsPending ↔
      t.isKeyword .WITH ∧ StatementKind.ofTokens (t :: ts) = .unknown :=
  Iff.rfl

/-- A statement begins in front of the semicolon as on its own, up to the kind of a pending one. -/
theorem start_inFront (hsemi : semi.kind = .semicolon) (us : List Token)
    (hclosed : depthAfter (t.depthAfter 0) ts = 0) :
    Reading.start t (ts ++ semi :: us) =
      (Reading.start t ts).inFront (StatementKind.ofBody 0 us) := by
  by_cases hwith : t.isKeyword .WITH
  · have hbody := StatementKind.ofTokens_of_with hwith
    rw [Token.depthAfter_of_keyword (of_decide_eq_true hwith)] at hclosed
    rw [Reading.inFront]
    by_cases hunknown : StatementKind.ofBody 0 ts = .unknown
    · rw [if_pos (isPending_start_iff.2 ⟨hwith, (hbody ts).trans hunknown⟩), Reading.start, hbody,
        StatementKind.ofBody_append, if_pos hunknown, hclosed, StatementKind.ofBody_semicolon hsemi]
      rfl
    · rw [if_neg (fun h => hunknown ((hbody ts).symm.trans (isPending_start_iff.1 h).2)),
        Reading.start, hbody, StatementKind.ofBody_append, if_neg hunknown, ← hbody]
      rfl
  · have hnot : ¬ (Reading.start t ts).IsPending := fun h => hwith (isPending_start_iff.1 h).1
    rw [inFront_of_not_isPending hnot, Reading.start,
      StatementKind.ofTokens_append hsemi (Bool.eq_false_iff.2 hwith)]
    rfl

theorem take_inFront (hsemi : semi.kind = .semicolon) (us : List Token)
    (hclosed : depthAfter s.depth (t :: ts) = 0) :
    (s.inFront (.ofBody 0 us)).take t (ts ++ semi :: us) =
      ((s.take t ts).1, (s.take t ts).2.inFront (.ofBody 0 us)) := by
  cases hcurrent : s.current with
  | none =>
      rw [State.depth, hcurrent] at hclosed
      have hstart := start_inFront hsemi us hclosed
      simp only [State.take, State.inFront, hcurrent, Option.map_none, Option.map_some, hstart]
  | some r =>
      simp only [State.take, State.inFront, hcurrent, Option.map_some, Reading.inFront_behind,
        Reading.depth_inFront]

/-- The token begins a statement behind a `WITH` that awaits its main keyword. It would continue one
of the given kind. -/
def AbsorbsAt (kind : StatementKind) (s : State) (t : Token) (ts : List Token) : Prop :=
  (s.step t ts).1 = .opens ∧ s.IsPending ∧ t.isAnyKeyword (absorbed kind)

/-- A keyword that is met by the statement being read, in front of the semicolon and on its own. -/
theorem meet_inFront (hsemi : semi.kind = .semicolon) (us : List Token) {r : Reading}
    {word : Keyword} (hcurrent : s.current = some r) (hdepth : r.depth = 0)
    (hclosed : depthAfter (t.depthAfter 0) ts = 0)
    (hfits : r.IsPending → word.dmlKind? = none ∧ r.hasSource = false) :
    if (s.meet t word ts).1 = .opens ∧ r.IsPending ∧ word ∈ absorbed (.ofBody 0 us) then
      ((s.inFront (.ofBody 0 us)).meet t word (ts ++ semi :: us)).1 = .continues
    else (s.inFront (.ofBody 0 us)).meet t word (ts ++ semi :: us) =
      ((s.meet t word ts).1, (s.meet t word ts).2.inFront (.ofBody 0 us)) := by
  have hfront : (s.inFront (.ofBody 0 us)).current = some (r.inFront (.ofBody 0 us)) := by
    rw [State.inFront, hcurrent, Option.map_some]
  have happend := meets?_append hsemi (r.inFront (.ofBody 0 us)) word ts us
  have hkind := StatementKind.ofBody_mem 0 us
  cases hmeets : r.meets? word ts with
  | some r' =>
      have hmeets' : (r.inFront (.ofBody 0 us)).meets? word ts =
          some (r'.inFront (.ofBody 0 us)) := by
        by_cases hr : r.IsPending
        · obtain rfl := eq_of_meets? hr (hfits hr).1 hmeets
          exact meets?_inFront_some hr (hfits hr).1 hmeets
        · rw [inFront_of_not_isPending hr, hmeets,
            inFront_of_not_isPending (mt (isPending_of_meets? hmeets) hr)]
      rw [meet_eq_continues hcurrent hmeets, if_neg (by simp),
        meet_eq_continues hfront (happend.trans hmeets')]
      simp only [State.inFront, Option.map_some, Reading.inFront_behind, Reading.depth_inFront]
  | none =>
      have hopens := meet_eq_opens (t := t) hcurrent hmeets
      have hstart : (r.inFront (.ofBody 0 us)).meets? word ts = none →
          (s.inFront (.ofBody 0 us)).meet t word (ts ++ semi :: us) =
            ((s.meet t word ts).1, (s.meet t word ts).2.inFront (.ofBody 0 us)) := by
        intro hmeets'
        rw [hopens, meet_eq_opens hfront (happend.trans hmeets'),
          start_inFront hsemi us hclosed]
        rfl
      by_cases hr : r.IsPending
      · have habsorbed := meets?_inFront_none hr (hfits hr).2 (hfits hr).1 hkind hmeets
        by_cases hword : word ∈ absorbed (.ofBody 0 us)
        · obtain ⟨r', hmeets'⟩ := Option.isSome_iff_exists.1 (habsorbed.2 hword)
          rw [if_pos ⟨by rw [hopens], hr, hword⟩,
            meet_eq_continues hfront (happend.trans hmeets')]
        · rw [if_neg fun h => hword h.2.2]
          exact hstart (Option.isNone_iff_eq_none.1 (by simpa using mt habsorbed.1 hword))
      · rw [if_neg fun h => hr h.2.1]
        exact hstart ((congrArg (fun r => Reading.meets? r word ts)
          (inFront_of_not_isPending hr _)).trans hmeets)

theorem inFront_of_none (h : s.current = none) (kind : StatementKind) : s.inFront kind = s := by
  rw [State.inFront, h, Option.map_none, ← h]

/-- What a token may do in front of the semicolon: it is absorbed, or it does what it does on its
own. -/
inductive StepsInFront (kind : StatementKind) (s : State) (t : Token) (ts : List Token) :
    Mark × State → Prop
  | absorbing (s' : State) (h : AbsorbsAt kind s t ts) : StepsInFront kind s t ts (.continues, s')
  | agreeing (h : ¬ AbsorbsAt kind s t ts) :
      StepsInFront kind s t ts ((s.step t ts).1, (s.step t ts).2.inFront kind)

theorem stepsInFront_of_eq {kind : StatementKind} {res : Mark × State}
    (h : ¬ AbsorbsAt kind s t ts) (heq : res = ((s.step t ts).1, (s.step t ts).2.inFront kind)) :
    StepsInFront kind s t ts res :=
  heq ▸ .agreeing h

theorem eq_of_stepsInFront {kind : StatementKind} {res : Mark × State}
    (h : StepsInFront kind s t ts res) (hnot : ¬ AbsorbsAt kind s t ts) :
    res = ((s.step t ts).1, (s.step t ts).2.inFront kind) := by
  cases h with
  | absorbing s' habsorbs => exact absurd habsorbs hnot
  | agreeing _ => rfl

theorem stepsInFront_take (hsemi : semi.kind = .semicolon) (us : List Token) (s' : State)
    (hclosed : depthAfter s'.depth (t :: ts) = 0) (halone : s.step t ts = s'.take t ts)
    (hcurrent : s'.current = s.current)
    (hfront : (s.inFront (.ofBody 0 us)).step t (ts ++ semi :: us) =
      (s'.inFront (.ofBody 0 us)).take t (ts ++ semi :: us)) :
    StepsInFront (.ofBody 0 us) s t ts ((s.inFront (.ofBody 0 us)).step t (ts ++ semi :: us)) := by
  refine stepsInFront_of_eq ?_ ?_
  · rintro ⟨hopens, ⟨r, hr, -⟩, -⟩
    rw [halone, State.take, hcurrent, hr] at hopens
    contradiction
  · rw [hfront, halone]
    exact take_inFront hsemi us hclosed

theorem absorbsAt_iff {kind : StatementKind} {r : Reading} {cases cases' : Nat} {word : Keyword}
    (hkind : t.kind = .keyword word)
    (halone : State.step ⟨some r, cases, false⟩ t ts =
      State.meet ⟨some r, cases', false⟩ t word ts) :
    AbsorbsAt kind ⟨some r, cases, false⟩ t ts ↔
      (State.meet ⟨some r, cases', false⟩ t word ts).1 = .opens ∧ r.IsPending ∧
        word ∈ absorbed kind := by
  simp [AbsorbsAt, State.IsPending, halone, Token.isAnyKeyword, hkind]

theorem stepsInFront_of_delimits {kind : StatementKind} {res : Mark × State} {s' : State}
    (hnone : s'.current = none) (halone : s.step t ts = (.delimits, s'))
    (hfront : res = (.delimits, s')) : StepsInFront kind s t ts res := by
  refine stepsInFront_of_eq (fun h => ?_) ?_
  · rw [AbsorbsAt, halone] at h
    exact absurd h.1 (by simp)
  · rw [hfront, halone, inFront_of_none hnone]

theorem stepsInFront_meet (hsemi : semi.kind = .semicolon) (us : List Token) {r : Reading}
    {cases cases' : Nat} {word : Keyword} (hkind : t.kind = .keyword word) (hdepth : r.depth = 0)
    (hfits : State.Fits ⟨some r, cases, false⟩ (t :: ts))
    (hclosed : depthAfter (t.depthAfter 0) ts = 0)
    (halone : State.step ⟨some r, cases, false⟩ t ts =
      State.meet ⟨some r, cases', false⟩ t word ts)
    (hfront : (State.inFront (.ofBody 0 us) ⟨some r, cases, false⟩).step t (ts ++ semi :: us) =
      (State.inFront (.ofBody 0 us) ⟨some r, cases', false⟩).meet t word (ts ++ semi :: us)) :
    StepsInFront (.ofBody 0 us) ⟨some r, cases, false⟩ t ts
      ((State.inFront (.ofBody 0 us) ⟨some r, cases, false⟩).step t (ts ++ semi :: us)) := by
  have hmain : r.IsPending → word.dmlKind? = none ∧ r.hasSource = false := by
    intro hpending
    obtain ⟨hbody, hsource⟩ := hfits r rfl hpending
    have hnone := (StatementKind.ofBody_cons_eq_unknown.1 hbody).1
    exact ⟨by simpa [StatementKind.mainKind?, hkind, hdepth] using hnone, hsource⟩
  have hmeet := meet_inFront hsemi us (s := ⟨some r, cases', false⟩) rfl hdepth hclosed hmain
  rw [hfront]
  split at hmeet
  · next habsorbs =>
    generalize State.meet (State.inFront _ _) t word (ts ++ semi :: us) = res at hmeet
    obtain ⟨mark, s'⟩ := res
    obtain rfl : mark = .continues := hmeet
    exact .absorbing s' ((absorbsAt_iff hkind halone).2 habsorbs)
  · next hnot =>
    refine stepsInFront_of_eq (mt (absorbsAt_iff hkind halone).1 hnot) ?_
    rw [halone]
    exact hmeet

theorem stepsInFront_of_open (hsemi : semi.kind = .semicolon) (us : List Token)
    (current : Option Reading) (cases : Nat) (hfits : State.Fits ⟨current, cases, false⟩ (t :: ts))
    (hclosed : depthAfter (State.depth ⟨current, cases, false⟩) (t :: ts) = 0) :
    StepsInFront (.ofBody 0 us) ⟨current, cases, false⟩ t ts
      ((State.inFront (.ofBody 0 us) ⟨current, cases, false⟩).step t (ts ++ semi :: us)) := by
  have hdepth' := State.depth_inFront (.ofBody 0 us) ⟨current, cases, false⟩
  by_cases hplain : State.depth ⟨current, cases, false⟩ ≠ 0 ∨
      t.kind ≠ .semicolon ∧ ∀ word, t.kind ≠ .keyword word
  · exact stepsInFront_take hsemi us _ hclosed (step_eq_take (by simp) hplain) rfl
      (step_eq_take (by simp [State.inFront]) (by rwa [hdepth']))
  obtain ⟨hdepth, hkinds⟩ := not_or.1 hplain
  replace hdepth : State.depth ⟨current, cases, false⟩ = 0 := Classical.not_not.1 hdepth
  by_cases hkeyword : ∃ word, t.kind = .keyword word
  · obtain ⟨word, hkind⟩ := hkeyword
    -- a keyword looks ahead only to find out whether it opens a block
    have hblock := opensBlock_append hsemi ts us
    rcases step_keyword_cases hkind cases (opensBlock ts) with ⟨s', hnone, hall⟩ | ⟨cases', hall⟩
    · exact stepsInFront_of_delimits hnone (hall current hdepth ts rfl)
        (hall _ (hdepth'.trans hdepth) _ hblock)
    · have halone := hall current hdepth ts rfl
      have hfront := hall _ (hdepth'.trans hdepth) _ hblock
      cases current with
      | none => exact stepsInFront_take hsemi us ⟨none, cases', false⟩ hclosed halone rfl hfront
      | some r =>
          exact stepsInFront_meet hsemi us hkind hdepth hfits (hdepth ▸ hclosed) halone hfront
  · have hsemicolon : t.kind = .semicolon := by
      by_contra hne
      exact hkinds ⟨hne, fun word hkind => hkeyword ⟨word, hkind⟩⟩
    exact stepsInFront_of_delimits rfl (step_semicolon hsemicolon hdepth ts)
      (step_semicolon hsemicolon (hdepth'.trans hdepth) (ts ++ semi :: us))

theorem stepsInFront_step (hsemi : semi.kind = .semicolon) (us : List Token) (hs : s.IsSound)
    (hfits : s.Fits (t :: ts)) (hclosed : depthAfter s.depth (t :: ts) = 0) :
    StepsInFront (.ofBody 0 us) s t ts ((s.inFront (.ofBody 0 us)).step t (ts ++ semi :: us)) := by
  obtain ⟨current, cases, closedBlock⟩ := s
  cases closedBlock with
  | false => exact stepsInFront_of_open hsemi us current cases hfits hclosed
  | true =>
      -- behind the end of a block no statement is being read
      obtain rfl : current = none := hs rfl
      have hnot : ∀ closedBlock, ¬ AbsorbsAt (.ofBody 0 us) ⟨none, cases, closedBlock⟩ t ts := by
        rintro closedBlock ⟨-, ⟨r, hr, -⟩, -⟩
        contradiction
      by_cases hword : t.isWord "TRY" ∨ t.isWord "CATCH"
      · exact stepsInFront_of_delimits rfl (step_closing rfl hword ts)
          (step_closing rfl hword (ts ++ semi :: us))
      · have hword : t.isWord "TRY" = false ∧ t.isWord "CATCH" = false := by simpa using hword
        have hopen : ∀ following, State.step ⟨none, cases, true⟩ t following =
            State.step ⟨none, cases, false⟩ t following :=
          fun following => step_of_closedBlock _ following fun _ => hword
        have hstep := stepsInFront_of_open hsemi us none cases hfits hclosed
        refine stepsInFront_of_eq (hnot true) ?_
        rw [hopen]
        exact (hopen _).trans (eq_of_stepsInFront hstep (hnot false))

/-! ### Lists in front of a semicolon -/

/-- Whether a statement is a pending `WITH` does not change while it is continued. -/
theorem exists_of_continues (hs : s.IsSound) (hfits : s.Fits (t :: ts)) {s' : State}
    (h : s.step t ts = (.continues, s')) :
    ∃ r r', s.current = some r ∧ s'.current = some r' ∧ (r'.IsPending ↔ r.IsPending) ∧
      (r.IsPending → r'.depth = t.depthAfter r.depth ∧ r'.hasSource = r.hasSource) := by
  have hstep := steps_step s t ts
  rw [h] at hstep
  obtain ⟨r, hcurrent⟩ : ∃ r, s.current = some r := by
    cases hstep with
    | continuing r r' cases hcurrent hdepth => exact ⟨r, hcurrent⟩
  obtain ⟨current, cases, closedBlock⟩ := s
  obtain rfl : current = some r := hcurrent
  obtain rfl : closedBlock = false := by
    by_contra hclosed
    exact absurd (hs (Bool.not_eq_false closedBlock ▸ hclosed)) (by simp)
  rcases continues_cases h with ⟨-, rfl⟩ | ⟨hdepth, word, r', cases', hkind, hmeets, rfl, -⟩
  · exact ⟨r, _, rfl, rfl, Iff.rfl, fun _ => ⟨rfl, rfl⟩⟩
  · have heq : r.IsPending → r' = r := by
      intro hpending
      have hnone := (StatementKind.ofBody_cons_eq_unknown.1 (hfits r rfl hpending).1).1
      have hdml : word.dmlKind? = none := by
        simpa [StatementKind.mainKind?, hkind, hdepth] using hnone
      exact eq_of_meets? hpending hdml hmeets
    have hback : r'.IsPending → r.IsPending := isPending_of_meets? hmeets
    refine ⟨r, _, rfl, rfl, ⟨hback, fun hpending => ?_⟩, fun hpending => ?_⟩
    · obtain rfl := heq hpending
      exact hpending
    · obtain rfl := heq hpending
      exact ⟨rfl, rfl⟩

theorem fits_step (hs : s.IsSound) (hfits : s.Fits (t :: ts)) : (s.step t ts).2.Fits ts := by
  intro r hcurrent hpending
  obtain ⟨hsound, hdelimits, -⟩ := step_spec hs t ts
  cases hmark : (s.step t ts).1 with
  | delimits => exact absurd ((hdelimits hmark).symm.trans hcurrent) (by simp)
  | opens =>
      obtain rfl := Option.some.inj ((current_of_opens hmark).symm.trans hcurrent)
      obtain ⟨hwith, hkind⟩ := isPending_start_iff.1 hpending
      rw [StatementKind.ofTokens_of_with hwith] at hkind
      have hdepth := Token.depthAfter_of_keyword (of_decide_eq_true hwith) 0
      exact ⟨(congrArg (StatementKind.ofBody · ts) hdepth).trans hkind, rfl⟩
  | continues =>
      obtain ⟨r₀, r', hcurrent₀, hcurrent', hiff, hsame⟩ :=
        exists_of_continues hs hfits (Prod.ext hmark rfl)
      obtain rfl := Option.some.inj (hcurrent'.symm.trans hcurrent)
      have hpending₀ := hiff.1 hpending
      obtain ⟨hbody, hsource⟩ := hfits r₀ hcurrent₀ hpending₀
      obtain ⟨hdepth, hsource'⟩ := hsame hpending₀
      rw [hdepth, hsource']
      exact ⟨(StatementKind.ofBody_cons_eq_unknown.1 hbody).2, hsource⟩

/-- Some token of the list is absorbed, where the list is read on its own. -/
def Absorbs (kind : StatementKind) : State → List Token → Prop
  | _, [] => False
  | s, t :: ts => AbsorbsAt kind s t ts ∨ Absorbs kind (s.step t ts).2 ts

theorem marks_semicolon (hsemi : semi.kind = .semicolon) (hdepth : s.depth = 0) (us : List Token) :
    marks s (semi :: us) = .delimits :: marks {} us := by
  rw [marks, step_semicolon hsemi hdepth]

/-- In front of the semicolon the tokens are marked as on their own if none of them is absorbed. -/
theorem marks_of_not_absorbs (hsemi : semi.kind = .semicolon) (us : List Token) (hs : s.IsSound)
    (hfits : s.Fits ts) (hclosed : depthAfter s.depth ts = 0)
    (h : ¬ Absorbs (.ofBody 0 us) s ts) :
    marks (s.inFront (.ofBody 0 us)) (ts ++ semi :: us) =
      marks s ts ++ .delimits :: marks {} us := by
  induction ts generalizing s with
  | nil => exact marks_semicolon hsemi ((State.depth_inFront _ s).trans hclosed) us
  | cons t ts ih =>
      obtain ⟨hhere, hlater⟩ := not_or.1 h
      have hstep := eq_of_stepsInFront (stepsInFront_step hsemi us hs hfits hclosed) hhere
      have hclosed' : depthAfter (s.step t ts).2.depth ts = 0 := by
        rw [depth_step]
        exact hclosed
      rw [List.cons_append, marks, hstep, marks, List.cons_append,
        ih (step_spec hs t ts).1 (fits_step hs hfits) hclosed' hlater]

/-- An absorbed token begins a statement on its own and continues one in front of the semicolon. -/
theorem exists_of_absorbs (hsemi : semi.kind = .semicolon) (us : List Token) (hs : s.IsSound)
    (hfits : s.Fits ts) (hclosed : depthAfter s.depth ts = 0) (h : Absorbs (.ofBody 0 us) s ts) :
    ∃ i < ts.length, (marks s ts)[i]? = some .opens ∧
      (marks (s.inFront (.ofBody 0 us)) (ts ++ semi :: us))[i]? = some .continues := by
  induction ts generalizing s with
  | nil => exact h.elim
  | cons t ts ih =>
      have hstep := stepsInFront_step hsemi us hs hfits hclosed
      rw [List.cons_append, marks, marks]
      by_cases hhere : AbsorbsAt (.ofBody 0 us) s t ts
      · refine ⟨0, Nat.succ_pos _, congrArg some hhere.1, ?_⟩
        generalize State.step _ t (ts ++ semi :: us) = res at hstep
        cases hstep with
        | absorbing s' _ => rfl
        | agreeing hnot => exact absurd hhere hnot
      · have hclosed' : depthAfter (s.step t ts).2.depth ts = 0 := by
          rw [depth_step]
          exact hclosed
        rw [eq_of_stepsInFront hstep hhere]
        obtain ⟨i, hi, hopens, hcontinues⟩ :=
          ih (step_spec hs t ts).1 (fits_step hs hfits) hclosed' (h.resolve_left hhere)
        exact ⟨i + 1, Nat.succ_lt_succ hi, hopens, hcontinues⟩

end

end

end Split

end Tsql
