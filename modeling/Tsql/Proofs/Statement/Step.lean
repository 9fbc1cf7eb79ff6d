import Tsql.Proofs.Token.Group
import Tsql.Statement.Split

/-!
What a step of the division into statements does with a token.

A token outside groups that separates statements leaves none that is being read; so does the word
`TRY` or `CATCH` behind the end of a block. Any other token is taken into a statement, the one being
read or a new one (`Split.steps_step`). The groups that are open in the statement being read are
those of the tokens in front (`Split.depth_step`).
-/

namespace Tsql

namespace Split

/-- Number of groups that are open in the statement being read. -/
def State.depth (s : State) : Nat :=
  s.current.elim 0 Reading.depth

/-- Whether a token outside groups separates statements: it is a semicolon, or it opens or closes a
block or its alternative. -/
def separates (t : Token) (following : List Token) : Bool :=
  t.kind = .semicolon || t.isKeyword .END || t.isKeyword .ELSE ||
    t.isKeyword .BEGIN && opensBlock following

theorem flat_of_separates {t : Token} {following : List Token} (h : separates t following) :
    t.isOpen = false ∧ t.isClose = false := by
  simp only [separates, Token.isKeyword, Bool.or_eq_true, Bool.and_eq_true, decide_eq_true_eq] at h
  rcases h with ((h | h) | h) | ⟨h, -⟩ <;> simp [Token.isOpen, Token.isClose, h]

/-- A keyword that continues a statement changes at most what is known of its body and source. -/
theorem meets?_cases {r r' : Reading} {word : Keyword} {following : List Token}
    (h : r.meets? word following = some r') :
    r' = r ∨ r' = { r with hasSource := true } ∧ r.kind = .insert ∨
      r' = { r with awaitsBody := false } ∧ word.dmlKind?.isSome := by
  unfold Reading.meets? at h
  grind

theorem depth_of_meets? {r r' : Reading} {word : Keyword} {following : List Token}
    (h : r.meets? word following = some r') : r'.depth = r.depth := by
  rcases meets?_cases h with rfl | ⟨rfl, -⟩ | ⟨rfl, -⟩ <;> rfl

theorem kind_of_meets? {r r' : Reading} {word : Keyword} {following : List Token}
    (h : r.meets? word following = some r') : r'.kind = r.kind := by
  rcases meets?_cases h with rfl | ⟨rfl, -⟩ | ⟨rfl, -⟩ <;> rfl

/-! ### Steps -/

/-- What a step may do with a token. -/
inductive Steps (s : State) (t : Token) (following : List Token) : Mark × State → Prop
  /-- The word belongs to the end of a block. -/
  | closing (hclosed : s.closedBlock) (hword : t.isWord "TRY" ∨ t.isWord "CATCH") :
      Steps s t following (.delimits, { s with closedBlock := false })
  | separating (s' : State) (hdepth : s.depth = 0) (hsep : separates t following)
      (hcurrent : s'.current = none)
      (hclosed : s'.closedBlock → t.isKeyword .END ∨ t.isKeyword .ELSE) :
      Steps s t following (.delimits, s')
  | opening (cases : Nat) (hdepth : s.depth = 0) :
      Steps s t following (.opens, ⟨some (.start t following), cases, false⟩)
  | continuing (r r' : Reading) (cases : Nat) (hcurrent : s.current = some r)
      (hdepth : r'.depth = r.depth) :
      Steps s t following
        (.continues, ⟨some { r' with depth := t.depthAfter r'.depth, last := t }, cases, false⟩)

variable {s : State} {t : Token} {following : List Token}

theorem steps_take (s' : State) (h : s'.current = s.current) :
    Steps s t following (s'.take t following) := by
  unfold State.take
  split
  · next r hcurrent => exact .continuing r r s'.cases (h.symm.trans hcurrent) rfl
  · next hcurrent =>
    refine .opening s'.cases ?_
    rw [State.depth, ← h, hcurrent]
    rfl

/-- A keyword that the statement being read meets continues it. -/
theorem meet_eq_continues {r r' : Reading} (hcurrent : s.current = some r) {word : Keyword}
    (h : r.meets? word following = some r') :
    s.meet t word following =
      (.continues,
        ⟨some { r' with depth := t.depthAfter r'.depth, last := t }, s.cases, false⟩) := by
  simp only [State.meet, hcurrent, h, State.take]

/-- A keyword that it does not meet opens the next statement. -/
theorem meet_eq_opens {r : Reading} (hcurrent : s.current = some r) {word : Keyword}
    (h : r.meets? word following = none) :
    s.meet t word following = (.opens, ⟨some (.start t following), 0, false⟩) := by
  simp only [State.meet, hcurrent, h, State.take]

theorem steps_meet (hdepth : s.depth = 0) (s' : State) (h : s'.current = s.current)
    (word : Keyword) : Steps s t following (s'.meet t word following) := by
  cases hcurrent : s'.current with
  | none =>
      rw [State.meet, hcurrent]
      exact steps_take s' h
  | some r =>
      cases hmeets : r.meets? word following with
      | none =>
          rw [meet_eq_opens hcurrent hmeets]
          exact .opening 0 hdepth
      | some r' =>
          rw [meet_eq_continues hcurrent hmeets]
          exact .continuing r r' s'.cases (h.symm.trans hcurrent) (depth_of_meets? hmeets)

theorem steps_step (s : State) (t : Token) (following : List Token) :
    Steps s t following (s.step t following) := by
  unfold State.step
  split
  · next hclosed =>
    rw [Bool.and_eq_true, Bool.or_eq_true] at hclosed
    exact .closing hclosed.1 hclosed.2
  split
  · exact steps_take s rfl
  · next hdepth =>
    replace hdepth : s.depth = 0 := Classical.not_not.1 hdepth
    have hkeyword : ∀ {word : Keyword}, t.kind = .keyword word → t.isKeyword word :=
      fun h => decide_eq_true h
    split
    · next hkind => exact .separating _ hdepth (by simp [separates, hkind]) rfl (by simp)
    · exact steps_meet hdepth { s with cases := s.cases + 1 } rfl .CASE
    · next hkind =>
      split
      · refine .separating _ hdepth ?_ rfl fun _ => .inl (hkeyword hkind)
        simp [separates, hkeyword hkind]
      · exact steps_meet hdepth { s with cases := s.cases - 1 } rfl .END
    · next hkind =>
      split
      · refine .separating _ hdepth ?_ rfl fun _ => .inr (hkeyword hkind)
        simp [separates, hkeyword hkind]
      · exact steps_meet hdepth s rfl .ELSE
    · next hkind =>
      split
      · next hblock =>
        exact .separating _ hdepth (by simp [separates, hkeyword hkind, hblock]) rfl (by simp)
      · exact steps_meet hdepth s rfl .BEGIN
    · next word _ _ _ _ _ => exact steps_meet hdepth s rfl word
    · exact steps_take s rfl

theorem current_of_opens (h : (s.step t following).1 = .opens) :
    (s.step t following).2.current = some (.start t following) := by
  have hstep := steps_step s t following
  generalize s.step t following = res at hstep h
  cases hstep with
  | closing hclosed hword => contradiction
  | separating s' hdepth hsep hcurrent hclosed => contradiction
  | opening cases hdepth => rfl
  | continuing r r' cases hcurrent hdepth => contradiction

/-- The depth of the statement being read is that of the tokens. -/
theorem depth_step (s : State) (t : Token) (following : List Token) :
    (s.step t following).2.depth = t.depthAfter s.depth := by
  have hstep := steps_step s t following
  generalize s.step t following = res at hstep ⊢
  cases hstep with
  | closing hclosed hword =>
      have hflat := hword.elim Token.flat_of_isWord Token.flat_of_isWord
      exact (Token.depthAfter_of_flat hflat _).symm
  | separating s' hdepth hsep hcurrent hclosed =>
      rw [hdepth, Token.depthAfter_of_flat (flat_of_separates hsep), State.depth, hcurrent]
      rfl
  | opening cases hdepth => rw [hdepth]; rfl
  | continuing r r' cases hcurrent hdepth =>
      rw [State.depth, State.depth, hcurrent]
      exact congrArg t.depthAfter hdepth

theorem take_ne_delimits (s : State) (t : Token) (following : List Token) :
    (s.take t following).1 ≠ .delimits := by
  rw [State.take]
  split <;> simp

/-- A token inside a group, or one that is no keyword and no semicolon, is taken as it is. -/
theorem step_eq_take (hword : s.closedBlock → t.isWord "TRY" = false ∧ t.isWord "CATCH" = false)
    (h : s.depth ≠ 0 ∨ t.kind ≠ .semicolon ∧ ∀ word, t.kind ≠ .keyword word) :
    s.step t following = s.take t following := by
  rw [State.step, if_neg]
  · by_cases hdepth : s.depth = 0
    · obtain ⟨hsemicolon, hkeyword⟩ := h.resolve_left (not_not_intro hdepth)
      refine (if_neg (not_not_intro hdepth)).trans ?_
      split
      · next hkind => exact absurd hkind hsemicolon
      · next hkind => exact absurd hkind (hkeyword .CASE)
      · next hkind => exact absurd hkind (hkeyword .END)
      · next hkind => exact absurd hkind (hkeyword .ELSE)
      · next hkind => exact absurd hkind (hkeyword .BEGIN)
      · next word _ _ _ _ hkind => exact absurd hkind (hkeyword word)
      · rfl
    · exact if_pos hdepth
  · rw [Bool.and_eq_true, Bool.or_eq_true]
    rintro ⟨hclosed, hor⟩
    simp [hword hclosed] at hor

/-- Such a token continues the statement being read. -/
theorem step_some (r : Reading) (cases : Nat)
    (h : r.depth ≠ 0 ∨ t.kind ≠ .semicolon ∧ ∀ word, t.kind ≠ .keyword word) :
    State.step ⟨some r, cases, false⟩ t following =
      (.continues, ⟨some { r with depth := t.depthAfter r.depth, last := t }, cases, false⟩) :=
  step_eq_take (s := ⟨some r, cases, false⟩) (fun hclosed => absurd hclosed Bool.false_ne_true) h

/-- Keywords that open or close a block, or a `CASE` in it. -/
def blockWords : List Keyword :=
  [.CASE, .END, .ELSE, .BEGIN]

theorem step_keyword {word : Keyword} (h : t.kind = .keyword word) (hword : word ∉ blockWords)
    (following : List Token) (s : State) (hdepth : s.depth = 0) (hclosed : s.closedBlock = false) :
    s.step t following = s.meet t word following := by
  simp only [blockWords, List.mem_cons, List.not_mem_nil, or_false, not_or] at hword
  rw [State.step, hclosed, Bool.false_and, if_neg Bool.false_ne_true]
  refine (if_neg (not_not_intro hdepth)).trans ?_
  rw [h]
  split <;> simp_all

/-- Where no statement is being read such a keyword opens one. -/
theorem step_eq_opens {word : Keyword} (h : t.kind = .keyword word) (hword : word ∉ blockWords)
    (following : List Token) :
    State.step {} t following = (.opens, ⟨some (.start t following), 0, false⟩) := by
  rw [step_keyword h hword following {} rfl rfl]
  rfl

/-- A semicolon outside groups ends all that is being read. -/
theorem step_semicolon (h : t.kind = .semicolon) (hdepth : s.depth = 0) (following : List Token) :
    s.step t following = (.delimits, {}) := by
  have hword : ∀ word, t.isWord word = false := by simp [Token.isWord, h]
  rw [State.step, hword, hword, Bool.or_false, Bool.and_false, if_neg Bool.false_ne_true]
  refine (if_neg (not_not_intro hdepth)).trans ?_
  rw [h]

/-- The word behind the end of a block is part of it. -/
theorem step_closing (hclosed : s.closedBlock) (hword : t.isWord "TRY" ∨ t.isWord "CATCH")
    (following : List Token) :
    s.step t following = (.delimits, { s with closedBlock := false }) := by
  rw [State.step, if_pos]
  rw [Bool.and_eq_true, Bool.or_eq_true]
  exact ⟨hclosed, hword⟩

/-- Any other word behind the end of a block is read as if there were no block. -/
theorem step_of_closedBlock (s : State) (following : List Token)
    (h : s.closedBlock → t.isWord "TRY" = false ∧ t.isWord "CATCH" = false) :
    s.step t following = State.step { s with closedBlock := false } t following := by
  have hnot : (s.closedBlock && (t.isWord "TRY" || t.isWord "CATCH")) = false := by
    rw [Bool.and_eq_false_imp]
    intro hclosed
    simp [h hclosed]
  rw [State.step, State.step, hnot]
  rfl

/-- A keyword outside groups delimits for any statement being read, or it is met by that statement.
Which of them is the case depends on the blocks alone. -/
theorem step_keyword_cases {word : Keyword} (h : t.kind = .keyword word) (cases : Nat)
    (blocks : Bool) :
    (∃ s' : State, s'.current = none ∧ ∀ current : Option Reading,
        current.elim 0 Reading.depth = 0 → ∀ following, opensBlock following = blocks →
          State.step ⟨current, cases, false⟩ t following = (.delimits, s')) ∨
      ∃ cases', ∀ current : Option Reading, current.elim 0 Reading.depth = 0 → ∀ following,
        opensBlock following = blocks →
          State.step ⟨current, cases, false⟩ t following =
            State.meet ⟨current, cases', false⟩ t word following := by
  by_cases hword : word ∈ blockWords
  · simp only [blockWords, List.mem_cons, List.not_mem_nil, or_false] at hword
    rcases hword with rfl | rfl | rfl | rfl
    · exact .inr ⟨cases + 1, fun _ hdepth _ _ => by simp [State.step, h, hdepth]⟩
    · by_cases hcases : cases = 0
      · exact .inl ⟨{ closedBlock := true }, rfl, fun _ hdepth _ _ => by
          simp [State.step, h, hdepth, hcases]⟩
      · exact .inr ⟨cases - 1, fun _ hdepth _ _ => by simp [State.step, h, hdepth, hcases]⟩
    · by_cases hcases : cases = 0
      · exact .inl ⟨{ closedBlock := true }, rfl, fun _ hdepth _ _ => by
          simp [State.step, h, hdepth, hcases]⟩
      · exact .inr ⟨cases, fun _ hdepth _ _ => by simp [State.step, h, hdepth, hcases]⟩
    · cases blocks
      · exact .inr ⟨cases, fun _ hdepth _ hblock => by simp [State.step, h, hdepth, hblock]⟩
      · exact .inl ⟨{ cases := cases }, rfl, fun _ hdepth _ hblock => by
          simp [State.step, h, hdepth, hblock]⟩
  · exact .inr ⟨cases, fun _ hdepth following _ => step_keyword h hword following _ hdepth rfl⟩

/-- How a token continues a statement. A keyword outside groups is met by it, and it would be met by
any other statement in its place. -/
theorem continues_cases {r : Reading} {cases : Nat} {s' : State}
    (h : State.step ⟨some r, cases, false⟩ t following = (.continues, s')) :
    (r.depth ≠ 0 ∨ t.kind ≠ .semicolon ∧ ∀ word, t.kind ≠ .keyword word) ∧
        s' = ⟨some { r with depth := t.depthAfter r.depth, last := t }, cases, false⟩ ∨
      r.depth = 0 ∧ ∃ word r' cases', t.kind = .keyword word ∧ r.meets? word following = some r' ∧
        s' = ⟨some { r' with depth := t.depthAfter r'.depth, last := t }, cases', false⟩ ∧
          ∀ r₂ : Reading, r₂.depth = 0 → State.step ⟨some r₂, cases, false⟩ t following =
            State.meet ⟨some r₂, cases', false⟩ t word following := by
  by_cases hdepth : r.depth = 0
  · by_cases hkeyword : ∃ word, t.kind = .keyword word
    · obtain ⟨word, hkind⟩ := hkeyword
      rcases step_keyword_cases hkind cases (opensBlock following) with
        ⟨s₀, -, hall⟩ | ⟨cases', hall⟩
      · rw [hall (some r) hdepth following rfl] at h
        cases h
      · rw [hall (some r) hdepth following rfl] at h
        cases hmeets : r.meets? word following with
        | none =>
            rw [meet_eq_opens rfl hmeets] at h
            cases h
        | some r' =>
            rw [meet_eq_continues rfl hmeets] at h
            exact .inr ⟨hdepth, word, r', cases', hkind, hmeets, (Prod.mk.inj h).2.symm,
              fun r₂ hr₂ => hall (some r₂) hr₂ following rfl⟩
    · have hsemicolon : t.kind ≠ .semicolon := by
        intro hkind
        simp [State.step, hkind, hdepth] at h
      have hplain : r.depth ≠ 0 ∨ t.kind ≠ .semicolon ∧ ∀ word, t.kind ≠ .keyword word :=
        .inr ⟨hsemicolon, fun word hkind => hkeyword ⟨word, hkind⟩⟩
      rw [step_some r cases hplain] at h
      exact .inl ⟨hplain, (Prod.mk.inj h).2.symm⟩
  · rw [step_some r cases (.inl hdepth)] at h
    exact .inl ⟨.inl hdepth, (Prod.mk.inj h).2.symm⟩

/-! ### Statements without groups, blocks and a body to come -/

/-- A statement of the given kind is being read, outside groups and blocks. -/
def reading (kind : StatementKind) (last : Token) : State :=
  { current := some { kind := kind, awaitsBody := false, last := last } }

/-- A keyword begins a statement of the kind that its first tokens tell. -/
theorem step_begins {word : Keyword} (h : t.kind = .keyword word) (hblock : word ∉ blockWords)
    (hwith : word ≠ .WITH) {kind : StatementKind}
    (hkind : StatementKind.ofTokens (t :: following) = kind) :
    State.step {} t following = (.opens, reading kind t) := by
  have hstart : Reading.start t following = { kind := kind, awaitsBody := false, last := t } := by
    simp [Reading.start, hkind, Token.isKeyword, h, hwith,
      Token.depthAfter_of_keyword h]
  rw [step_eq_opens h hblock following, hstart, reading]

variable {kind : StatementKind} {last : Token}

/-- A token that is no keyword, no parenthesis and no semicolon continues a statement. -/
theorem step_other (hsemicolon : t.kind ≠ .semicolon) (hkeyword : ∀ word, t.kind ≠ .keyword word)
    (hflat : t.isOpen = false ∧ t.isClose = false) :
    (reading kind last).step t following = (.continues, reading kind t) := by
  rw [reading, step_some _ 0 (.inr ⟨hsemicolon, hkeyword⟩), Token.depthAfter_of_flat hflat]
  rfl

theorem step_word {word : Keyword} (h : t.kind = .keyword word) (hopens : word ∉ openers)
    (hblock : word ∉ blockWords) (following : List Token) :
    (reading kind last).step t following = (.continues, reading kind t) := by
  have hdepth := Token.depthAfter_of_keyword h 0
  have hmeets : ∀ r : Reading, r.meets? word following = some r := by
    simp [Reading.meets?, hopens]
  rw [step_keyword h hblock following _ rfl rfl, meet_eq_continues rfl (hmeets _), hdepth]
  rfl

/-! ### Blocks -/

/-- Behind the end of a block no statement is being read. -/
def State.IsSound (s : State) : Prop :=
  s.closedBlock → s.current = none

/-- What a step does to the statement being read: a token that delimits leaves none, and only one
that is being read is continued. -/
theorem step_spec {s : State} (h : s.IsSound) (t : Token) (following : List Token) :
    (s.step t following).2.IsSound ∧
      ((s.step t following).1 = .delimits → (s.step t following).2.current = none) ∧
        (s.current = none → (s.step t following).1 ≠ .continues) := by
  have hstep := steps_step s t following
  generalize s.step t following = res at hstep ⊢
  cases hstep with
  | closing hclosed hword => exact ⟨fun _ => h hclosed, fun _ => h hclosed, fun _ => by simp⟩
  | separating s' hdepth hsep hcurrent hclosed =>
      exact ⟨fun _ => hcurrent, fun _ => hcurrent, fun _ => by simp⟩
  | opening cases hdepth => exact ⟨by simp [State.IsSound], by simp, fun _ => by simp⟩
  | continuing r r' cases hcurrent hdepth =>
      exact ⟨by simp [State.IsSound], by simp, fun hnone => by simp [hnone] at hcurrent⟩

end Split

end Tsql
