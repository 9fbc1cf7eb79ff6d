import Tsql.Indexed.Parse
import Tsql.Proofs.Indexed.Clause
import Tsql.Proofs.Statement.Outermost

/-!
The description of a statement that is read by index is that of the readers of token lists.

The markers of a statement are the markers that open it, of its common table expressions and of its
target, and those that the pass through its body places. They divide the whole statement
(`exists_markers?`), so each part of the description is what is found in the regions. The groups that
are no expressions are claimed by their indices here and by their ranks there, which comes to the same
(`Statement.contains_claimed`).
-/

namespace Tsql

open TokenSlice

variable {ts : List Token}

/-! ### Markers that open a statement -/

/-- The tokens in front of the first marker become a clause. -/
theorem Divides.opening {i : Nat} {ms : List Marker} {l : Layout} {clause : Clause}
    {behind : List Token → List Token} (h : Divides ts i ms (behind l.lead, l.regions))
    (hcut : Cut ts 0 i) (hlead : behind l.lead ≠ []) (hclause : clause ≠ .insertColumns) :
    Divides ts i (⟨clause, i, none⟩ :: ms)
      ((l.opening clause behind).lead, (l.opening clause behind).regions) := by
  have hbetween : behind l.lead = between ts i (Marker.firstIndex ts.length ms) := h.lead
  have hlt : i < Marker.firstIndex ts.length ms := by
    rw [← Nat.not_le]
    intro hle
    exact hlead (hbetween.trans (between_of_le hle))
  obtain ⟨t, ht⟩ := exists_getElem? (Nat.lt_of_lt_of_le hlt h.cut.stop_le)
  rw [between_cons ht hlt] at hbetween
  rw [Layout.opening, hbetween]
  exact ⟨(between_of_le (Nat.le_refl i)).symm, Nat.le_refl i, hcut,
    .cons rfl ht hlt rfl h.cut (if_neg hclause).symm (fun heq => absurd heq hclause) h.marks⟩

theorem Layout.duplicateFroms_opening {clause : Clause} (hclause : clause = .ctes ∨ clause = .target)
    (l : Layout) (behind : List Token → List Token) :
    duplicateFroms false (l.opening clause behind).regions = duplicateFroms false l.regions := by
  unfold opening
  split
  · rfl
  · rcases hclause with rfl | rfl <;> rfl

/-- The head of the body of a statement that changes a table is a word that begins no clause. -/
theorem exists_verb {body : Nat} {kind : StatementKind}
    (hkind : kind = .ofTokens (between ts body ts.length)) (h : kind.isDml) :
    ∃ t word, ts[body]? = some t ∧ body < ts.length ∧ t.kind = .keyword word ∧
      word ∈ Keyword.dmlWords ∧
      between ts body ts.length = t :: between ts (body + 1) ts.length := by
  obtain ⟨verb, rest, word, hown, hverb, hword⟩ := StatementKind.exists_word_of_isDml (hkind ▸ h)
  rcases getElem?_cases ts body with ⟨t, ht, hlt, hcons⟩ | ⟨-, hnil⟩
  · obtain rfl : t = verb := (List.cons.inj (hcons.symm.trans hown)).1
    exact ⟨t, word, ht, hlt, hverb, hword, hcons⟩
  · simp [hnil] at hown

theorem Marker.opening_of_isDml {kind : StatementKind} (h : kind.isDml) {body length : Nat}
    (hlt : body < length) :
    opening kind body length =
      (if 0 < body then [⟨.ctes, 0, none⟩] else []) ++ [⟨.target, body, none⟩] :=
  congrArg _ (if_pos ⟨h, hlt⟩)

theorem Marker.opening_of_not_isDml {kind : StatementKind} (h : ¬ kind.isDml) (body length : Nat) :
    opening kind body length = if 0 < body then [⟨.ctes, 0, none⟩] else [] := by
  rw [opening, if_neg (c := kind.isDml ∧ body < length) fun hboth => h hboth.1, List.append_nil]

theorem Marker.opening_append (kind : StatementKind) (body length : Nat) (ms : List Marker) :
    opening kind body length ++ ms =
      (if 0 < body then [⟨.ctes, 0, none⟩] else []) ++
        if kind.isDml ∧ body < length then ⟨.target, body, none⟩ :: ms else ms := by
  rw [opening, List.append_assoc]
  split <;> split <;> rfl

theorem tracks_opening {body : Nat} (hcomes : (ofTokens ts).ComesTo body) {kind : StatementKind}
    (hkind : kind = .ofTokens (between ts body ts.length)) :
    Tracks ts kind (Marker.opening kind body ts.length).getLast?
      { last := if kind.isDml then some .target else none } body := by
  by_cases hdml : kind.isDml
  · obtain ⟨t, word, ht, hlt, hword, -⟩ := exists_verb hkind hdml
    have hlast : (Marker.opening kind body ts.length).getLast? = some ⟨.target, body, none⟩ := by
      rw [Marker.opening_of_isDml hdml hlt, List.getLast?_concat]
    rw [hlast, if_pos hdml]
    refine ⟨hcomes, .inl rfl, fun m hm _ => ?_, fun hopen => ?_⟩
    · obtain rfl := Option.some.inj hm
      exact ⟨Nat.le_refl body, by rw [between_of_le (Nat.le_refl body)]; rfl⟩
    · simp [ht, Token.isOpen, hword] at hopen
  · have hlast : (Marker.opening kind body ts.length).getLast? = none ∨
        (Marker.opening kind body ts.length).getLast? = some ⟨.ctes, 0, none⟩ := by
      rw [Marker.opening_of_not_isDml hdml]
      split
      · exact .inr rfl
      · exact .inl rfl
    rw [if_neg hdml]
    refine ⟨hcomes, ?_, fun m hm hclause => ?_, fun _ hwrites => ?_⟩
    · rcases hlast with hlast | hlast <;> simp [hlast]
    · rcases hlast with hlast | hlast
      · simp [hlast] at hm
      · obtain rfl := Option.some.inj (hlast.symm.trans hm)
        contradiction
    · rcases hwrites with rfl | rfl <;> contradiction

/-- The markers of the body of a statement divide it. -/
theorem divides_ofBody {body : Nat} (hcomes : (ofTokens ts).ComesTo body) {kind : StatementKind}
    (hkind : kind = .ofTokens (between ts body ts.length)) {s : Region.State} {ms : List Marker}
    (h : Divides ts body ms (Region.cut kind s (between ts body ts.length))) :
    let main := Layout.ofBody kind s (between ts body ts.length)
    Divides ts body (if kind.isDml ∧ body < ts.length then ⟨.target, body, none⟩ :: ms else ms)
      (main.lead, main.regions) := by
  by_cases hdml : kind.isDml
  · obtain ⟨t, word, ht, hlt, hkind', hword, hcons⟩ := exists_verb hkind hdml
    dsimp only
    rw [if_pos ⟨hdml, hlt⟩, Layout.ofBody, if_pos hdml]
    refine Divides.opening h (cut_of_keyword hcomes ht hkind' ?_) ?_ (by decide)
    · rintro rfl
      exact absurd hword (by decide)
    · rw [hcons, Region.cut_keyword hkind' (Region.State.clause?_of_verb hkind' hword)]
      exact List.cons_ne_nil _ _
  · dsimp only
    rw [if_neg fun hboth => hdml hboth.1, Layout.ofBody, if_neg hdml]
    exact h

theorem duplicateFroms_ofBody (kind : StatementKind) (s : Region.State) (body : List Token) :
    duplicateFroms false (Layout.ofBody kind s body).regions =
      duplicateFroms false (Region.cut kind s body).2 := by
  unfold Layout.ofBody
  dsimp only
  split
  · exact Layout.duplicateFroms_opening (.inr rfl) _ _
  · rfl

/-- The markers of a statement with `body` tokens in front of its body divide all of it. -/
theorem exists_markers? {body : Nat} (hbody : body ≤ ts.length) (hcomes : (ofTokens ts).ComesTo body)
    (hwith : 0 < body → ts[0]?.any fun t => t.isKeyword .WITH) {kind : StatementKind}
    (hkind : kind = .ofTokens (between ts body ts.length)) :
    let layout := Layout.ofTokens kind (ts.take body) (between ts body ts.length)
    ∃ ms, (ofTokens ts).markers? kind (Marker.opening kind body ts.length).getLast? false 0 body =
        some (ms, duplicateFroms false layout.regions) ∧
      Divides ts 0 (Marker.opening kind body ts.length ++ ms) (layout.lead, layout.regions) := by
  obtain ⟨ms, hms, hdivides⟩ := markers?_eq (tracks_opening hcomes hkind) hbody false
  have hmain := divides_ofBody hcomes hkind hdivides
  rw [← duplicateFroms_ofBody] at hms
  have hlayout : Layout.ofTokens kind (ts.take body) (between ts body ts.length) =
      let main := Layout.ofBody kind { last := if kind.isDml then some .target else none }
        (between ts body ts.length)
      if (ts.take body).isEmpty then main else main.opening .ctes (ts.take body ++ ·) := rfl
  generalize Layout.ofBody kind _ _ = main at hms hmain hlayout
  dsimp only at hmain hlayout ⊢
  rw [hlayout]
  refine ⟨ms, ?_⟩
  rw [Marker.opening_append]
  rcases Nat.eq_zero_or_pos body with rfl | hpos
  · exact ⟨hms, hmain⟩
  · obtain ⟨t, ht, hkindWith⟩ := (Option.any_eq_true _ _).1 (hwith hpos)
    have htake : ts.take body = t :: between ts 1 body := between_cons ht hpos
    have hcut : Cut ts 0 0 :=
      cut_of_keyword .first ht (Token.kind_of_isKeyword hkindWith) (by decide)
    rw [htake, List.isEmpty_cons, if_neg Bool.false_ne_true, if_pos hpos, ← htake,
      Layout.duplicateFroms_opening (.inl rfl)]
    exact ⟨hms, Divides.opening (hmain.extend (Nat.zero_le body)) hcut (by simp [htake]) (by decide)⟩

/-! ### Statements -/

section

variable {nested? : List Token → Option Statement} {nested : List Token → Statement}

theorem exists_heading? (hnested : ∀ us, nested? us = some (nested us)) (first : Token)
    (rest : List Token) :
    ∃ c, Indexed.heading? nested? first (ofTokens (first :: rest)) = some c ∧
      c.Reads (first :: rest) (Statement.heading nested (first :: rest)) ∧
      c.stop ≤ (first :: rest).length ∧ (ofTokens (first :: rest)).ComesTo c.stop ∧
      (0 < c.stop → first.isKeyword .WITH) := by
  rw [Statement.heading, Indexed.heading?]
  split
  · next hwith =>
    have hone : 1 ≤ (first :: rest).length := by simp
    obtain ⟨c, hc, hpasses, hreads⟩ := cteList?_reads hnested hone
    have hcomes : (ofTokens (first :: rest)).ComesTo 1 :=
      ComesTo.first.step (by simp [Token.isOpen_of_isKeyword hwith])
    rw [between_length] at hreads
    exact ⟨c, hc, hreads, hpasses.le_length, hpasses.comesTo hcomes, fun _ => hwith⟩
  · refine ⟨_, rfl, ⟨rfl, rfl, rfl, ?_⟩, Nat.zero_le _, .first, fun h => absurd h (Nat.lt_irrefl 0)⟩
    exact (between_length _ 0).symm

theorem bind_of_eq_some {α β : Type} {x : Option α} {a : α} (h : x = some a) (f : α → Option β) :
    x >>= f = f a := by
  rw [h]
  rfl

/-! ### Claimed groups -/

namespace Statement

/-- No group has more tokens from its parenthesis on than there are. -/
theorem le_length_of_mem_claimed {rank : Nat} (h : rank ∈ claimed nested ts) : rank ≤ ts.length := by
  rw [claimed, List.mem_append, List.mem_append, List.mem_append] at h
  rcases h with ((h | h) | h) | h
  · obtain ⟨t, us, hsuffix, rfl, -⟩ := holdsAt_heading h
    exact hsuffix.length_le
  · have hbody := ObjectHead.le_length_of_definitions (Option.mem_toList.1 h)
    exact Nat.le_trans hbody (skips_heading nested ts).suffix.length_le
  · obtain ⟨r, -, -, us, hsuffix, rfl⟩ := Region.exists_of_mem_columnLists h
    exact (hsuffix.trans (regions_suffix nested ts)).length_le
  · exact (isRanked_found nested ts).le_length h

/-- The groups that are claimed by their indices are those that are claimed by their ranks. -/
theorem contains_claimed {i : Nat} (hi : i < ts.length) :
    ((claimed nested ts).map (ts.length - ·)).contains i =
      (claimed nested ts).contains (ts.length - i) := by
  rw [Bool.eq_iff_iff, List.contains_iff_mem, List.contains_iff_mem, List.mem_map]
  constructor
  · rintro ⟨rank, hrank, rfl⟩
    rwa [Nat.sub_sub_self (le_length_of_mem_claimed hrank)]
  · exact fun hrank => ⟨_, hrank, Nat.sub_sub_self (Nat.le_of_lt hi)⟩

end Statement

/-! ### Descriptions -/

namespace Indexed

/-- The groups that are claimed, by their indices. -/
theorem byIndex_claimed (nested : List Token → Statement) (ts : List Token) :
    (Statement.heading nested ts).groups.map (ts.length - ·) ++
          ((ObjectHead.ofBody (.ofTokens (Statement.heading nested ts).rest)
            (Statement.heading nested ts).rest).byIndex ts.length).definitions.toList ++
        (Region.columnLists (Statement.layout nested ts).regions).map (ts.length - ·) ++
      ((Sources.ofRegions nested false (Statement.layout nested ts).regions).byIndex
        ts.length).groups = (Statement.claimed nested ts).map (ts.length - ·) := by
  rw [ObjectHead.byIndex, Option.toList_map, Statement.claimed, List.map_append, List.map_append,
    List.map_append]
  rfl

theorem build?_eq (hnested : ∀ us, nested? us = some (nested us)) (ts : List Token) :
    build? nested? ts = some (Statement.build nested ts) := by
  cases ts with
  | nil => rfl
  | cons first rest =>
      obtain ⟨c, hc, hreads, hbody, hcomes, hwith⟩ := exists_heading? hnested first rest
      have hrest := hreads.rest
      have hlayout : Statement.layout nested (first :: rest) =
          Layout.ofTokens (.ofTokens (between (first :: rest) c.stop (first :: rest).length))
            ((first :: rest).take c.stop)
            (between (first :: rest) c.stop (first :: rest).length) := by
        rw [Statement.layout, hrest, length_between, Nat.min_self, Nat.sub_sub_self hbody]
      obtain ⟨ms, hms, hdivides⟩ := exists_markers? hbody hcomes (fun h => hwith h) rfl
      rw [← hlayout] at hms hdivides
      have hcovers := hdivides.marks.covers [] (by simp)
      rw [List.nil_append] at hcovers
      have habut := hdivides.marks.abut
      have hown : between? (first :: rest) (min c.stop (first :: rest).length)
          (first :: rest).length =
            some (between (first :: rest) c.stop (first :: rest).length) := by
        rw [Nat.min_eq_left hbody, between?_eq hbody (Nat.le_refl _)]
      unfold build?
      refine (bind_of_eq_some (ofTokens?_eq _) _).trans ?_
      refine (bind_of_eq_some hc _).trans ?_
      refine (bind_of_eq_some hown _).trans ?_
      refine (bind_of_eq_some (kindOf?_eq _) _).trans ?_
      refine (bind_of_eq_some hms _).trans ?_
      refine (bind_of_eq_some (clauseRanges?_eq hdivides.marks _) _).trans ?_
      refine (bind_of_eq_some (sources?_eq hnested hcovers habut false) _).trans ?_
      refine (bind_of_eq_some (target?_eq hnested hcovers) _).trans ?_
      refine (bind_of_eq_some (outputColumns?_eq hcovers) _).trans ?_
      refine (bind_of_eq_some (insertColumns?_eq hcovers) _).trans ?_
      refine (bind_of_eq_some (selectedInto?_eq hcovers _) _).trans ?_
      refine (bind_of_eq_some (objectHead?_eq hbody _) _).trans ?_
      dsimp only
      rw [map_first_insertColumns hcovers habut, hreads.groups]
      rw [← hrest] at hdivides ⊢
      rw [byIndex_claimed]
      refine (bind_of_eq_some (expressionQueries?_eq hdivides hnested fun i hi =>
        Statement.contains_claimed hi) _).trans ?_
      refine (bind_of_eq_some (forwardReferences?_eq _) _).trans ?_
      rw [usedDatabase?_eq, hreads.ctes, hreads.issues, ← hrest]
      rfl

theorem unwrapped?_eq (ts : List Token) : unwrapped? ts = some (Statement.unwrapped ts) := by
  cases ts with
  | nil =>
      rw [unwrapped?, Statement.unwrapped]
      rfl
  | cons t rest =>
      have hstarts : startsOpen (t :: rest) = t.isOpen := rfl
      rw [unwrapped?, Statement.unwrapped, hstarts]
      cases hopen : t.isOpen with
      | false => rfl
      | true =>
          have hwhole : ((Group.after rest).isClosed && (Group.after rest).rest.isEmpty) =
              decide (closeAt? (t :: rest) 0 = some ((t :: rest).length - 1)) :=
            Group.isWhole_eq (show (t :: rest)[0]?.any Token.isOpen from hopen)
          rw [if_pos rfl, ofTokens?_eq, Option.bind_some, difference?_eq (by simp),
            Option.bind_some, Bool.true_and, hwhole, closeOf?_ofTokens]
          by_cases hclose : closeAt? (t :: rest) 0 = some ((t :: rest).length - 1)
          · obtain ⟨-, hpos, hlast⟩ := closeAt?_eq_some hclose
            have hinner : (Group.after rest).inner =
                between (t :: rest) 1 ((t :: rest).length - 1) := Group.inner_of_closeAt? hclose
            have hlt : (Group.after rest).inner.length < (t :: rest).length :=
              Nat.lt_succ_of_le (Group.length_inner_le rest)
            have hbetween := between?_eq hpos (Nat.sub_le (t :: rest).length 1)
            rw [← hinner] at hbetween
            rw [if_pos hclose, if_pos (by simpa using hclose)]
            split
            · next inner hsome =>
              obtain rfl := Option.some.inj (hbetween.symm.trans hsome)
              rw [dif_pos hlt]
              exact unwrapped?_eq (Group.after rest).inner
            · next hnone => exact absurd (hbetween.symm.trans hnone) (by simp)
          · rw [if_neg hclose, if_neg (by simpa using hclose)]
termination_by ts.length
decreasing_by exact Nat.lt_succ_of_le (Group.length_inner_le rest)

theorem ofQuery?_eq (levels : Nat) (ts : List Token) :
    ofQuery? levels ts = some (Statement.ofQuery levels ts) := by
  induction levels generalizing ts with
  | zero => rw [ofQuery?, unwrapped?_eq]; rfl
  | succ levels ih =>
      rw [ofQuery?, unwrapped?_eq, Option.bind_some, build?_eq ih]
      rfl

/-- Every statement is read without a failure. -/
theorem parse?_eq (ts : List Token) : parse? ts = some (Statement.parse ts) := by
  rw [parse?, build?_eq (ofQuery?_eq _)]
  rfl

end Indexed

end

end Tsql
