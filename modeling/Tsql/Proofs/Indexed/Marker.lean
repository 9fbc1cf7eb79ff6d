import Tsql.Indexed.Marker
import Tsql.Proofs.Indexed.Column
import Tsql.Proofs.Indexed.CommonTable
import Tsql.Proofs.Statement.Layout

/-!
The markers of clauses stand where the regions of a statement begin.

A marker stands outside groups, so a statement may be cut there (`cut_of_comesTo`). One step of the
pass that places markers does to the last marker what one step of `Region.cut` does to its state
(`Tracks`), and so the markers that are placed are those of the regions (`markers?_eq`).
-/

namespace Tsql

open TokenSlice

variable {ts : List Token}

/-! ### Cuts -/

/-- No group is open in front of an index that the markers come to. -/
theorem cut_of_comesTo {i : Nat} {t : Token} (hcomes : (ofTokens ts).ComesTo i)
    (ht : ts[i]? = some t) (hnumber : t.kind ≠ .number) (hties : t.isKeyword .TIES = false)
    (hbehind : t.isOpen → ts[i - 1]?.any fun p => p.isName || p.isKeyword .INSERT) :
    Cut ts 0 i where
  stop_le := Nat.le_of_lt (List.getElem?_eq_some_iff.1 ht).1
  skip_le k _ hk hopen := by
    have hlt := (List.getElem?_eq_some_iff.1 ht).1
    obtain ⟨j, hj, hji⟩ :=
      depthAfter_take_eq_zero_iff.1 (depthAfter_of_comesTo hcomes hlt) k hk hopen
    rw [skipGroup_of_closeAt? hj]
    exact hji
  notNumber := by simp [ht, hnumber]
  notTies := by simp [ht, hties]
  behindName h := hbehind (by simpa [ht] using h)

/-- A clause may be cut in front of a keyword outside groups that begins the next clause. -/
theorem cut_of_keyword {i : Nat} {t : Token} {word : Keyword} (hcomes : (ofTokens ts).ComesTo i)
    (ht : ts[i]? = some t) (hkind : t.kind = .keyword word) (hword : word ≠ .TIES) : Cut ts 0 i :=
  cut_of_comesTo hcomes ht (by simp [hkind]) (by simp [Token.isKeyword, hkind, hword])
    (by simp [Token.isOpen, hkind])

/-! ### Markers and regions -/

/-- The regions begin at the markers, and each lasts to the next one. -/
inductive Marks (ts : List Token) : List Marker → List Region → Prop
  | nil : Marks ts [] []
  | cons {m : Marker} {r : Region} {ms : List Marker} {rs : List Region}
      (clause : r.clause = m.clause) (head : ts[m.index]? = some r.head)
      (lt : m.index < Marker.firstIndex ts.length ms)
      (tail : r.tail = between ts (m.index + 1) (Marker.firstIndex ts.length ms))
      (cut : Cut ts 0 (Marker.firstIndex ts.length ms))
      (stop : m.stop =
        if m.clause = .insertColumns then some ((ofTokens ts).skipGroup m.index) else none)
      (opens : m.clause = .insertColumns → r.head.isOpen)
      (later : Marks ts ms rs) : Marks ts (m :: ms) (r :: rs)

/-- The markers from an index on are where the tokens from there on are cut. -/
structure Divides (ts : List Token) (i : Nat) (ms : List Marker)
    (pieces : List Token × List Region) : Prop where
  lead : pieces.1 = between ts i (Marker.firstIndex ts.length ms)
  le : i ≤ Marker.firstIndex ts.length ms
  cut : Cut ts 0 (Marker.firstIndex ts.length ms)
  marks : Marks ts ms pieces.2

namespace Divides

variable {i j : Nat} {t : Token} {ms : List Marker} {pieces : List Token × List Region}

/-- Tokens in front of which there is no marker. -/
theorem extend (h : Divides ts j ms pieces) (hij : i ≤ j) :
    Divides ts i ms (between ts i j ++ pieces.1, pieces.2) where
  lead := by rw [h.lead, between_append hij h.le]
  le := Nat.le_trans hij h.le
  cut := h.cut
  marks := h.marks

theorem pass (h : Divides ts (i + 1) ms pieces) (ht : ts[i]? = some t) :
    Divides ts i ms (t :: pieces.1, pieces.2) := by
  have hextend := h.extend (Nat.le_succ i)
  rwa [between_cons ht (Nat.lt_succ_self i), between_of_le (Nat.le_refl (i + 1))] at hextend

/-- A clause that begins with a group or with a word. -/
theorem mark (h : Divides ts j ms pieces) {m : Marker} (hj : m.index < j)
    (ht : ts[m.index]? = some t) (hcut : Cut ts 0 m.index)
    (hstop : m.stop =
      if m.clause = .insertColumns then some ((ofTokens ts).skipGroup m.index) else none)
    (hopens : m.clause = .insertColumns → t.isOpen) :
    Divides ts m.index (m :: ms)
      ([], ⟨m.clause, t, between ts (m.index + 1) j ++ pieces.1⟩ :: pieces.2) where
  lead := (between_of_le (Nat.le_refl m.index)).symm
  le := Nat.le_refl m.index
  cut := hcut
  marks := .cons rfl ht (Nat.lt_of_lt_of_le hj h.le) (h.extend hj).lead h.cut hstop hopens h.marks

end Divides

/-- What is known of the last marker in front of an index agrees with the state of the cut there. -/
structure Tracks (ts : List Token) (kind : StatementKind) (last : Option Marker)
    (s : Region.State) (i : Nat) : Prop where
  comesTo : (ofTokens ts).ComesTo i
  last_eq : last.map Marker.clause = s.last ∨
    s.last = none ∧ last.map Marker.clause = some .ctes
  named_eq : ∀ m, last = some m → m.clause = .target →
    m.index ≤ i ∧ (between ts m.index i).any Token.isName = s.named
  previous_eq : ts[i]?.any Token.isOpen → kind = .insert ∨ kind = .merge →
    (ofTokens ts).before? i = s.previous

namespace Tracks

variable {kind : StatementKind} {last : Option Marker} {s : Region.State} {i : Nat} {t : Token}

theorem any_isName_step {m i : Nat} {t : Token} (ht : ts[i]? = some t) (hm : m ≤ i) :
    (between ts m (i + 1)).any Token.isName = ((between ts m i).any Token.isName || t.isName) := by
  rw [← between_append hm (Nat.le_succ i), between_cons ht (Nat.lt_succ_self i),
    between_of_le (Nat.le_refl (i + 1)), List.any_append]
  simp

theorem pass (h : Tracks ts kind last s i) (ht : ts[i]? = some t) (hopen : t.isOpen = false)
    (cases : Nat) :
    Tracks ts kind last
      { s with named := s.named || t.isName, cases := cases, previous := some t } (i + 1) where
  comesTo := h.comesTo.step (by simp [ht, hopen])
  last_eq := h.last_eq
  named_eq m hm hclause := by
    obtain ⟨hle, hnamed⟩ := h.named_eq m hm hclause
    exact ⟨Nat.le_succ_of_le hle, by rw [any_isName_step ht hle, hnamed]⟩
  previous_eq _ _ := by rw [before?_succ, ht]

theorem mark (h : Tracks ts kind last s i) (ht : ts[i]? = some t) {word : Keyword}
    (hkind : t.kind = .keyword word) (clause : Clause) (cases : Nat) :
    Tracks ts kind (some ⟨clause, i, none⟩)
      { last := some clause, cases := cases, previous := some t } (i + 1) where
  comesTo := h.comesTo.step (by simp [ht, Token.isOpen, hkind])
  last_eq := .inl rfl
  named_eq m hm _ := by
    obtain rfl := Option.some.inj hm
    refine ⟨Nat.le_succ i, ?_⟩
    rw [any_isName_step ht (Nat.le_refl i), between_of_le (Nat.le_refl i)]
    simp [Token.isName, hkind]
  previous_eq _ _ := by rw [before?_succ, ht]

/-- The token in front of what follows a group is the last one of the group. -/
theorem previous_group
    (hnext : ts[(ofTokens ts).skipGroup i]?.any Token.isOpen) :
    (ofTokens ts).before? ((ofTokens ts).skipGroup i) =
      (between ts (i + 1) ((ofTokens ts).skipGroup i)).getLast? := by
  cases hclose : closeAt? ts i with
  | none => simp [skipGroup_of_none hclose] at hnext
  | some j =>
      obtain ⟨-, hij, hj⟩ := closeAt?_eq_some hclose
      rw [skipGroup_of_closeAt? hclose, before?_succ, List.getLast?_eq_getElem?, length_between,
        getElem?_between_of_lt (by omega)]
      exact congrArg (ts[·]?) (by omega)

theorem group (h : Tracks ts kind last s i) (ht : ts[i]? = some t) (hopen : t.isOpen) :
    Tracks ts kind last
      { s with
        named := s.named ||
          (between ts (i + 1) ((ofTokens ts).skipGroup i)).any Token.isName
        previous := (between ts (i + 1) ((ofTokens ts).skipGroup i)).getLast? }
      ((ofTokens ts).skipGroup i) where
  comesTo := h.comesTo.skip (by simp [ht, hopen])
  last_eq := h.last_eq
  named_eq m hm hclause := by
    obtain ⟨hle, hnamed⟩ := h.named_eq m hm hclause
    have hany : ts[i]?.any Token.isOpen := opens_at ht hopen
    obtain ⟨hlt, hskip, -⟩ := skipGroup_bounds hany
    have hname : t.isName = false := by
      rw [← Bool.not_eq_true]
      intro hname
      simp [Token.isOpen_of_isName hname] at hopen
    refine ⟨by omega, ?_⟩
    rw [← between_append hle (show i ≤ (ofTokens ts).skipGroup i by omega),
      between_cons ht (by omega), List.any_append, List.any_cons, hname, hnamed, Bool.false_or]
  previous_eq hnext _ := previous_group hnext

theorem columnList (h : Tracks ts kind last s i) (ht : ts[i]? = some t) (hopen : t.isOpen)
    (stop : Option Nat) (cases : Nat) :
    Tracks ts kind (some ⟨.insertColumns, i, stop⟩)
      { last := some .insertColumns
        cases := cases
        previous := (between ts (i + 1) ((ofTokens ts).skipGroup i)).getLast? }
      ((ofTokens ts).skipGroup i) where
  comesTo := h.comesTo.skip (by simp [ht, hopen])
  last_eq := .inl rfl
  named_eq m hm hclause := by
    obtain rfl := Option.some.inj hm
    contradiction
  previous_eq hnext _ := previous_group hnext

theorem isColumnList?_eq (h : Tracks ts kind last s i) (ht : ts[i]? = some t) (hopen : t.isOpen) :
    (ofTokens ts).isColumnList? kind last i =
      some (s.isColumnList kind (between ts (i + 1) ((ofTokens ts).stopOf i))) := by
  have hany : ts[i]?.any Token.isOpen := opens_at ht hopen
  unfold isColumnList? Region.State.isColumnList
  rw [isQueryGroup?_eq ht, hopen, Bool.true_and]
  cases kind with
  | insert =>
      have htarget : last.map Marker.clause = some .target ↔ s.last = some .target := by
        rcases h.last_eq with hlast | ⟨hnone, hctes⟩
        · rw [hlast]
        · simp [hnone, hctes]
      simp [h.previous_eq hany (.inl rfl), htarget]
  | merge => simp [h.previous_eq hany (.inr rfl)]
  | _ => rfl

/-- The token in front of a column list is a name or an `INSERT`. -/
theorem any_of_isColumnList (h : Tracks ts kind last s i) (ht : ts[i]? = some t)
    (hopen : t.isOpen) {inner : List Token} (hlist : s.isColumnList kind inner) :
    ts[i - 1]?.any fun p => p.isName || p.isKeyword .INSERT := by
  have hany : ts[i]?.any Token.isOpen := opens_at ht hopen
  unfold Region.State.isColumnList at hlist
  refine any_of_before? ?_
  cases kind with
  | insert =>
      rw [h.previous_eq hany (.inl rfl)]
      simp only [Bool.and_eq_true] at hlist
      obtain ⟨p, hp, hname⟩ := (Option.any_eq_true _ _).1 hlist.2.2
      simp [hp, hname]
  | merge =>
      rw [h.previous_eq hany (.inr rfl)]
      simp only [Bool.and_eq_true] at hlist
      obtain ⟨p, hp, hinsert⟩ := (Option.any_eq_true _ _).1 hlist.2
      simp [hp, hinsert]
  | _ => simp at hlist

end Tracks

/-- Which clause a keyword begins depends on the next token, and on the state as far as it tells
`ON`, `SELECT` and a target from other clauses. -/
theorem Region.State.clause?_congr {s s' : Region.State} {kind : StatementKind} {t : Token}
    {word : Keyword} {following following' : List Token} (hcases : s'.cases = s.cases)
    (hlast : s'.last = s.last ∨ s.last = none ∧ s'.last = some .ctes)
    (hnamed : kind = .delete → word = .FROM → s.last = some .target → s'.named = s.named)
    (hhead : following'.head? = following.head?) :
    s'.clause? kind t word following' = s.clause? kind t word following := by
  have hjoin : Region.startsJoin t following' = Region.startsJoin t following := by
    rw [Region.startsJoin, Region.startsJoin, startsOpen, startsOpen, hhead]
  have hsame (c : Clause) (hc : c ≠ .ctes) : decide (s'.last = some c) = decide (s.last = some c) := by
    rcases hlast with heq | ⟨hnone, hctes⟩
    · rw [heq]
    · simp [hnone, hctes, Ne.symm hc]
  have htarget : (kind = .delete && s'.last = some .target && !s'.named) =
      (kind = .delete && s.last = some .target && !s.named) ∨ word ≠ .FROM := by
    by_cases hword : word = .FROM
    · refine .inl ?_
      rw [hsame .target (by decide)]
      by_cases hboth : kind = .delete ∧ s.last = some .target
      · rw [hnamed hboth.1 hword hboth.2]
      · have hnot : (decide (kind = .delete) && decide (s.last = some .target)) = false := by
          simpa using hboth
        rw [hnot]
        rfl
    · exact .inr hword
  unfold Region.State.clause?
  rw [hjoin, hhead, hcases, hsame .joinCondition (by decide), hsame .select (by decide)]
  rcases htarget with heq | hword
  · rw [heq]
  · dsimp only
    split
    · rfl
    · split <;> first | rfl | contradiction

theorem clause?_eq {kind : StatementKind} {last : Option Marker} {s : Region.State} {i : Nat}
    {t : Token} (h : Tracks ts kind last s i) (ht : ts[i]? = some t) (word : Keyword) :
    (ofTokens ts).clause? kind last s.cases t word i =
      some (s.clause? kind t word (between ts (i + 1) ts.length)) := by
  have hlt := (List.getElem?_eq_some_iff.1 ht).1
  have hhead : ts[i + 1]?.toList.head? = (between ts (i + 1) ts.length).head? := by
    rw [head?_between, Option.head?_toList]
  have hnamed : ∃ named, (ofTokens ts).isNamed? kind word last i = some named ∧
      (kind = .delete → word = .FROM → s.last = some .target → named = s.named) := by
    unfold isNamed?
    cases last with
    | none =>
        refine ⟨false, rfl, fun _ _ htarget => ?_⟩
        rcases h.last_eq with hlast | ⟨hnone, -⟩
        · simp [htarget] at hlast
        · simp [hnone] at htarget
    | some m =>
        dsimp only
        split
        · next hdelete =>
          obtain ⟨hle, hnamed⟩ := h.named_eq m rfl hdelete.2.2
          rw [tokens_ofTokens, between?_eq hle (Nat.le_of_lt hlt)]
          exact ⟨_, rfl, fun _ _ _ => hnamed⟩
        · next hdelete =>
          refine ⟨false, rfl, fun hkind hword htarget => absurd ⟨hkind, hword, ?_⟩ hdelete⟩
          rcases h.last_eq with hlast | ⟨hnone, -⟩
          · exact Option.some.inj (hlast.trans htarget)
          · simp [hnone] at htarget
  obtain ⟨named, hnamed, heq⟩ := hnamed
  rw [TokenSlice.clause?, hnamed]
  exact congrArg some (Region.State.clause?_congr rfl h.last_eq heq hhead)

/-- Words that only continue a clause. -/
theorem Region.State.clause?_of_mem {s : Region.State} {kind : StatementKind} {t : Token}
    {word : Keyword} {following : List Token} (h : t.kind = .keyword word)
    (hword : word ∈ [Keyword.BY, .TIES]) : s.clause? kind t word following = none := by
  simp only [List.mem_cons, List.not_mem_nil, or_false] at hword
  unfold Region.State.clause?
  rw [startsJoin_of_kind h (by rcases hword with rfl | rfl <;> decide)]
  rcases hword with rfl | rfl <;> rfl

theorem Region.cut_by {kind : StatementKind} {s : Region.State} {t : Token}
    (h : t.kind = .keyword .BY) (us : List Token) :
    Region.cut kind s (t :: us) =
      let later := Region.cut kind { s with previous := some t } us
      (t :: later.1, later.2) :=
  Region.cut_keyword h (Region.State.clause?_of_mem h (by decide))

theorem Region.State.by_of_clause? {s : Region.State} {kind : StatementKind} {t : Token}
    {word : Keyword} {following : List Token} {c : Clause} (hc : c = .grouping ∨ c = .ordering)
    (h : s.clause? kind t word following = some c) :
    following.head?.any fun u => u.isKeyword .BY := by
  unfold Region.State.clause? at h
  split at h
  · rcases hc with rfl | rfl <;> simp at h
  · split at h
    all_goals rcases hc with rfl | rfl <;> grind

theorem Region.State.ne_insertColumns {s : Region.State} {kind : StatementKind} {t : Token}
    {word : Keyword} {following : List Token} {c : Clause}
    (h : s.clause? kind t word following = some c) : c ≠ .insertColumns := by
  rintro rfl
  unfold Region.State.clause? at h
  split at h
  · simp at h
  · split at h
    all_goals grind

/-- A `BY` follows the word that begins a grouping or an ordering. -/
theorem exists_by {s : Region.State} {kind : StatementKind} {t : Token} {word : Keyword} {i : Nat}
    {c : Clause} (hc : c = .grouping ∨ c = .ordering)
    (h : s.clause? kind t word (between ts i ts.length) = some c) :
    ∃ b, ts[i]? = some b ∧ b.kind = .keyword .BY ∧ i < ts.length ∧
      between ts i ts.length = b :: between ts (i + 1) ts.length := by
  have hby := Region.State.by_of_clause? hc h
  rcases getElem?_cases ts i with ⟨b, hb, hlt, hcons⟩ | ⟨hnone, hnil⟩
  · rw [hcons] at hby
    exact ⟨b, hb, Token.kind_of_isKeyword hby, hlt, hcons⟩
  · simp [hnil] at hby

theorem duplicateFroms_cons (seen : Bool) (r : Region) (rs : List Region) :
    duplicateFroms seen (r :: rs) = (Marker.sourcesAfter seen r.clause r.head).2 ++
      duplicateFroms (Marker.sourcesAfter seen r.clause r.head).1 rs := by
  cases hclause : r.clause with
  | sources =>
      by_cases hfrom : r.head.isKeyword .FROM <;>
        simp [duplicateFroms, Marker.sourcesAfter, hclause, Region.startsFrom, hfrom]
  | _ => simp [duplicateFroms, Marker.sourcesAfter, hclause]

/-! ### Cutting at an index -/

section

variable {kind : StatementKind} {s : Region.State} {i : Nat} {t : Token}

/-- The group at an index, by the tokens behind its opening parenthesis. -/
theorem Group.after_at (ht : ts[i]? = some t) (hopen : t.isOpen) :
    (after (between ts (i + 1) ts.length)).tokens =
        between ts (i + 1) ((ofTokens ts).skipGroup i) ∧
      (after (between ts (i + 1) ts.length)).inner = between ts (i + 1) ((ofTokens ts).stopOf i) ∧
      (after (between ts (i + 1) ts.length)).rest =
        between ts ((ofTokens ts).skipGroup i) ts.length := by
  have hlt := (List.getElem?_eq_some_iff.1 ht).1
  have hcut := Cut.length ts i
  obtain ⟨hany, hbefore, -⟩ := hcut.group (Nat.le_refl i) hlt ht hopen
  have htokens := hcut.cons_tokens_after (Nat.le_refl i) hlt ht hopen
  rw [between_cons ht hbefore] at htokens
  refine ⟨(List.cons.inj htokens).2, ?_⟩
  rw [hcut.after (Nat.le_refl i) hlt hany]
  exact ⟨rfl, rfl⟩

theorem Region.cut_columnList_at (ht : ts[i]? = some t) (hopen : t.isOpen)
    (hlist : s.isColumnList kind (between ts (i + 1) ((ofTokens ts).stopOf i))) :
    cut kind s (t :: between ts (i + 1) ts.length) =
      let inGroup := between ts (i + 1) ((ofTokens ts).skipGroup i)
      let later := cut kind
        { last := some .insertColumns, cases := s.cases, previous := inGroup.getLast? }
        (between ts ((ofTokens ts).skipGroup i) ts.length)
      ([], ⟨.insertColumns, t, inGroup ++ later.1⟩ :: later.2) := by
  obtain ⟨htokens, hinner, hrest⟩ := Group.after_at ht hopen
  rw [cut_columnList hopen (by rw [hinner]; exact hlist)]
  dsimp only
  rw [htokens, hrest]

theorem Region.cut_group_at (ht : ts[i]? = some t) (hopen : t.isOpen)
    (hlist : ¬ s.isColumnList kind (between ts (i + 1) ((ofTokens ts).stopOf i))) :
    cut kind s (t :: between ts (i + 1) ts.length) =
      let inGroup := between ts (i + 1) ((ofTokens ts).skipGroup i)
      let later := cut kind
        { s with named := s.named || inGroup.any Token.isName, previous := inGroup.getLast? }
        (between ts ((ofTokens ts).skipGroup i) ts.length)
      (between ts i ((ofTokens ts).skipGroup i) ++ later.1, later.2) := by
  obtain ⟨htokens, hinner, hrest⟩ := Group.after_at ht hopen
  have hlt := (List.getElem?_eq_some_iff.1 ht).1
  obtain ⟨-, hbefore, -⟩ := (Cut.length ts i).group (Nat.le_refl i) hlt ht hopen
  rw [cut_group hopen (by rw [hinner]; exact hlist)]
  dsimp only
  rw [htokens, hrest, between_cons ht hbefore]

/-- The state behind the words that begin a clause, which are two where a `BY` follows. -/
theorem exists_behind {last : Option Marker} {word : Keyword} {c : Clause}
    (h : Tracks ts kind last s i) (ht : ts[i]? = some t) (hkind : t.kind = .keyword word)
    (hc : s.clause? kind t word (between ts (i + 1) ts.length) = some c) (cases : Nat) :
    ∃ s' : Region.State, ∃ j, j = i + (if c = .grouping ∨ c = .ordering then 2 else 1) ∧
      j ≤ ts.length ∧ s'.cases = cases ∧ Tracks ts kind (some ⟨c, i, none⟩) s' j ∧
      Region.cut kind { last := some c, cases := cases, previous := some t }
          (between ts (i + 1) ts.length) =
        (between ts (i + 1) j ++ (Region.cut kind s' (between ts j ts.length)).1,
          (Region.cut kind s' (between ts j ts.length)).2) := by
  have hlt := (List.getElem?_eq_some_iff.1 ht).1
  have hmark := h.mark ht hkind c cases
  by_cases hby : c = .grouping ∨ c = .ordering
  · rw [if_pos hby]
    obtain ⟨b, hb, hkindBy, hlt', hcons⟩ := exists_by hby hc
    have hpass := hmark.pass hb (by simp [Token.isOpen, hkindBy]) cases
    have hname : b.isName = false := by simp [Token.isName, hkindBy]
    dsimp only at hpass
    rw [hname, Bool.or_false] at hpass
    refine ⟨_, i + 2, rfl, hlt', rfl, hpass, ?_⟩
    rw [hcons, Region.cut_by hkindBy, between_cons hb (Nat.lt_succ_self (i + 1)),
      between_of_le (Nat.le_refl (i + 2))]
    rfl
  · rw [if_neg hby]
    refine ⟨_, i + 1, rfl, hlt, rfl, hmark, ?_⟩
    rw [between_of_le (Nat.le_refl (i + 1)), List.nil_append]

end

/-! ### The pass that places the markers -/

/-- The pass succeeds from an index on, and its markers are where the tokens from there on are
cut. -/
def Places (ts : List Token) (kind : StatementKind) (last : Option Marker) (seen : Bool)
    (s : Region.State) (i : Nat) : Prop :=
  ∃ ms, (ofTokens ts).markers? kind last seen s.cases i =
      some (ms, duplicateFroms seen (Region.cut kind s (between ts i ts.length)).2) ∧
    Divides ts i ms (Region.cut kind s (between ts i ts.length))

namespace Places

variable {kind : StatementKind} {last : Option Marker} {seen : Bool} {s : Region.State} {i : Nat}
  {t : Token}

theorem atEnd (hi : i = ts.length) : Places ts kind last seen s i := by
  subst hi
  rw [Places, TokenSlice.markers?, tokens_ofTokens, dif_neg (Nat.lt_irrefl _),
    between_of_le (Nat.le_refl _), Region.cut]
  exact ⟨[], rfl, (between_of_le (Nat.le_refl _)).symm, Nat.le_refl _, .length ts 0, .nil⟩

section

-- One step of the pass, where it goes on as it should from every later index.
variable (h : Tracks ts kind last s i) (ht : ts[i]? = some t)
  (later : ∀ {last : Option Marker} (seen : Bool) {s : Region.State} {j : Nat}, i < j →
    j ≤ ts.length → Tracks ts kind last s j → Places ts kind last seen s j)

include h ht later

theorem columnList (hopen : t.isOpen)
    (hlist : s.isColumnList kind (between ts (i + 1) ((ofTokens ts).stopOf i))) :
    Places ts kind last seen s i := by
  have hlt := (List.getElem?_eq_some_iff.1 ht).1
  obtain ⟨-, hbefore, hskip⟩ := (Cut.length ts i).group (Nat.le_refl i) hlt ht hopen
  let m : Marker := ⟨.insertColumns, i, some ((ofTokens ts).skipGroup i)⟩
  obtain ⟨ms, hms, hdivides⟩ := later seen hbefore hskip
    (h.columnList ht hopen (some ((ofTokens ts).skipGroup i)) s.cases)
  have hkind : t.kind = .parenOpen := of_decide_eq_true hopen
  have hcut : Cut ts 0 i :=
    cut_of_comesTo h.comesTo ht (by simp [hkind]) (by simp [Token.isKeyword, hkind])
      fun _ => h.any_of_isColumnList ht hopen hlist
  rw [Places, TokenSlice.markers?, tokens_ofTokens, dif_pos hlt, ht, Option.bind_some,
    if_pos hopen, h.isColumnList?_eq ht hopen, Option.bind_some, dif_pos hbefore, if_pos hlist,
    between_cons ht hlt, Region.cut_columnList_at ht hopen hlist]
  dsimp only at hms ⊢
  rw [hms]
  refine ⟨m :: ms, ?_, hdivides.mark (m := m) hbefore ht hcut rfl fun _ => hopen⟩
  rw [duplicateFroms_cons]
  rfl

theorem group (hopen : t.isOpen)
    (hlist : ¬ s.isColumnList kind (between ts (i + 1) ((ofTokens ts).stopOf i))) :
    Places ts kind last seen s i := by
  have hlt := (List.getElem?_eq_some_iff.1 ht).1
  obtain ⟨-, hbefore, hskip⟩ := (Cut.length ts i).group (Nat.le_refl i) hlt ht hopen
  obtain ⟨ms, hms, hdivides⟩ := later seen hbefore hskip (h.group ht hopen)
  rw [Places, TokenSlice.markers?, tokens_ofTokens, dif_pos hlt, ht, Option.bind_some,
    if_pos hopen, h.isColumnList?_eq ht hopen, Option.bind_some, dif_pos hbefore, if_neg hlist,
    between_cons ht hlt, Region.cut_group_at ht hopen hlist, hms]
  exact ⟨ms, rfl, hdivides.extend (Nat.le_of_lt hbefore)⟩

/-- At a word that begins a clause, which may be two words. -/
theorem clause {word : Keyword} {c : Clause} (hkind : t.kind = .keyword word)
    (hc : s.clause? kind t word (between ts (i + 1) ts.length) = some c) :
    Places ts kind last seen s i := by
  have hlt := (List.getElem?_eq_some_iff.1 ht).1
  have hcut := cut_of_keyword h.comesTo ht hkind (by
    rintro rfl
    rw [Region.State.clause?_of_mem hkind (by decide)] at hc
    contradiction)
  have hlist : c ≠ .insertColumns := Region.State.ne_insertColumns hc
  rw [Places, TokenSlice.markers?, tokens_ofTokens, dif_pos hlt, ht, Option.bind_some,
    if_neg (by simp [Token.isOpen, hkind]), hkind, between_cons ht hlt, Region.cut_clause hkind hc,
    Region.State.behind]
  dsimp only
  rw [clause?_eq h ht, hc, Option.bind_some]
  dsimp only
  generalize (if word = .CASE then s.cases + 1
    else if word = .END then s.cases - 1 else s.cases) = cases
  obtain ⟨s', j, hj, hjlen, hcases, hbehind, hregions⟩ := exists_behind h ht hkind hc cases
  have hij : i < j := by
    rw [hj]
    split <;> omega
  obtain ⟨ms, hms, hdivides⟩ :=
    later (Marker.sourcesAfter seen c t).1 hij hjlen hbehind
  let m : Marker := ⟨c, i, none⟩
  rw [← hj, ← hcases, hms, hcases, hregions]
  refine ⟨m :: ms, ?_, hdivides.mark (m := m) hij ht hcut (if_neg hlist).symm
    fun heq => absurd heq hlist⟩
  rw [duplicateFroms_cons]
  rfl

theorem keyword {word : Keyword} (hkind : t.kind = .keyword word)
    (hc : s.clause? kind t word (between ts (i + 1) ts.length) = none) :
    Places ts kind last seen s i := by
  have hlt := (List.getElem?_eq_some_iff.1 ht).1
  have hopen : t.isOpen = false := by simp [Token.isOpen, hkind]
  have hname : t.isName = false := by simp [Token.isName, hkind]
  have hpass := h.pass ht hopen
    (if word = .CASE then s.cases + 1 else if word = .END then s.cases - 1 else s.cases)
  rw [hname, Bool.or_false] at hpass
  obtain ⟨ms, hms, hdivides⟩ := later seen (Nat.lt_succ_self i) hlt hpass
  rw [Places, TokenSlice.markers?, tokens_ofTokens, dif_pos hlt, ht, Option.bind_some,
    if_neg (by simp [hopen]), hkind, between_cons ht hlt, Region.cut_keyword hkind hc]
  dsimp only
  rw [clause?_eq h ht, hc]
  exact ⟨ms, hms, hdivides.pass ht⟩

theorem other (hopen : t.isOpen = false) (hkind : ∀ word, t.kind ≠ .keyword word) :
    Places ts kind last seen s i := by
  have hlt := (List.getElem?_eq_some_iff.1 ht).1
  obtain ⟨ms, hms, hdivides⟩ :=
    later seen (Nat.lt_succ_self i) hlt (h.pass ht hopen s.cases)
  rw [Places, TokenSlice.markers?, tokens_ofTokens, dif_pos hlt, ht, Option.bind_some,
    if_neg (by simp [hopen]), between_cons ht hlt, Region.cut_other (by simp [hopen]) hkind]
  split
  · next word heq => exact absurd heq (hkind word)
  · exact ⟨ms, hms, hdivides.pass ht⟩

end

end Places

/-- The markers from an index on are where the tokens are cut. The induction follows the pass that
places them. -/
theorem markers?_eq {kind : StatementKind} {last : Option Marker} {s : Region.State} {i : Nat}
    (h : Tracks ts kind last s i) (hi : i ≤ ts.length) (seen : Bool) :
    Places ts kind last seen s i := by
  have later : ∀ {last : Option Marker} (seen : Bool) {s : Region.State} {j : Nat}, i < j →
      j ≤ ts.length → Tracks ts kind last s j → Places ts kind last seen s j :=
    fun seen _ _ hij hj h => markers?_eq h hj seen
  rcases getElem?_cases ts i with ⟨t, ht, -, -⟩ | ⟨hnone, -⟩
  · by_cases hopen : t.isOpen
    · by_cases hlist : s.isColumnList kind (between ts (i + 1) ((ofTokens ts).stopOf i))
      · exact .columnList h ht later hopen hlist
      · exact .group h ht later hopen hlist
    · cases hkind : t.kind with
      | keyword word =>
          cases hc : s.clause? kind t word (between ts (i + 1) ts.length) with
          | some c => exact .clause h ht later hkind hc
          | none => exact .keyword h ht later hkind hc
      | _ => exact .other h ht later (by simpa using hopen) (by simp [hkind])
  · exact .atEnd (Nat.le_antisymm hi (List.getElem?_eq_none_iff.1 hnone))
termination_by ts.length - i

end Tsql
