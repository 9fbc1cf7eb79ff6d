import Tsql.Proofs.Statement.Kind
import Tsql.Proofs.Statement.Restart
import Tsql.Token.Lexer

/-!
Statements without a semicolon between them.

Behind an `INSERT` of values, a `SET` of an option or a `SELECT` of a number, a main keyword begins
the next statement, with two exceptions: a `SELECT` behind the values and any main keyword behind
the `ON` of an option belong to the statement in front of them (`splitStatements_juxtaposed`).
-/

namespace Tsql

/-- Statements that need nothing behind them. The list of columns of an `INSERT` may be left out. -/
inductive IsComplete : List Token → Prop
  | insert {insert into values : Token} {name columns rows : List Token}
      (hinsert : insert.isKeyword .INSERT) (hinto : into.isKeyword .INTO) (hname : IsPath name)
      (hcolumns : columns = [] ∨ IsGroup columns) (hvalues : values.isKeyword .VALUES)
      (hrows : IsGroup rows) :
      IsComplete (insert :: into :: (name ++ (columns ++ values :: rows)))
  | option {set on : Token} {name : List Token} (hset : set.isKeyword .SET) (hname : IsPath name)
      (hon : on.isKeyword .ON) : IsComplete (set :: (name ++ [on]))
  | number {select number : Token} (hselect : select.isKeyword .SELECT)
      (hnumber : number.kind = .number) : IsComplete [select, number]

namespace Split

variable (behind : List Token) {kind : StatementKind} {last : Token}

/-- What the last token of a complete statement is. -/
inductive EndsIn : StatementKind → Token → Prop
  | rows {last : Token} (h : last.isClose) : EndsIn .insert last
  | option {last : Token} (h : last.isKeyword .ON) : EndsIn .set last
  | number {last : Token} (h : last.kind = .number) : EndsIn .select last

/-- A complete statement is read as one. -/
theorem exists_reads_of_isComplete {us : List Token} (h : IsComplete us) :
    ∃ t ts last, us = t :: ts ∧ EndsIn (.ofTokens us) last ∧
      State.step {} t (ts ++ behind) = (.opens, reading (.ofTokens us) t) ∧
        Reads behind (reading (.ofTokens us) t) ts (reading (.ofTokens us) last) := by
  cases h with
  | @insert insert into values name columns rows hinsert hinto hname hcolumns hvalues hrows =>
      have hkind : insert.kind = .keyword .INSERT := of_decide_eq_true hinsert
      rw [StatementKind.ofTokens_of_dmlKind? hkind rfl]
      obtain ⟨last, hpath⟩ := reads_path (columns ++ values :: rows ++ behind) .insert into hname
      obtain ⟨last', hlist⟩ : ∃ last', Reads (values :: rows ++ behind) (reading .insert last)
          columns (reading .insert last') := by
        rcases hcolumns with rfl | hcolumns
        · exact ⟨last, .nil _⟩
        · obtain ⟨c, -, hlist⟩ := reads_group (values :: rows ++ behind) .insert last hcolumns
          exact ⟨c, hlist⟩
      obtain ⟨c, hclose, hgroup⟩ := reads_group behind .insert values hrows
      have hword := reads_word (rows ++ behind) .insert last' hvalues (by decide) (by decide)
      have hrows := hword.append hgroup
      exact ⟨insert, _, c, rfl, .rows hclose,
        step_begins hkind (by decide) (by decide) (StatementKind.ofTokens_of_dmlKind? hkind rfl _),
        (reads_word _ .insert insert hinto (by decide) (by decide)).append
          (hpath.append (hlist.append hrows))⟩
  | @option set on name hset hname hon =>
      have hkind : set.kind = .keyword .SET := of_decide_eq_true hset
      have hset : ∀ ts, StatementKind.ofTokens (set :: ts) = .set := by
        simp [StatementKind.ofTokens, hkind]
      obtain ⟨last, hpath⟩ := reads_path ([on] ++ behind) .set set hname
      rw [hset]
      exact ⟨set, _, on, rfl, .option hon, step_begins hkind (by decide) (by decide) (hset _),
        hpath.append (reads_word behind .set last hon (by decide) (by decide))⟩
  | @number select number hselect hnumber =>
      have hkind : select.kind = .keyword .SELECT := of_decide_eq_true hselect
      rw [StatementKind.ofTokens_of_dmlKind? hkind rfl]
      refine ⟨select, [number], number, rfl, .number hnumber,
        step_begins hkind (by decide) (by decide) (StatementKind.ofTokens_of_dmlKind? hkind rfl _),
        .cons (step_other ?_ ?_ ?_) (.nil _)⟩
      all_goals simp [hnumber, Token.isOpen, Token.isClose]

/-! ### The token behind -/

/-- Whether a main keyword behind a complete statement belongs to it. -/
def joinsComplete (kind : StatementKind) (word : Keyword) : Bool :=
  kind = .set || kind = .insert && word = .SELECT

theorem mem_mainWords {word : Keyword} (h : word.dmlKind?.isSome) :
    word ∈ [.SELECT, .INSERT, .UPDATE, .DELETE, .MERGE] := by
  revert h
  cases word <;> decide

theorem meets?_behind_complete (h : EndsIn kind last) {word : Keyword}
    (hword : word.dmlKind?.isSome) (following : List Token) :
    (Reading.meets? { kind := kind, awaitsBody := false, last := last } word following).isSome =
      joinsComplete kind word := by
  have hmem := mem_mainWords hword
  simp only [List.mem_cons, List.not_mem_nil, or_false] at hmem
  cases h with
  | rows hclose =>
      have hlast : last.kind = .parenClose := of_decide_eq_true hclose
      rcases hmem with rfl | rfl | rfl | rfl | rfl <;>
        simp [Reading.meets?, openers, Token.isAnyKeyword, hlast, joinsComplete]
  | option hon =>
      have hlast : last.kind = .keyword .ON := of_decide_eq_true hon
      rcases hmem with rfl | rfl | rfl | rfl | rfl <;>
        simp [Reading.meets?, openers, Token.isAnyKeyword, hlast, joinsComplete]
  | number hnumber =>
      rcases hmem with rfl | rfl | rfl | rfl | rfl <;>
        simp [Reading.meets?, openers, Token.isAnyKeyword, hnumber, joinsComplete]

/-- Behind a complete statement a main keyword belongs to it, or it begins the next one as at the
beginning of a list. -/
theorem step_behind_complete (h : EndsIn kind last) {t : Token} {word : Keyword}
    (ht : t.kind = .keyword word) (hword : word.dmlKind?.isSome) (following : List Token) :
    if joinsComplete kind word then
      ∃ s, (reading kind last).step t following = (.continues, s)
    else (reading kind last).step t following = State.step {} t following := by
  have hblock : word ∉ blockWords := by
    revert hword
    cases word <;> decide
  have hmeets := meets?_behind_complete h hword following
  rw [step_keyword ht hblock following _ rfl rfl, step_eq_opens ht hblock, ← hmeets]
  cases hr : Reading.meets? { kind := kind, awaitsBody := false, last := last } word following with
  | none => exact meet_eq_opens rfl hr
  | some r => exact ⟨_, meet_eq_continues rfl hr⟩

end Split

/-- Behind a complete statement a main keyword begins the division anew, unless it is a `SELECT`
behind the rows of an `INSERT`, or any of them behind the option of a `SET`; then the statement goes
on. -/
theorem splitStatements_juxtaposed {us : List Token} (hus : IsComplete us) {t : Token}
    {word : Keyword} (ht : t.kind = .keyword word) (hword : word.dmlKind?.isSome)
    (ts : List Token) :
    let joins := StatementKind.ofTokens us = .set ∨
      StatementKind.ofTokens us = .insert ∧ word = .SELECT
    (splitStatements (us ++ t :: ts) =
        ⟨0, us⟩ :: (splitStatements (t :: ts)).map (Split.Segment.shift us.length) ↔ ¬ joins) ∧
      (joins → ∃ more later, splitStatements (us ++ t :: ts) = ⟨0, us ++ t :: more⟩ :: later) := by
  intro joins
  obtain ⟨u, us, last, rfl, hends, hopens, hreads⟩ := Split.exists_reads_of_isComplete (t :: ts) hus
  have hjoins : Split.joinsComplete (.ofTokens (u :: us)) word ↔ joins := by
    simp [Split.joinsComplete, joins]
  have hstep := Split.step_behind_complete hends ht hword ts
  have hgoes : joins → ∃ more later,
      splitStatements (u :: us ++ t :: ts) = ⟨0, u :: us ++ t :: more⟩ :: later := by
    intro h
    rw [if_pos (hjoins.2 h)] at hstep
    obtain ⟨s, hstep⟩ := hstep
    have hfront : Split.Reads ([t] ++ ts) _ us _ := hreads
    have hfirst := hfront.append (.cons hstep (.nil s))
    rw [← List.singleton_append, ← List.append_assoc] at hopens
    have hsplit := splitStatements_of_reads hopens hfirst
    simp only [List.append_assoc, List.singleton_append] at hsplit
    exact ⟨_, _, hsplit⟩
  refine ⟨⟨fun heq h => ?_, fun h => ?_⟩, hgoes⟩
  · obtain ⟨more, later, hmore⟩ := hgoes h
    rw [heq] at hmore
    have htokens := congrArg List.length (Split.Segment.mk.inj (List.cons.inj hmore).1).2
    simp at htokens
  · rw [if_neg (mt hjoins.1 h)] at hstep
    exact splitStatements_append_of_opens hopens hreads hstep

/-- The rows of an `INSERT` are complete in front of an `UPDATE`. -/
theorem splitStatements_juxtaposed_update :
    let ts := tokenize "INSERT INTO t VALUES (1) UPDATE t SET a = 2"
    splitStatements ts =
      ⟨0, ts.take 7⟩ :: (splitStatements (ts.drop 7)).map (Split.Segment.shift 7) := by
  intro ts
  have hkinds : (ts.take 7).map Token.kind = [.keyword .INSERT, .keyword .INTO, .identifier,
      .keyword .VALUES, .parenOpen, .number, .parenClose] ∧
      (ts.drop 7).head?.map Token.kind = some (.keyword .UPDATE) := by
    decide +kernel
  obtain ⟨hfront, hhead⟩ := hkinds
  have hts : ts = ts.take 7 ++ ts.drop 7 := (List.take_append_drop 7 ts).symm
  generalize ts.take 7 = us at hfront hts ⊢
  generalize ts.drop 7 = vs at hhead hts ⊢
  obtain ⟨t, vs, rfl⟩ : ∃ t ts, vs = t :: ts := by
    cases vs with
    | nil => contradiction
    | cons t vs => exact ⟨t, vs, rfl⟩
  simp only [List.map_eq_cons_iff, List.map_eq_nil_iff] at hfront
  obtain ⟨insert, _, rfl, hinsert, into, _, rfl, hinto, name, _, rfl, hname, values, _, rfl,
    hvalues, o, _, rfl, ho, n, _, rfl, hn, c, _, rfl, hc, rfl⟩ := hfront
  have hinner : isBalanced [n] := by
    simp [isBalanced, openGroups?, Token.isOpen, Token.isClose, hn]
  have hrows : IsGroup [o, n, c] :=
    ⟨o, [n], c, rfl, decide_eq_true ho, hinner, decide_eq_true hc⟩
  have hcomplete : IsComplete [insert, into, name, values, o, n, c] :=
    @IsComplete.insert insert into values [name] [] [o, n, c] (decide_eq_true hinsert)
      (decide_eq_true hinto) (by simp [IsPath, Token.isName, hname]) (.inl rfl)
      (decide_eq_true hvalues) hrows
  have hkind : t.kind = .keyword .UPDATE := Option.some.inj hhead
  rw [hts]
  refine (splitStatements_juxtaposed hcomplete hkind rfl vs).1.2 ?_
  rw [StatementKind.ofTokens_of_dmlKind? hinsert rfl]
  decide

/-- Neither an option nor rows end in front of a `SELECT`. -/
theorem splitStatements_ne_juxtaposed :
    let ts := tokenize "SET NOCOUNT ON SELECT 1"
    let us := tokenize "INSERT INTO t VALUES (1) SELECT 1"
    ts.map Token.kind = [.keyword .SET, .identifier, .keyword .ON, .keyword .SELECT, .number] ∧
      splitStatements ts ≠
        ⟨0, ts.take 3⟩ :: (splitStatements (ts.drop 3)).map (Split.Segment.shift 3) ∧
      us.map Token.kind = [.keyword .INSERT, .keyword .INTO, .identifier, .keyword .VALUES,
        .parenOpen, .number, .parenClose, .keyword .SELECT, .number] ∧
      splitStatements us ≠
        ⟨0, us.take 7⟩ :: (splitStatements (us.drop 7)).map (Split.Segment.shift 7) := by
  intro ts us
  have hfacts : ts.map Token.kind =
        [.keyword .SET, .identifier, .keyword .ON, .keyword .SELECT, .number] ∧
      (splitStatements ts).length = 1 ∧ (splitStatements (ts.drop 3)).length = 1 ∧
      us.map Token.kind = [.keyword .INSERT, .keyword .INTO, .identifier, .keyword .VALUES,
        .parenOpen, .number, .parenClose, .keyword .SELECT, .number] ∧
      (splitStatements us).length = 1 ∧ (splitStatements (us.drop 7)).length = 1 := by
    decide +kernel
  obtain ⟨hts, hone, hdrop, hus, hone', hdrop'⟩ := hfacts
  refine ⟨hts, fun heq => ?_, hus, fun heq => ?_⟩
  · have hlength := congrArg List.length heq
    simp [hone, hdrop] at hlength
  · have hlength := congrArg List.length heq
    simp [hone', hdrop'] at hlength

end Tsql
