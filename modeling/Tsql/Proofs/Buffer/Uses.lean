import Tsql.Proofs.Batch.Active
import Tsql.Proofs.Buffer.Databases
import Tsql.Proofs.Buffer.Order
import Tsql.Proofs.Statement.Kind

/-!
The databases that tokens name behind `USE`.

Neither the division of the tokens at separator lines nor that into statements comes between a `USE`
and the name behind it (`Buffer.selections_statementTokens`). So the statements of a buffer have the
databases that its tokens name, where no `USE` stands inside a statement (`Buffer.database_of_uses`).
-/

namespace Tsql

open Text Scan Elements

/-- A `USE` names the name behind it. -/
def Token.uses : UseReader Token :=
  ⟨fun t => t.isKeyword .USE, fun t => t.start.line, fun n => if n.isName then some n.text else none⟩

theorem Token.uses_name? {n : Token} (h : n.isName = false) : Token.uses.name? n = none :=
  if_neg (by simp [h])

/-! ### Division at lines -/

namespace Buffer

/-- Lines on which there is neither a `USE` nor a name come between no `USE` and its name. -/
theorem selections_tokensBetween {ts : List Token} {ls : List Nat}
    (hts : ts.Pairwise fun s t => s.start.line ≤ t.start.line) (hls : ls.Pairwise (· < ·))
    (hon : ∀ t ∈ ts, t.start.line ∈ ls → t.isKeyword .USE = false ∧ t.isName = false)
    (hex : ∀ l ∈ ls, ∃ t ∈ ts, t.start.line = l) :
    Token.uses.selections ts = (tokensBetween ts ls).flatMap Token.uses.selections := by
  induction ls generalizing ts with
  | nil => exact (List.flatMap_singleton ..).symm
  | cons l ls ih =>
      obtain ⟨hl, hls⟩ := List.pairwise_cons.1 hls
      obtain ⟨front, on, back, rfl, hbetween, hbefore, hline, hbehind⟩ :=
        exists_tokensBetween_cons hts l
      obtain ⟨t, ht, heq⟩ := hex l List.mem_cons_self
      obtain ⟨o, on, rfl⟩ : ∃ o os, on = o :: os := by
        refine List.exists_cons_of_ne_nil ?_
        rintro rfl
        rcases List.mem_append.1 ht with ht | ht
        · exact absurd heq (Nat.ne_of_lt (hbefore t ht))
        · exact absurd heq (Nat.ne_of_gt (hbehind t ht))
      have hons : ∀ t ∈ o :: on, t.isKeyword .USE = false ∧ t.isName = false := by
        intro t ht
        refine hon t (List.mem_append_right _ (List.mem_append_left _ ht)) ?_
        rw [hline t ht]
        exact List.mem_cons_self
      have hsub : ∀ t ∈ back, t ∈ front ++ (o :: on ++ back) := fun t ht =>
        List.mem_append_right _ (List.mem_append_right _ ht)
      have hhead : ∀ n ∈ (o :: on ++ back).head?, Token.uses.name? n = none := by
        rintro n ⟨⟩
        exact Token.uses_name? (hons o List.mem_cons_self).2
      rw [hbetween, List.flatMap_cons, UseReader.selections_append hhead,
        UseReader.selections_append_of_not_isUse fun t ht => (hons t ht).1,
        ih ((List.pairwise_append.1 (List.pairwise_append.1 hts).2.1).2.1) hls
          (fun t ht hmem => hon t (hsub t ht) (List.mem_cons_of_mem l hmem)) fun l' hl' => ?_]
      -- a later line has its tokens behind this one
      obtain ⟨t', ht', heq'⟩ := hex l' (List.mem_cons_of_mem l hl')
      have hlater := hl l' hl'
      refine ⟨t', ?_, heq'⟩
      rcases List.mem_append.1 ht' with ht' | ht'
      · have hlt := hbefore t' ht'
        omega
      · rcases List.mem_append.1 ht' with ht' | ht'
        · have hon' := hline t' ht'
          omega
        · exact ht'

end Buffer

/-! ### Division into statements -/

namespace Split

theorem exists_meet_eq_take (s : State) (t : Token) (word : Keyword) (following : List Token) :
    ∃ s' : State, s.meet t word following = s'.take t following := by
  unfold State.meet
  split
  · split
    · exact ⟨_, rfl⟩
    · exact ⟨_, rfl⟩
  · exact ⟨s, rfl⟩

/-- Behind a token of a statement a name belongs to the statement. -/
theorem step_name (s : State) (t : Token) (following : List Token) {n : Token} (hn : n.isName)
    (behind : List Token) : ((s.take t following).2.step n behind).1 = .continues := by
  obtain ⟨r, cases, hstate⟩ : ∃ r cases, (s.take t following).2 = ⟨some r, cases, false⟩ := by
    unfold State.take
    split <;> exact ⟨_, _, rfl⟩
  simp only [Token.isName, Bool.or_eq_true, decide_eq_true_eq] at hn
  have hplain : n.kind ≠ .semicolon ∧ ∀ word, n.kind ≠ .keyword word := by
    rcases hn with hn | hn <;> simp [hn]
  rw [hstate, step_some r cases (.inr hplain)]

/-- A `USE` belongs to a statement, and so does a name behind it. -/
theorem step_use {s : State} {t : Token} (ht : t.isKeyword .USE)
    (hspelled : sameFolded t.text.toList ['U', 'S', 'E']) (following : List Token) :
    (s.step t following).1 ≠ .delimits ∧ ∀ (n : Token) (behind : List Token), n.isName →
      ((s.step t following).2.step n behind).1 = .continues := by
  have hkind : t.kind = .keyword .USE := of_decide_eq_true ht
  obtain ⟨s', hs'⟩ : ∃ s' : State, s.step t following = s'.take t following := by
    have huse : t.isWord "USE" := by
      rw [Token.isWord, hkind]
      exact hspelled
    have htry : t.isWord "TRY" = false := Token.isWord_eq_false huse (by decide)
    have hcatch : t.isWord "CATCH" = false := Token.isWord_eq_false huse (by decide)
    rw [State.step, htry, hcatch, Bool.or_false, Bool.and_false, if_neg Bool.false_ne_true]
    split
    · exact ⟨s, rfl⟩
    · rw [hkind]
      exact exists_meet_eq_take s t .USE following
  rw [hs']
  exact ⟨take_ne_delimits s' t following, fun n behind hn => step_name s' t following hn behind⟩

/-- What a `USE` names is named in the rest of its statement. -/
theorem selection?_gather {s : State} {t : Token} (ht : t.isKeyword .USE →
      sameFolded t.text.toList ['U', 'S', 'E']) (index : Nat) (ts : List Token) :
    Token.uses.selection? t ts =
      Token.uses.selection? t (gather index ((marks (s.step t ts).2 ts).zip ts)).1 := by
  by_cases huse : t.isKeyword .USE
  · cases ts with
    | nil => rfl
    | cons n ts =>
        have hname := (step_use (s := s) huse (ht huse) (n :: ts)).2 n ts
        rw [marks, List.zip_cons_cons, gather]
        cases hn : n.isName with
        | true => rw [hname hn]; rfl
        | false =>
            have hnone : ∀ tail, Token.uses.selection? t (n :: tail) = none := fun tail =>
              UseReader.selection?_of_head (by simpa using Token.uses_name? hn)
            cases ((s.step t (n :: ts)).2.step n ts).1 with
            | continues => exact (hnone _).trans (hnone _).symm
            | opens => exact (hnone _).trans (UseReader.selection?_of_head (by simp)).symm
            | delimits => exact (hnone _).trans (UseReader.selection?_of_head (by simp)).symm
  · have huse' : Token.uses.isUse t = false := Bool.eq_false_iff.2 huse
    rw [UseReader.selection?_of_not_isUse huse', UseReader.selection?_of_not_isUse huse']

theorem selections_gather {s : State} (hs : s.IsSound) (index : Nat) {ts : List Token}
    (hspelled : ∀ t ∈ ts, t.isKeyword .USE → sameFolded t.text.toList ['U', 'S', 'E']) :
    let found := gather index ((marks s ts).zip ts)
    Token.uses.selections ts =
      Token.uses.selections found.1 ++ found.2.flatMap fun g => Token.uses.selections g.tokens := by
  induction ts generalizing s index with
  | nil => rfl
  | cons t ts ih =>
      obtain ⟨ht, hts⟩ := List.forall_mem_cons.1 hspelled
      obtain ⟨hsound, hdelimits, -⟩ := step_spec hs t ts
      have ih := ih hsound (index + 1) hts
      have hnil := fun hnone => gather_of_none hsound hnone (index + 1) ts
      have hselection := selection?_gather (s := s) ht (index + 1) ts
      rw [marks, List.zip_cons_cons, gather]
      cases hmark : (s.step t ts).1 with
      | continues =>
          simp only
          rw [UseReader.selections_cons, UseReader.selections_cons, ← hselection,
            List.append_assoc, ← ih]
      | opens =>
          simp only
          rw [List.flatMap_cons, UseReader.selections_cons, UseReader.selections_cons, ← hselection,
            List.append_assoc, ← ih]
          rfl
      | delimits =>
          have huse : ¬ t.isKeyword .USE := fun huse => (step_use huse (ht huse) ts).1 hmark
          have hnone : Token.uses.selection? t ts = none := if_neg huse
          simp only
          rw [UseReader.selections_cons, hnone, ih, hnil (hdelimits hmark)]
          rfl

end Split

theorem selections_splitStatements {ts : List Token}
    (hspelled : ∀ t ∈ ts, t.isKeyword .USE → sameFolded t.text.toList ['U', 'S', 'E']) :
    Token.uses.selections ts =
      (splitStatements ts).flatMap fun g => Token.uses.selections g.tokens := by
  have hsound : Split.State.IsSound {} := fun _ => rfl
  have hnil := Split.gather_of_none hsound rfl 0 ts
  have hall := Split.selections_gather hsound 0 hspelled
  simp only at hall
  rw [hnil] at hall
  exact hall

/-! ### Statements -/

/-- A statement names what its first token does, if that is a `USE`. -/
theorem usedDatabase?_ofTokens (t : Token) (ts : List Token) :
    usedDatabase? (.ofTokens (t :: ts)) (t :: ts) =
      (Token.uses.selection? t ts).map Selection.database := by
  rw [usedDatabase?, UseReader.selection?]
  by_cases huse : t.isKeyword .USE
  · have huse' : Token.uses.isUse t := huse
    rw [if_pos (StatementKind.ofTokens_of_use huse ts), if_pos huse', List.getElem?_cons_succ,
      ← List.head?_eq_getElem?, Option.map_map]
    exact Option.map_id'.symm
  · have huse' : ¬ Token.uses.isUse t := huse
    rw [if_neg fun h => huse (StatementKind.ofTokens_eq_use h), if_neg huse']
    rfl

namespace Statement

/-- A statement selects what its tokens name behind the `USE` that it begins with, if no other `USE`
in it names a database. -/
theorem map_database_selections {ts : List Token} (hinner : Token.uses.selections ts.tail = []) :
    (Token.uses.selections ts).map Selection.database = (parse ts).selected?.toList := by
  have hselected : (parse ts).selected? = usedDatabase?
      (.ofTokens (heading (ofQuery maxNesting) ts).rest) (heading (ofQuery maxNesting) ts).rest := by
    rw [parse, markedIn]
    cases ts with
    | nil => rfl
    | cons t ts => exact (usedDatabase?_eq _ _).symm
  cases ts with
  | nil => rw [hselected]; rfl
  | cons t ts =>
      rw [List.tail_cons] at hinner
      rw [hselected, heading, UseReader.selections_cons, hinner, List.append_nil]
      by_cases hwith : t.isKeyword .WITH
      · rw [if_pos hwith]
        have hsuffix := (CteList.skips_ofTokens (ofQuery maxNesting) ts).suffix
        have huse : ¬ t.isKeyword .USE := by
          have hkind : t.kind = .keyword .WITH := of_decide_eq_true hwith
          simp [Token.isKeyword, hkind]
        have hnone : Token.uses.selection? t ts = none := if_neg huse
        rw [hnone]
        generalize (CteList.ofTokens (ofQuery maxNesting) ts).rest = body at hsuffix
        cases body with
        | nil => rfl
        | cons u us =>
            have hu := (List.append_eq_nil_iff.1 (UseReader.selections_of_suffix hsuffix hinner)).1
            rw [usedDatabase?_ofTokens, Option.toList_eq_nil_iff.1 hu]
            rfl
      · rw [if_neg hwith, usedDatabase?_ofTokens]
        cases Token.uses.selection? t ts <;> rfl

end Statement

/-! ### Statements of a buffer -/

/-- A keyword is spelled like it. -/
theorem Elements.sameFolded_of_isKeyword {es : List Element} (h : Uncommented es) {p : Position}
    {t : Token} (ht : t ∈ tokensFrom p es) {k : Keyword} (hk : t.isKeyword k) :
    sameFolded t.text.toList k.letters := by
  obtain ⟨front, k', c, tail, back, rfl, rfl⟩ := exists_of_mem_tokensFrom ht
  obtain rfl : k' = .keyword k := of_decide_eq_true hk
  cases h.right.plain with
  | lexeme solid code lexes =>
      rw [String.toList_ofList]
      exact lexes.of_keyword.1

namespace Buffer

/-- The statements name what the tokens of the text do. -/
theorem selections_statementTokens (source : String) :
    (statementTokens source).flatMap Token.uses.selections =
      Token.uses.selections (maskedTokens .origin source) := by
  obtain ⟨es, hes, hmask, htokens⟩ := exists_uncommented_mask source
  have hspelled : ∀ t ∈ maskedTokens .origin source, t.isKeyword .USE →
      sameFolded t.text.toList ['U', 'S', 'E'] := fun t ht huse =>
    Elements.sameFolded_of_isKeyword hes (htokens ▸ ht) huse
  have hdivided : Token.uses.selections (maskedTokens .origin source) =
      (batchTokens source).flatMap Token.uses.selections := by
    rw [batchTokens, htokens, hmask]
    refine selections_tokensBetween (Elements.pairwise_line_tokensFrom _ _)
      (Batch.pairwise_separatorsFrom _ _) (fun t ht hline => ?_) fun l hl => ?_
    · -- the tokens of a separator line are the word `GO` and a number
      have hkind : t.kind = .keyword .GO ∨ t.kind = .number := by
        by_contra hnot
        refine Batch.notMem_separators (fun {g} {p} hg htg => ?_) hes ht hline
        cases hs : Batch.separates (lexemes g) with
        | false => rfl
        | true =>
            obtain ⟨front, k, c, tail, back, rfl, rfl⟩ := exists_of_mem_tokensFrom htg
            have hmem : Element.lexeme k c tail ∈ front ++ Element.lexeme k c tail :: back :=
              List.mem_append_right _ List.mem_cons_self
            exact absurd (Batch.kind_of_separates hg hs hmem) hnot
      rw [Token.isKeyword, Token.isName]
      rcases hkind with hkind | hkind
      · simp [hkind]
      · simp [hkind]
    · obtain ⟨t, ht, hline, -⟩ := Batch.exists_token_of_separator (p := .origin) hes hl
      exact ⟨t, ht, hline⟩
  rw [hdivided, statementTokens, List.flatMap_assoc]
  refine List.flatMap_congr fun ts hts => ?_
  have hsub : ts ⊆ maskedTokens .origin source := fun t ht =>
    (sublist_tokensBetween _ _).subset (List.mem_flatten.2 ⟨ts, hts, ht⟩)
  rw [List.flatMap_map, selections_splitStatements fun t ht => hspelled t (hsub ht)]

/-- The line of the first token. -/
def firstLine (ts : List Token) : Nat :=
  (ts.head?.map fun t => t.start.line).getD 0

theorem map_startLine_withDatabases (database : Option String) (ss : List Statement) :
    (withDatabases database ss).map Statement.startLine = ss.map Statement.startLine := by
  induction ss generalizing database with
  | nil => rfl
  | cons s ss ih =>
      unfold withDatabases
      split
      · rw [List.map_cons, List.map_cons, ih]
      · rw [List.map_cons, List.map_cons, ih]

theorem map_startLine_parse (source : String) (database : Option String) :
    (parse source database).statements.map Statement.startLine =
      (statementTokens source).map firstLine := by
  rw [statements_parse, map_startLine_withDatabases, statementTokens_eq, List.map_map, List.map_map]
  refine List.map_congr_left fun p _ => ?_
  rw [Function.comp_apply, Function.comp_apply, Statement.startLine_inBatch]
  cases p.2 with
  | nil => rw [Statement.parse, Statement.markedIn]; rfl
  | cons t ts => exact Statement.startLine_parse t ts

/-- The databases given to statements are active behind them already. -/
theorem activeDatabase_withDatabases (database : Option String) (ss : List Statement) (i : Nat) :
    activeDatabase database ((withDatabases database ss).take i) =
      activeDatabase database (ss.take i) := by
  induction ss generalizing database i with
  | nil => rfl
  | cons s ss ih =>
      cases i with
      | zero => rfl
      | succ i =>
          unfold withDatabases
          split
          · next huse =>
            obtain ⟨hkind, hsome⟩ : s.kind = .use ∧ s.database.isSome := by simpa using huse
            have hselected : s.selected? = s.database := if_pos hkind
            rw [List.take_succ_cons, List.take_succ_cons, activeDatabase_cons, activeDatabase_cons,
              hselected, Option.or_of_isSome hsome, ih]
          · next huse =>
            have hgiven : ({ s with database := database } : Statement).selected?.or database =
                database := by
              rw [Statement.selected?]
              split
              · exact Option.or_self
              · exact Option.none_or
            have hselected : s.selected? = none := by
              rw [Statement.selected?]
              split
              · next hkind => simpa [hkind] using huse
              · rfl
            rw [List.take_succ_cons, List.take_succ_cons, activeDatabase_cons, activeDatabase_cons,
              hgiven, hselected, Option.none_or, ih]

section

variable {source : String} {database : Option String} {i : Nat} {s : Statement}

/-- The database of a statement is named by the statements in front of it. -/
theorem database_of_getElem? (h : (parse source database).statements[i]? = some s)
    (hkind : s.kind ≠ .use) :
    s.database = (((statementTokens source).take i).filterMap fun ts =>
      (Statement.parse ts).selected?).getLast?.or database := by
  have hselected : s.selected? = none := if_neg hkind
  rw [statements_parse] at h
  have hinBatch : ∀ p : (List Token × Nat) × List Token,
      ((Statement.parse p.2).inBatch p.1.2).selected? = (Statement.parse p.2).selected? := by
    intro p
    rw [Statement.inBatch]
    rfl
  rw [database_withDatabases h, hselected, Option.none_or, activeDatabase_withDatabases,
    activeDatabase, statementTokens_eq, ← List.map_take, ← List.map_take, List.filterMap_map,
    List.filterMap_map]
  simp only [Function.comp_def, hinBatch]

theorem not_isKeyword_of_kind (h : (parse source database).statements[i]? = some s)
    (hkind : s.kind ≠ .use) {t : Token} {ts : List Token}
    (hts : (statementTokens source)[i]? = some (t :: ts)) : ¬ t.isKeyword .USE := by
  intro huse
  obtain ⟨us, hus, hreads⟩ := exists_reads h
  obtain rfl := Option.some.inj (hts.symm.trans hus)
  have hwith : ¬ t.isKeyword .WITH := by
    have hkind : t.kind = .keyword .USE := of_decide_eq_true huse
    simp [Token.isKeyword, hkind]
  have hparse : (Statement.parse (t :: ts)).kind = .use := by
    rw [Statement.parse, Statement.markedIn]
    have hbody : ∀ nested, (Statement.heading nested (t :: ts)).rest = t :: ts := fun nested => by
      rw [Statement.heading, if_neg hwith]
    exact (congrArg StatementKind.ofTokens (hbody _)).trans (StatementKind.ofTokens_of_use huse ts)
  have hread := congrArg Statement.kind hreads.isReadFrom
  rw [Statement.inBatch] at hread
  exact hkind (hread.trans hparse)

/-- Where each statement begins on a line of its own, their lines ascend. -/
theorem pairwise_firstLine
    (hown : ((parse source database).statements.map Statement.startLine).Nodup) :
    (statementTokens source).Pairwise fun us vs => firstLine us < firstLine vs := by
  have hle : ((parse source database).statements.map Statement.startLine).Pairwise (· ≤ ·) :=
    List.pairwise_map.2 ((pairwise_batch source database).imp And.left)
  have hlt := (hle.and hown).imp fun {m n} hmn => Nat.lt_of_le_of_ne hmn.1 hmn.2
  rw [map_startLine_parse] at hlt
  exact List.pairwise_map.1 hlt

theorem pairwise_line_statementTokens (source : String) :
    (statementTokens source).flatten.Pairwise fun s t => s.start.line ≤ t.start.line := by
  obtain ⟨es, -, -, htokens⟩ := exists_uncommented_mask source
  have hall := Elements.pairwise_line_tokensFrom .origin es
  rw [← htokens] at hall
  exact hall.sublist (sublist_statementTokens source)

theorem firstLine_le_of_mem {us : List Token} (hus : us ∈ statementTokens source) {t : Token}
    (ht : t ∈ us) : firstLine us ≤ t.start.line := by
  have hlines := (pairwise_line_statementTokens source).sublist (List.sublist_flatten_of_mem hus)
  obtain ⟨first, rest, rfl⟩ := List.exists_cons_of_ne_nil (List.ne_nil_of_mem ht)
  rcases List.mem_cons.1 ht with rfl | ht
  · exact Nat.le_refl _
  · exact (List.pairwise_cons.1 hlines).1 t ht

/-- The statements around one statement, with the lines of their tokens. -/
theorem exists_around (h : (parse source database).statements[i]? = some s)
    (hown : ((parse source database).statements.map Statement.startLine).Nodup) :
    ∃ t ts behind, statementTokens source = (statementTokens source).take i ++ (t :: ts) :: behind ∧
      (statementTokens source)[i]? = some (t :: ts) ∧
      (∀ front ∈ (statementTokens source).take i, firstLine front < s.startLine ∧
        ∀ t ∈ front, t.start.line ≤ s.startLine) ∧
      ∀ vs ∈ behind, ∀ t ∈ vs, s.startLine < t.start.line := by
  obtain ⟨us, hus, hreads⟩ := exists_reads h
  obtain ⟨first, rest, rfl⟩ := List.exists_cons_of_ne_nil hreads.ne_nil
  have hline : s.startLine = firstLine (first :: rest) := by
    have hmap := congrArg (·[i]?) (map_startLine_parse source database)
    rw [List.getElem?_map, List.getElem?_map, h, hus] at hmap
    exact Option.some.inj hmap
  obtain ⟨hi, heq⟩ := List.getElem?_eq_some_iff.1 hus
  have hsplit : statementTokens source = (statementTokens source).take i ++
      (first :: rest) :: (statementTokens source).drop (i + 1) := by
    rw [← heq, ← List.drop_eq_getElem_cons hi, List.take_append_drop]
  refine ⟨first, rest, _, hsplit, hus, fun front hfront => ⟨?_, fun t ht => ?_⟩,
    fun vs hvs t ht => ?_⟩
  · have hordered := pairwise_firstLine hown
    rw [hsplit] at hordered
    rw [hline]
    exact (List.pairwise_append.1 hordered).2.2 front hfront _ List.mem_cons_self
  · have hlines := pairwise_line_statementTokens source
    rw [hsplit, List.flatten_append, List.flatten_cons] at hlines
    rw [hline]
    exact (List.pairwise_append.1 hlines).2.2 t (List.mem_flatten.2 ⟨front, hfront, ht⟩) first
      List.mem_cons_self
  · have hordered := pairwise_firstLine hown
    rw [hsplit] at hordered
    rw [hline]
    have hlt := (List.pairwise_cons.1 (List.pairwise_append.1 hordered).2.1).1 vs hvs
    exact Nat.lt_of_lt_of_le hlt (firstLine_le_of_mem (List.mem_of_mem_drop hvs) ht)

/-- Statements without a `USE` inside name the databases that they select. -/
theorem map_database_flatMap {uss : List (List Token)}
    (hinner : ∀ us ∈ uss, Token.uses.selections us.tail = []) :
    (uss.flatMap Token.uses.selections).map Selection.database =
      uss.filterMap fun us => (Statement.parse us).selected? := by
  induction uss with
  | nil => rfl
  | cons us uss ih =>
      obtain ⟨hus, huss⟩ := List.forall_mem_cons.1 hinner
      rw [List.flatMap_cons, List.map_append, Statement.map_database_selections hus, ih huss,
        List.filterMap_cons]
      cases (Statement.parse us).selected? with
      | none => rfl
      | some database => rfl

/-- A statement has the database that is named last in front of it, where each statement begins on a
line of its own and none up to it holds a further `USE` with a name. -/
theorem database_of_uses (h : (parse source database).statements[i]? = some s)
    (hkind : s.kind ≠ .use)
    (hown : ((parse source database).statements.map Statement.startLine).Nodup)
    (hinner : ∀ us ∈ statementTokens source, upTo s.startLine (Token.uses.selections us.tail) = []) :
    let us := upTo s.startLine (Token.uses.selections (maskedTokens .origin source))
    s.database = Batch.activeIn database us ∧ ∀ u ∈ us, u.line < s.startLine := by
  obtain ⟨t, ts, behind, hsplit, hts, hfront, hbehind⟩ := exists_around h hown
  have htails : ∀ us ∈ (statementTokens source).take i, Token.uses.selections us.tail = [] := by
    intro us hus
    rw [← hinner us (List.mem_of_mem_take hus),
      UseReader.upTo_selections_of_le fun t ht => (hfront us hus).2 t (List.mem_of_mem_tail ht)]
  -- only the statements in front count
  have hearlier : upTo s.startLine (((statementTokens source).take i).flatMap Token.uses.selections) =
      ((statementTokens source).take i).flatMap Token.uses.selections := by
    rw [upTo, List.filter_flatMap]
    exact List.flatMap_congr fun us hus => UseReader.upTo_selections_of_le (hfront us hus).2
  have hself : upTo s.startLine (Token.uses.selections (t :: ts)) = [] := by
    have hnone : Token.uses.selection? t ts = none := if_neg (not_isKeyword_of_kind h hkind hts)
    rw [UseReader.selections_cons, hnone]
    refine hinner (t :: ts) ?_
    rw [hsplit]
    exact List.mem_append_right _ List.mem_cons_self
  have hlater : upTo s.startLine (behind.flatMap Token.uses.selections) = [] := by
    rw [upTo, List.filter_flatMap]
    exact List.flatMap_eq_nil_iff.2 fun us hus => UseReader.upTo_selections_of_lt (hbehind us hus)
  rw [← selections_statementTokens, hsplit, List.flatMap_append, List.flatMap_cons, upTo_append,
    upTo_append, hself, hlater, List.append_nil, List.append_nil, hearlier]
  refine ⟨?_, fun u hu => ?_⟩
  · rw [database_of_getElem? h hkind, Batch.activeIn, ← List.getLast?_map,
      map_database_flatMap htails]
  · obtain ⟨us, hus, hu⟩ := List.mem_flatMap.1 hu
    cases us with
    | nil => exact absurd hu List.not_mem_nil
    | cons v vs =>
        have hvs : Token.uses.selections vs = [] := htails (v :: vs) hus
        rw [UseReader.selections_cons, hvs, List.append_nil] at hu
        rw [(UseReader.of_mem_selection? (Option.mem_toList.1 hu)).2]
        exact (hfront (v :: vs) hus).1

end

end Buffer

end Tsql
