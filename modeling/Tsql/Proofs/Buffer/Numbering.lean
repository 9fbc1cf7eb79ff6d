import Tsql.Buffer
import Tsql.Proofs.Batch.Numbering
import Tsql.Proofs.Statement.Segments

/-!
The numbers of the batches that the statements of a buffer are in.

The tokens of the text with masked comments are divided at the separator lines, so a statement has
the number of separators in front of its first token, and nothing of it is on a separator line. The
statements nested in it have the same number, and so do the temporary tables of all of them.
-/

namespace Tsql

open Text Scan

namespace Statement

theorem nested_inBatch (batch : Nat) (s : Statement) :
    (s.inBatch batch).nested = s.nested.map (inBatch batch) := by
  rw [inBatch]
  simp [nested, Function.comp_def]

/-- The number reaches every level of nesting. -/
theorem batch_of_mem_all_inBatch (batch : Nat) (s : Statement) :
    ∀ n ∈ (s.inBatch batch).all, n.batch = batch ∧ ∀ t ∈ n.tempTable, t.batch = batch := by
  induction s using Statement.induction with
  | step s ih =>
      rw [all_eq, nested_inBatch]
      refine List.forall_mem_cons.2 ⟨?_, fun n hn => ?_⟩
      · rw [inBatch]
        refine ⟨rfl, fun t ht => ?_⟩
        obtain ⟨t', -, rfl⟩ := Option.map_eq_some_iff.1 ht
        rfl
      · obtain ⟨_, hmap, hn⟩ := List.mem_flatMap.1 hn
        obtain ⟨m, hm, rfl⟩ := List.mem_map.1 hmap
        exact ih m hm n hn

theorem startLine_parse (t : Token) (ts : List Token) :
    (parse (t :: ts)).startLine = t.start.line := by
  rw [parse, markedIn, build]

theorem startLine_inBatch (batch : Nat) (s : Statement) :
    (s.inBatch batch).startLine = s.startLine := by
  rw [inBatch]

end Statement

/-! ### The tokens of statements -/

theorem subset_of_mem_splitStatements {ts : List Token} {s : Split.Segment}
    (h : s ∈ splitStatements ts) : s.tokens ≠ [] ∧ s.tokens ⊆ ts := by
  obtain ⟨hne, -, htokens⟩ := piece_of_mem_splitStatements h
  refine ⟨hne, ?_⟩
  rw [htokens]
  exact List.Subset.trans (List.take_subset _ _) (List.drop_subset _ _)

namespace Buffer

/-! ### Division at lines -/

theorem length_tokensBetween (ts : List Token) (ls : List Nat) :
    (tokensBetween ts ls).length = ls.length + 1 := by
  induction ls generalizing ts with
  | nil => rfl
  | cons l ls ih => rw [tokensBetween, List.length_cons, ih, List.length_cons]

/-- Behind the tokens with a property that no later token has alone, none has it. -/
theorem not_of_mem_dropWhile {p : Token → Bool} {ts : List Token}
    (hmono : ts.Pairwise fun s t => p t → p s) : ∀ t ∈ ts.dropWhile p, p t = false := by
  induction ts with
  | nil => simp
  | cons s ts ih =>
      obtain ⟨hs, hts⟩ := List.pairwise_cons.1 hmono
      by_cases hp : p s
      · rw [List.dropWhile_cons_of_pos hp]
        exact ih hts
      · rw [List.dropWhile_cons_of_neg hp]
        refine List.forall_mem_cons.2 ⟨by simpa using hp, fun t ht => ?_⟩
        cases hpt : p t with
        | false => rfl
        | true => exact absurd (hs t ht hpt) hp

theorem lt_of_mem_takeWhile {ts : List Token} {l : Nat} {t : Token}
    (h : t ∈ ts.takeWhile fun t => t.start.line < l) : t.start.line < l := by
  simpa using List.all_eq_true.1 List.all_takeWhile t h

/-- Behind the tokens before a line and those on it stand only those of later lines. -/
theorem lt_of_mem_behind {ts : List Token}
    (hts : ts.Pairwise fun s t => s.start.line ≤ t.start.line) {l : Nat} {t : Token}
    (h : t ∈ (ts.dropWhile fun t => t.start.line < l).dropWhile fun t => t.start.line = l) :
    l < t.start.line := by
  -- the lines ascend, so dropping the tokens on early lines leaves only later ones
  have hge : ∀ t ∈ ts.dropWhile (fun t => t.start.line < l), l ≤ t.start.line := by
    intro t ht
    have hmono : ts.Pairwise fun s t : Token =>
        decide (t.start.line < l) → decide (s.start.line < l) :=
      hts.imp fun hst ht => by
        simp only [decide_eq_true_eq] at ht ⊢
        omega
    simpa using not_of_mem_dropWhile hmono t ht
  have hbehind := hts.sublist (List.dropWhile_sublist fun t : Token => decide (t.start.line < l))
  have hmono := hbehind.imp_of_mem (S := fun s t : Token =>
    decide (t.start.line = l) → decide (s.start.line = l)) fun hs _ hst ht => by
      have := hge _ hs
      simp only [decide_eq_true_eq] at ht ⊢
      omega
  have hne : t.start.line ≠ l := by simpa using not_of_mem_dropWhile hmono t h
  have hle := hge t ((List.dropWhile_sublist _).subset h)
  omega

/-- The first part holds the tokens in front of the first dividing line, and the other parts are those
of the tokens behind that line. -/
theorem exists_tokensBetween_cons {ts : List Token}
    (hts : ts.Pairwise fun s t => s.start.line ≤ t.start.line) (l : Nat) :
    ∃ front on back, ts = front ++ (on ++ back) ∧
      (∀ ls, tokensBetween ts (l :: ls) = front :: tokensBetween back ls) ∧
      (∀ t ∈ front, t.start.line < l) ∧ (∀ t ∈ on, t.start.line = l) ∧
      ∀ t ∈ back, l < t.start.line := by
  refine ⟨ts.takeWhile fun t => t.start.line < l,
    (ts.dropWhile fun t => t.start.line < l).takeWhile fun t => t.start.line = l,
    (ts.dropWhile fun t => t.start.line < l).dropWhile fun t => t.start.line = l,
    ?_, fun ls => rfl, fun t => lt_of_mem_takeWhile, fun t ht => ?_, fun t => lt_of_mem_behind hts⟩
  · rw [List.takeWhile_append_dropWhile, List.takeWhile_append_dropWhile]
  · simpa using List.all_eq_true.1 List.all_takeWhile t ht

/-- The tokens of one part are in the text, on no dividing line, and behind as many of these lines
as there are parts in front. -/
theorem countP_of_mem_tokensBetween {ts : List Token} {ls : List Nat}
    (hts : ts.Pairwise fun s t => s.start.line ≤ t.start.line) (hls : ls.Pairwise (· < ·)) {k : Nat}
    {us : List Token} {i : Nat} (h : (us, i) ∈ (tokensBetween ts ls).zipIdx k) :
    ∀ t ∈ us, t ∈ ts ∧ t.start.line ∉ ls ∧ ls.countP (· < t.start.line) + k = i := by
  induction ls generalizing ts k with
  | nil =>
      obtain ⟨rfl, rfl⟩ : us = ts ∧ i = k := by simpa [tokensBetween] using h
      intro t ht
      exact ⟨ht, List.not_mem_nil, by simp⟩
  | cons l ls ih =>
      obtain ⟨hl, hls⟩ := List.pairwise_cons.1 hls
      obtain ⟨front, on, back, rfl, hbetween, hfront, -, hback⟩ := exists_tokensBetween_cons hts l
      rw [hbetween, List.zipIdx_cons] at h
      rcases List.mem_cons.1 h with h | h
      · -- all dividing lines are behind the first part
        obtain ⟨rfl, rfl⟩ : us = front ∧ i = k := by simpa using h
        intro t ht
        have hlt := hfront t ht
        have hlater : ∀ j ∈ l :: ls, t.start.line < j :=
          List.forall_mem_cons.2 ⟨hlt, fun j hj => Nat.lt_trans hlt (hl j hj)⟩
        have hzero : (l :: ls).countP (· < t.start.line) = 0 := by
          rw [List.countP_eq_zero]
          intro j hj
          simpa using Nat.le_of_lt (hlater j hj)
        refine ⟨List.mem_append_left _ ht, fun hmem => ?_, ?_⟩
        · exact Nat.lt_irrefl _ (hlater _ hmem)
        · rw [hzero, Nat.zero_add]
      · -- the tokens on the dividing line are dropped
        have hsub := (List.suffix_append on back).trans (List.suffix_append front (on ++ back))
        intro t ht
        obtain ⟨hmem, hnot, hcount⟩ := ih (hts.sublist hsub.sublist) hls h t ht
        have hgt := hback t hmem
        refine ⟨hsub.subset hmem, ?_, ?_⟩
        · intro hmem'
          rcases List.mem_cons.1 hmem' with heq | hmem'
          · omega
          · exact hnot hmem'
        · have hcons : (l :: ls).countP (· < t.start.line) = ls.countP (· < t.start.line) + 1 :=
            List.countP_cons_of_pos (by simpa using hgt)
          omega

/-- The tokens of each statement of a buffer, in order. -/
def statementTokens (source : String) : List (List Token) :=
  (batchTokens source).flatMap fun ts => (splitStatements ts).map Split.Segment.tokens

/-- The statement is read off the tokens. -/
def IsReadFrom (s : Statement) (ts : List Token) : Prop :=
  s = { (Statement.parse ts).inBatch s.batch with database := s.database }

/-- The tokens of each statement, behind the tokens and the number of its batch. -/
def numberedTokens (source : String) : List ((List Token × Nat) × List Token) :=
  (batchTokens source).zipIdx.flatMap fun p =>
    (splitStatements p.1).map fun s => (p, s.tokens)

theorem statementTokens_eq (source : String) :
    statementTokens source = (numberedTokens source).map Prod.snd := by
  have hfst : ∀ f : List Token → List (List Token),
      (batchTokens source).zipIdx.flatMap (fun p => f p.1) = (batchTokens source).flatMap f := by
    intro f
    rw [← List.flatMap_map, List.zipIdx_map_fst]
  rw [numberedTokens, List.map_flatMap, statementTokens, ← hfst]
  simp [Function.comp_def]

theorem statements_parse (source : String) (database : Option String) :
    (parse source database).statements =
      withDatabases database ((numberedTokens source).map fun p =>
        (Statement.parse p.2).inBatch p.1.2) := by
  rw [numberedTokens, List.map_flatMap]
  simp [parse, statementsIn, Function.comp_def]

theorem getElem?_withDatabases {database : Option String} {ss : List Statement} {i : Nat}
    {s : Statement} (h : (withDatabases database ss)[i]? = some s) :
    ∃ s', ss[i]? = some s' ∧ s = { s' with database := s.database } := by
  induction ss generalizing database i with
  | nil => simp [withDatabases] at h
  | cons s' ss ih =>
      unfold withDatabases at h
      cases i with
      | zero =>
          refine ⟨s', rfl, ?_⟩
          split at h
          · rw [List.getElem?_cons_zero, Option.some.injEq] at h
            subst h
            cases s'
            rfl
          · rw [List.getElem?_cons_zero, Option.some.injEq] at h
            rw [← h]
      | succ i =>
          split at h
          · exact ih h
          · exact ih h

theorem all_with_database (s : Statement) (database : Option String) :
    ({ s with database := database } : Statement).all =
      { s with database := database } :: s.nested.flatMap Statement.all := by
  rw [Statement.all_eq]
  rfl

theorem batch_of_mem_all {s : Statement} {ts : List Token} (h : IsReadFrom s ts) :
    ∀ n ∈ s.all, n.batch = s.batch ∧ ∀ t ∈ n.tempTable, t.batch = s.batch := by
  have hall := Statement.batch_of_mem_all_inBatch s.batch (Statement.parse ts)
  rw [Statement.all_eq] at hall
  obtain ⟨hself, hnested⟩ := List.forall_mem_cons.1 hall
  rw [IsReadFrom] at h
  intro n hn
  rw [h, all_with_database] at hn
  rcases List.mem_cons.1 hn with rfl | hn
  · exact hself
  · exact hnested n hn

/-- Where a statement of a buffer comes from: a part of the tokens between separator lines. -/
theorem exists_of_getElem?_parse {source : String} {database : Option String} {i : Nat}
    {s : Statement} (h : (parse source database).statements[i]? = some s) :
    ∃ ts us, (ts, s.batch) ∈ (batchTokens source).zipIdx ∧
      (statementTokens source)[i]? = some us ∧ us ≠ [] ∧ us ⊆ ts ∧ IsReadFrom s us := by
  rw [statements_parse] at h
  obtain ⟨s', hs', heq⟩ := getElem?_withDatabases h
  rw [List.getElem?_map, Option.map_eq_some_iff] at hs'
  obtain ⟨⟨⟨ts, batch⟩, us⟩, hi, rfl⟩ := hs'
  obtain ⟨p, hp, hus⟩ := List.mem_flatMap.1 (List.mem_of_getElem? hi)
  obtain ⟨segment, hsegment, hpair⟩ := List.mem_map.1 hus
  obtain ⟨rfl, rfl⟩ := Prod.mk.inj hpair
  obtain ⟨hne, hsub⟩ := subset_of_mem_splitStatements hsegment
  have hbatch : s.batch = batch := by
    rw [heq]
    exact (Statement.batch_of_mem_all_inBatch _ _ _ (Statement.mem_all_self _)).1
  refine ⟨ts, segment.tokens, hbatch ▸ hp, ?_, hne, hsub, ?_⟩
  · rw [statementTokens_eq, List.getElem?_map, hi, Option.map_some]
  · rw [IsReadFrom, hbatch]
    exact heq

theorem exists_uncommented_mask (source : String) :
    ∃ es, Elements.Uncommented es ∧ mask source.toList = Elements.text es ∧
      maskedTokens .origin source = Elements.tokensFrom .origin es := by
  obtain ⟨es, htext, hplaced⟩ := Elements.exists_placed source.toList
  have hmask : mask source.toList = Elements.text (es.flatMap Element.masked) := by
    rw [← htext, Elements.mask_text hplaced]
  have hcode := Elements.Uncommented.of_blanks Element.blanks_masked hplaced
  refine ⟨_, hcode, hmask, ?_⟩
  rw [maskedTokens, tokenizeFrom, String.toList_ofList, hmask, Elements.tokens_text hcode.placed]

end Buffer

/-- Both ways to divide a text at its separator lines number the batches by these lines. -/
theorem batches_numbered_by_separators (source : String) (database : Option String) :
    let separators := Batch.separators (maskComments source).toList
    let buffer := Buffer.parse source database
    Batch.separators (removeComments source).toList = separators ∧
      buffer.batchCount = separators.length + 1 ∧
      (∀ (i : Nat) (s : Statement), buffer.statements[i]? = some s →
        s.batch = separators.countP (· < s.startLine) ∧
          (∃ ts, (Buffer.statementTokens source)[i]? = some ts ∧ Buffer.IsReadFrom s ts ∧
            ∀ t ∈ ts, ∀ line ∈ separators, ¬ (t.start.line ≤ line ∧ line ≤ t.stop.line)) ∧
          ∀ n ∈ s.all, n.batch = s.batch ∧ ∀ t ∈ n.tempTable, t.batch = s.batch) ∧
      ∀ b ∈ Batch.ofSource source database,
        b.number = separators.countP (· < b.startLine) := by
  intro separators buffer
  have hclean : Batch.separators (removeComments source).toList = separators := by
    rw [removeComments, String.toList_ofList, Batch.separators_clean_eq_mask]
    simp [separators, maskComments]
  have hseparators : separators = Batch.separators (mask source.toList) := by
    simp [separators, maskComments]
  obtain ⟨es, hes, hmask, htokens⟩ := Buffer.exists_uncommented_mask source
  refine ⟨hclean, ?_, fun i s hs => ?_, fun b hb => ?_⟩
  · rw [hseparators]
    exact Buffer.length_tokensBetween _ _
  · obtain ⟨ts, us, hts, hus, hne, hsub, hread⟩ := Buffer.exists_of_getElem?_parse hs
    rw [Buffer.batchTokens, htokens, ← hseparators] at hts
    have hascending : separators.Pairwise (· < ·) := Batch.pairwise_separatorsFrom _ _
    have hdivided := Buffer.countP_of_mem_tokensBetween (Elements.pairwise_line_tokensFrom _ _)
      hascending hts
    refine ⟨?_, ⟨us, hus, hread, fun t ht => ?_⟩, Buffer.batch_of_mem_all hread⟩
    · obtain ⟨t, us, rfl⟩ := List.exists_cons_of_ne_nil hne
      have hcount := (hdivided t (hsub List.mem_cons_self)).2.2
      have hline : s.startLine = t.start.line := by
        rw [hread]
        exact (Statement.startLine_inBatch _ _).trans (Statement.startLine_parse t us)
      rw [hline, ← hcount, Nat.add_zero]
    · obtain ⟨hin, hstart, -⟩ := hdivided t (hsub ht)
      rw [hseparators, hmask, Batch.separators] at hstart ⊢
      exact Batch.notMem_separatorsFrom hes hin hstart
  · rw [Batch.number_eq hb, ← hclean, removeComments, String.toList_ofList]

end Tsql
