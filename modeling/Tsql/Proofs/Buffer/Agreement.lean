import Tsql.Proofs.Buffer.Uses
import Tsql.Proofs.Elements.Agreement

/-!
Statements and batches with the same database.

The batches of a text are cut at the directives among its characters, its statements at keywords
among its tokens. Both have the database that was selected last, and both ways to find what a `USE`
selects agree where it is clear how each `USE` is meant (`Statement.database_eq_of_batch`).
-/

namespace Tsql

open Text Scan Elements

/-- A clear name is a name for both readers or for neither. -/
theorem Lexed.name?_of_isClear {separators : List Nat} {n : Lexed} {m : Token}
    (h : n.onLine = m.onLine)
    (hclear : n.IsPlainName ∨ n.IsNoName ∨ n.kind = .keyword .GO ∧ n.line ∈ separators) :
    Token.uses.name? m = uses.name? n := by
  have hkind : n.kind = m.kind := congrArg Prod.fst h
  have htext : n.text = m.text := congrArg (fun x => x.2.1) h
  have hisName : m.isName ↔ n.kind = .identifier ∨ n.kind = .bracketed := by
    simp [Token.isName, hkind]
  by_cases hplain : n.IsPlainName
  · have hname : m.isName := hisName.2 (hplain.1.imp_right And.left)
    exact (if_pos hname).trans (htext ▸ (if_pos hplain).symm)
  · have hnone : m.isName = false := by
      rw [Bool.eq_false_iff]
      intro hname
      rcases hclear with h | h | ⟨h, -⟩
      · exact hplain h
      · exact (hisName.1 hname).elim h.1 h.2.1
      · simpa [h] using hisName.1 hname
    exact (Token.uses_name? hnone).trans (if_neg hplain).symm

/-- A clear `USE` names what it selects. -/
theorem Lexed.selection?_of_isClear {separators : List Nat} {w : Lexed} {ws : List Lexed} {t : Token}
    {ts : List Token} (hw : w.onLine = t.onLine) (hws : ws.map Lexed.onLine = ts.map Token.onLine)
    (hclear : w.isUse → w.IsClear separators ws) :
    Token.uses.selection? t ts = uses.selection? w ws := by
  have hkind : w.kind = t.kind := congrArg Prod.fst hw
  have hline : w.line = t.start.line := congrArg (fun x => x.2.2) hw
  by_cases huse : w.isUse
  · have huse' : Token.uses.isUse t := decide_eq_true (hkind ▸ of_decide_eq_true huse)
    have hname : ts.head?.bind Token.uses.name? = ws.head?.bind uses.name? := by
      cases ws with
      | nil =>
          obtain rfl : ts = [] := by simpa using hws.symm
          rfl
      | cons n ws =>
          cases ts with
          | nil => contradiction
          | cons m ts =>
              exact name?_of_isClear (List.cons.inj hws).1 ((hclear huse).2 n rfl)
    have hisUse : uses.isUse w := huse
    rw [UseReader.selection?, UseReader.selection?, if_pos huse', if_pos hisUse, hname]
    exact congrArg (fun line => (ws.head?.bind uses.name?).map (Selection.mk line)) hline.symm
  · have huse' : Token.uses.isUse t = false :=
      decide_eq_false fun h => huse (decide_eq_true (hkind.trans h))
    rw [UseReader.selection?_of_not_isUse huse',
      UseReader.selection?_of_not_isUse (Bool.eq_false_iff.2 huse)]

/-- Where it is clear what each `USE` selects, the tokens name what the lexemes select. -/
theorem upTo_selections {separators : List Nat} {last : Nat} {ws : List Lexed} {ts : List Token}
    (h : ws.map Lexed.onLine = ts.map Token.onLine) (hclear : UsesClear separators last ws) :
    upTo last (Token.uses.selections ts) = upTo last (Lexed.uses.selections ws) := by
  induction ws generalizing ts with
  | nil =>
      obtain rfl : ts = [] := by simpa using h.symm
      rfl
  | cons w ws ih =>
      cases ts with
      | nil => contradiction
      | cons t ts =>
          obtain ⟨hhead, htail⟩ := List.cons.inj h
          rw [UseReader.selections_cons, UseReader.selections_cons, upTo_append, upTo_append,
            ih htail hclear.2]
          congr 1
          by_cases hline : w.line ≤ last
          · rw [Lexed.selection?_of_isClear hhead htail fun huse => hclear.1 huse hline]
          · -- neither counts
            have hlt : last < w.line := Nat.lt_of_not_le hline
            have hsame : w.line = t.start.line := congrArg (fun x => x.2.2) hhead
            rw [upTo_eq_nil fun u hu => ?_, upTo_eq_nil fun u hu => ?_]
            · rw [(UseReader.of_mem_selection? (Option.mem_toList.1 hu)).2]
              exact hlt
            · rw [(UseReader.of_mem_selection? (Option.mem_toList.1 hu)).2]
              exact Nat.lt_of_lt_of_eq hlt hsame

/-- A statement that begins in the lines of a batch has the database of the batch, if each statement
begins on a line of its own, none holds a further `USE` with a name up to that line, and it is clear
what each `USE` up to that line selects. -/
theorem Statement.database_eq_of_batch (source : String) (database : Option String) {s : Statement}
    (hs : s ∈ (Buffer.parse source database).statements) (hkind : s.kind ≠ .use) {b : Batch}
    (hb : b ∈ Batch.ofSource source database) (hfirst : b.startLine ≤ s.startLine)
    (hlast : s.startLine ≤ b.startLine + b.sql.toList.count '\n')
    (hown : ((Buffer.parse source database).statements.map Statement.startLine).Nodup)
    (hinner : ∀ ts ∈ Buffer.statementTokens source,
      upTo s.startLine (Token.uses.selections ts.tail) = [])
    (hclear : UsesClear (Batch.separators (maskComments source).toList) s.startLine
      (lexed (removeComments source))) :
    s.database = b.database := by
  obtain ⟨i, hi⟩ := List.getElem?_of_mem hs
  obtain ⟨hdatabase, hlines⟩ := Buffer.database_of_uses hi hkind hown hinner
  -- the text without comments and its lexemes
  obtain ⟨es, htext, hplaced⟩ := Elements.exists_placed source.toList
  have hcode := Uncommented.of_blanks Element.blanks_cleaned hplaced
  have hclean : clean source.toList = text (es.flatMap Element.cleaned) := by
    rw [← htext, Elements.clean_text hplaced]
  have hlexed : lexed (removeComments source) = lexedFrom 1 none (es.flatMap Element.cleaned) := by
    rw [lexed, removeComments, String.toList_ofList, hclean, ofText_text hcode.placed]
  have honLine : (lexedFrom 1 none (es.flatMap Element.cleaned)).map Lexed.onLine =
      (Buffer.maskedTokens .origin source).map Token.onLine := by
    obtain ⟨hmask, hcleaned, -⟩ := tokenize_agrees_with_scan source
    have hmasked : Buffer.maskedTokens .origin source = tokenize (maskComments source) := rfl
    have hcleanTokens : tokenize (removeComments source) =
        tokensFrom .origin (es.flatMap Element.cleaned) := by
      rw [tokenize, tokenizeFrom, removeComments, String.toList_ofList, hclean,
        Elements.tokens_text hcode.placed]
    rw [hmasked, hmask, ← hcleaned, hcleanTokens]
    exact map_onLine_lexedFrom .origin none _
  have hseparators : Batch.separators (maskComments source).toList =
      Batch.separators (text (es.flatMap Element.cleaned)) := by
    rw [maskComments, String.toList_ofList, ← Batch.separators_clean_eq_mask, hclean]
  rw [hlexed, hseparators] at hclear
  rw [Batch.ofSource, hclean] at hb
  obtain ⟨front, back, hall, hbatch, hfront, hback⟩ := Batch.exists_active hcode hb
  have huses := (upTo_selections honLine hclear).trans
    (Batch.upTo_directiveSelections hcode hclear).symm
  rw [hall, upTo_append] at huses
  rw [huses] at hdatabase hlines
  have hbefore : upTo s.startLine front = front :=
    List.filter_eq_self.2 fun u hu => decide_eq_true (Nat.le_trans (hfront u hu) hfirst)
  -- what the batch has behind it would begin on the line of the statement
  have hbehind : upTo s.startLine back = [] := by
    refine List.eq_nil_iff_forall_not_mem.2 fun u hu => ?_
    have hlt := hlines u (List.mem_append_right _ hu)
    have hle := hback u (List.mem_filter.1 hu).1
    rw [Batch.lastLine] at hle
    omega
  rw [hdatabase, hbatch, hbefore, hbehind, List.append_nil]

/-- A directive with a `;` inside its brackets, and a `USE` that a separator line keeps from what
stands behind it. -/
theorem Statement.database_eq_of_batch_behind_separators :
    let source := "USE [a;b];\nINSERT t\nSELECT 1\nUSE\nGO 2\nSELECT 2"
    ∃ s ∈ (Buffer.parse source none).statements, ∃ b ∈ Batch.ofSource source none,
      s.startLine = 6 ∧ b.startLine = 6 ∧ b.database = some "a;b" ∧ s.database = b.database := by
  intro source
  obtain ⟨s, hs, hkind, hline⟩ : ∃ s ∈ (Buffer.parse source none).statements,
      s.kind ≠ .use ∧ s.startLine = 6 := by decide +kernel
  obtain ⟨b, hb, hstart, hdatabase⟩ : ∃ b ∈ Batch.ofSource source none,
      b.startLine = 6 ∧ b.database = some "a;b" := by decide +kernel
  refine ⟨s, hs, b, hb, hline, hstart, hdatabase,
    database_eq_of_batch source none hs hkind hb (by omega) (by omega) ?_ ?_ ?_⟩
  · decide +kernel
  · rw [hline]
    decide +kernel
  · rw [hline]
    decide +kernel

/-- A keyword on the line behind a `USE` is the database of a batch, but not of a statement. -/
theorem Statement.database_ne_of_batch_behind_keyword :
    let source := "USE\nSELECT 1"
    (Buffer.parse source none).statements.map Statement.startLine = [1, 2] ∧
      ∃ s ∈ (Buffer.parse source none).statements, ∃ b ∈ Batch.ofSource source none,
        s.kind ≠ .use ∧ s.batch = b.number ∧ b.startLine ≤ s.startLine ∧
          s.startLine ≤ b.startLine + b.sql.toList.count '\n' ∧ s.database ≠ b.database := by
  decide +kernel

end Tsql
