import Tsql.Proofs.Completion.Cursor
import Tsql.Proofs.Statement.TokensText
import Tsql.Proofs.TempTable.Creation

/-!
The texts that are kept of the columns of a statement.

A data type and an expression are texts that are written for tokens of the statement that stand in a
row, with the exception of a column that is nothing but a name and is given another one: its
expression is the name of the column (`Statement.writesColumns_parse`). So all other texts have the
tokens that they are written for (`tokenize_tokensText`).
-/

namespace Tsql

/-! ### Parts of a token list -/

theorem isInfix_of_mem_splitTop {separator : TokenKind} {depth : Nat} {ts part : List Token}
    (h : part ∈ splitTop separator depth ts) : part <:+: ts := by
  suffices hparts : (∀ first ∈ (splitTop separator depth ts).head?, first <+: ts) ∧
      ∀ part ∈ splitTop separator depth ts, part <:+: ts from hparts.2 part h
  clear h
  induction ts generalizing depth with
  | nil => simp [splitTop]
  | cons t ts ih =>
      rw [splitTop]
      split
      · refine ⟨by simp, List.forall_mem_cons.2 ⟨List.nil_infix, fun part hpart => ?_⟩⟩
        exact (ih.2 part hpart).trans (List.suffix_cons t ts).isInfix
      · obtain ⟨hfirst, hparts⟩ := @ih (t.depthAfter depth)
        split
        · have hfront : [t] <+: t :: ts := List.prefix_append [t] ts
          exact ⟨by simp, by simpa using hfront.isInfix⟩
        · next first rest heq =>
          rw [heq] at hfirst hparts
          have hfront : t :: first <+: t :: ts := List.prefix_cons_inj t |>.2 (hfirst first rfl)
          refine ⟨by simpa using hfront,
            List.forall_mem_cons.2 ⟨hfront.isInfix, fun part hpart => ?_⟩⟩
          exact (hparts part (List.mem_cons_of_mem _ hpart)).trans (List.suffix_cons t ts).isInfix

theorem skipSelectWords_suffix (ts : List Token) : skipSelectWords ts <:+ ts := by
  fun_induction skipSelectWords ts with
  | case1 => exact List.suffix_rfl
  | case2 t rest _ ih => exact ih.trans (List.suffix_cons t rest)
  | case3 t rest _ _ ih =>
      exact ih.trans ((skips_skipRowCount rest).suffix.trans (List.suffix_cons t rest))
  | case4 t rest _ _ _ ih =>
      exact ih.trans ((List.tail_suffix rest).trans (List.suffix_cons t rest))
  | case5 => exact List.suffix_rfl

theorem splitAlias_prefix (item : List Token) : (splitAlias item).1 <+: item := by
  unfold splitAlias
  split
  · next last before rest heq =>
    have hitem : item = rest.reverse ++ [before, last] := by
      rw [← List.reverse_reverse item, heq]
      simp
    have hlong : rest.reverse <+: item := ⟨_, hitem.symm⟩
    have hshort : (before :: rest).reverse <+: item := ⟨[last], by rw [hitem]; simp⟩
    split
    · exact hlong
    · split
      · exact hlong
      · split
        · exact hshort
        · split
          · exact hshort
          · exact List.prefix_rfl
  · exact List.prefix_rfl

theorem isInfix_of_itemParts? {item expression : List Token} {name : Option String}
    (h : itemParts? item = some (expression, name)) : expression <:+: item := by
  unfold itemParts? at h
  split at h
  · contradiction
  · next t ts =>
    split at h
    · next op rest =>
      split at h
      · contradiction
      · split at h
        · obtain ⟨rfl, -⟩ := Prod.mk.inj (Option.some.inj h)
          exact ((List.suffix_cons op rest).trans (List.suffix_cons t _)).isInfix
        · have hfront := splitAlias_prefix (t :: op :: rest)
          rw [Option.some.inj h] at hfront
          exact hfront.isInfix
    · split at h
      · contradiction
      · obtain ⟨rfl, -⟩ := Prod.mk.inj (Option.some.inj h)
        exact List.infix_rfl

theorem suffix_of_behindLastAs? {depth : Nat} {ts us : List Token}
    (h : behindLastAs? depth ts = some us) : us <:+ ts := by
  induction ts generalizing depth with
  | nil => contradiction
  | cons t ts ih =>
      rw [behindLastAs?] at h
      rcases Option.or_eq_some_iff.1 h with h | ⟨-, h⟩
      · exact (ih h).trans (List.suffix_cons t ts)
      · split at h
        · obtain rfl := Option.some.inj h
          exact List.suffix_cons t ts
        · contradiction

theorem castTarget_isInfix (function : Token) (arguments : List Token) :
    castTarget function arguments <:+: arguments := by
  unfold castTarget
  split
  · cases h : behindLastAs? 0 arguments with
    | none => exact List.nil_infix
    | some us => exact (suffix_of_behindLastAs? h).isInfix
  · split
    · cases h : splitTop .comma 0 arguments with
      | nil => exact List.nil_infix
      | cons part parts => exact isInfix_of_mem_splitTop (h ▸ List.mem_cons_self)
    · exact List.nil_infix

theorem exists_of_castType? {expression : List Token} {type : String}
    (h : castType? expression = some type) : ∃ us, us <:+: expression ∧ type = tokensText us := by
  unfold castType? at h
  split at h
  · next function t ts =>
    dsimp only at h
    split at h
    · have hin : castTarget function (Group.after ts).inner <:+: function :: t :: ts :=
        (castTarget_isInfix _ _).trans
          ((Group.inner_isInfix t ts).trans (List.suffix_cons function _).isInfix)
      split at h
      · contradiction
      · exact ⟨_, hin, (Option.some.inj h).symm⟩
    · contradiction
  · contradiction

/-! ### The texts of a column -/

/-- The texts of the column are written for tokens in a row among those of `ts`, or the expression
is the name of the column that it stands for, when it has been given another one. -/
structure ColumnRef.IsWrittenFor (c : ColumnRef) (ts : List Token) : Prop where
  dataType : ∀ text ∈ c.dataType, ∃ us, us <:+: ts ∧ text = tokensText us
  expression : ∀ text ∈ c.expression, (∃ us, us <:+: ts ∧ text = tokensText us) ∨
    ∃ us, us <:+: ts ∧ columnPath? us = some (text, c.source) ∧ text ≠ c.name

namespace ColumnRef

variable {c : ColumnRef} {ts us : List Token}

theorem IsWrittenFor.mono (h : c.IsWrittenFor ts) (hin : ts <:+: us) : c.IsWrittenFor us where
  dataType text htext := by
    obtain ⟨vs, hvs, heq⟩ := h.dataType text htext
    exact ⟨vs, hvs.trans hin, heq⟩
  expression text htext := by
    rcases h.expression text htext with ⟨vs, hvs, heq⟩ | ⟨vs, hvs, heq⟩
    · exact .inl ⟨vs, hvs.trans hin, heq⟩
    · exact .inr ⟨vs, hvs.trans hin, heq⟩

theorem exists_of_starColumn? {expression : List Token} (h : starColumn? expression = some c) :
    ∃ qualifier, c = .star qualifier := by
  unfold starColumn? at h
  split at h
  · split at h
    · exact ⟨_, (Option.some.inj h).symm⟩
    · contradiction
  · split at h
    · exact ⟨_, (Option.some.inj h).symm⟩
    · contradiction
  · contradiction

theorem isWrittenFor_ofExpression (expression : List Token) (name : Option String)
    (placeholder : String) : (ofExpression expression name placeholder).IsWrittenFor expression := by
  unfold ofExpression
  split
  · next hstar =>
    obtain ⟨qualifier, rfl⟩ := exists_of_starColumn? hstar
    exact ⟨by simp [star], by simp [star]⟩
  · next column qualifier hstar hpath =>
    refine ⟨by simp, fun text htext => .inr ⟨expression, List.infix_rfl, ?_⟩⟩
    dsimp only at htext
    split at htext
    · contradiction
    · next hne =>
      obtain rfl := Option.some.inj htext
      exact ⟨hpath, fun heq => hne heq.symm⟩
  · refine ⟨fun text htext => exists_of_castType? htext, fun text htext => ?_⟩
    exact .inl ⟨expression, List.infix_rfl, (Option.some.inj htext).symm⟩

theorem isWrittenFor_of_mem_columnsFrom {items : List (List Token)} {unnamed : Nat}
    (h : c ∈ columnsFrom unnamed items) : ∃ item ∈ items, c.IsWrittenFor item := by
  induction items generalizing unnamed with
  | nil => exact absurd h List.not_mem_nil
  | cons item items ih =>
      have hlater : ∀ used, c ∈ columnsFrom used items →
          ∃ item' ∈ item :: items, c.IsWrittenFor item' := by
        intro used hused
        obtain ⟨item', hitem', hc⟩ := ih hused
        exact ⟨item', List.mem_cons_of_mem item hitem', hc⟩
      rw [columnsFrom] at h
      split at h
      · exact hlater _ h
      · next expression name heq =>
        rcases List.mem_cons.1 h with rfl | h
        · exact ⟨item, List.mem_cons_self,
            (isWrittenFor_ofExpression expression name _).mono (isInfix_of_itemParts? heq)⟩
        · exact hlater _ h

theorem isWrittenFor_of_mem_columnDefinitions (h : c ∈ columnDefinitions ts) :
    c.IsWrittenFor ts := by
  obtain ⟨item, hitem, hc⟩ := List.mem_filterMap.1 h
  refine IsWrittenFor.mono ?_ (isInfix_of_mem_splitTop hitem)
  unfold columnDefinition? at hc
  split at hc
  · contradiction
  · next t rest =>
    dsimp only at hc
    split at hc
    · obtain rfl := Option.some.inj hc
      refine ⟨fun text htext => ?_, by simp⟩
      dsimp only at htext
      split at htext
      · contradiction
      · refine ⟨_, ?_, (Option.some.inj htext).symm⟩
        exact (List.takeWhile_prefix _).isInfix.trans (List.suffix_cons t rest).isInfix
    · contradiction

end ColumnRef

/-! ### The columns of a statement -/

theorem Region.exists_of_mem_outputColumns {rs : List Region} {c : ColumnRef}
    (h : c ∈ outputColumns rs) : ∃ r ∈ rs, c.IsWrittenFor r.tokens := by
  unfold outputColumns at h
  cases hfirst : first? .select rs with
  | none => simp [hfirst] at h
  | some r =>
      rw [hfirst, Option.map_some, Option.getD_some] at h
      obtain ⟨item, hitem, hc⟩ := ColumnRef.isWrittenFor_of_mem_columnsFrom h
      refine ⟨r, List.mem_of_find?_eq_some hfirst, hc.mono ?_⟩
      exact (isInfix_of_mem_splitTop hitem).trans
        ((skipSelectWords_suffix r.tail).trans (List.suffix_cons r.head r.tail)).isInfix

theorem ObjectHead.isWrittenFor_of_tempTable {kind : StatementKind} {body : List Token}
    {t : TempTable} (h : (ofBody kind body).tempTable = some t) :
    ∀ c ∈ t.columns, c.IsWrittenFor body := by
  obtain ⟨ts, table, opening, definitions, hts, hname, -, hcolumns⟩ := exists_of_tempTable h
  have hgroup : opening :: definitions <:+ ts := by
    have hskips := (skips_tableName ts).suffix
    rwa [hname] at hskips
  rw [hcolumns]
  intro c hc
  refine (ColumnRef.isWrittenFor_of_mem_columnDefinitions hc).mono ?_
  exact (Group.inner_isInfix opening definitions).trans (hgroup.trans hts).isInfix

namespace Statement

/-- The columns that the statement gives to its result and to the table that it creates. -/
def allColumns (s : Statement) : List ColumnRef :=
  s.columns ++ s.tempTable.elim [] TempTable.columns

/-- The texts of all columns are written for tokens in a row among those of `ts`. -/
def WritesColumns (s : Statement) (ts : List Token) : Prop :=
  ∀ c ∈ s.allColumns, c.IsWrittenFor ts

variable {s n : Statement} {ts us : List Token}

theorem writesColumns_build (nested : List Token → Statement) (ts : List Token) :
    (build nested ts).WritesColumns ts := by
  cases ts with
  | nil => exact fun c hc => absurd hc List.not_mem_nil
  | cons first rest =>
      have hcolumns : ∀ c ∈ (build nested (first :: rest)).columns,
          c.IsWrittenFor (first :: rest) := by
        intro c hc
        obtain ⟨r, hr, hwritten⟩ := Region.exists_of_mem_outputColumns hc
        exact hwritten.mono (@isInfix_of_mem_regions nested _ r hr)
      refine List.forall_mem_append.2 ⟨hcolumns, ?_⟩
      cases htable : (build nested (first :: rest)).tempTable with
      | none => exact fun c hc => absurd hc List.not_mem_nil
      | some t =>
          rcases Option.or_eq_some_iff.1 htable with hinto | ⟨-, hcreate⟩
          · obtain ⟨-, -, -, -, -, hinto⟩ := Region.exists_of_selectedInto hinto
            rw [Option.elim_some, hinto]
            exact hcolumns
          · have hbody := (skips_heading nested (first :: rest)).suffix.isInfix
            exact fun c hc => (ObjectHead.isWrittenFor_of_tempTable hcreate c hc).mono hbody

theorem Describes.writesColumns (h : Describes s ts) : s.WritesColumns ts := by
  induction h with
  | built levels ts => exact writesColumns_build _ ts
  | placed ts => exact fun c hc => absurd hc List.not_mem_nil
  | marked _ names ih =>
      rw [WritesColumns, allColumns, markedIn]
      exact ih

theorem writesColumns_parse (ts : List Token) : ∀ n ∈ (parse ts).all, n.WritesColumns ts := by
  intro n hn
  obtain ⟨us, hus, hdescribes⟩ := (describes_parse ts).exists_of_mem_all hn
  exact fun c hc => (hdescribes.writesColumns c hc).mono hus

theorem allColumns_inBatch (batch : Nat) (s : Statement) :
    (s.inBatch batch).allColumns = s.allColumns := by
  rw [allColumns, allColumns, inBatch]
  cases s.tempTable <;> rfl

end Statement

/-! ### Buffers -/

namespace Buffer

theorem maskedTokens_eq_tokenize (source : String) :
    maskedTokens .origin source = tokenize source := by
  obtain ⟨es, htext, hplaced⟩ := Elements.exists_placed source.toList
  rw [maskedTokens_eq hplaced htext, tokenize, tokenizeFrom, ← htext, Elements.tokens_text hplaced]

theorem isInfix_of_mem_tokensBetween {ts us : List Token} {ls : List Nat}
    (h : us ∈ tokensBetween ts ls) : us <:+: ts := by
  induction ls generalizing ts with
  | nil =>
      obtain rfl := List.mem_singleton.1 h
      exact List.infix_rfl
  | cons l ls ih =>
      rcases List.mem_cons.1 h with rfl | h
      · exact (List.takeWhile_prefix _).isInfix
      · exact (ih h).trans ((List.dropWhile_suffix _).trans (List.dropWhile_suffix _)).isInfix

/-- The tokens of a statement stand in a row in the text. -/
theorem isInfix_of_mem_statementTokens {source : String} {us : List Token}
    (h : us ∈ statementTokens source) : us <:+: tokenize source := by
  obtain ⟨ts, hts, hus⟩ := List.mem_flatMap.1 h
  obtain ⟨segment, hsegment, rfl⟩ := List.mem_map.1 hus
  obtain ⟨-, -, hpiece⟩ := piece_of_mem_splitStatements hsegment
  rw [hpiece, ← maskedTokens_eq_tokenize]
  exact ((List.take_prefix _ _).isInfix.trans (List.drop_suffix _ _).isInfix).trans
    (isInfix_of_mem_tokensBetween hts)

theorem writesColumns_of_isReadFrom {s : Statement} {ts : List Token} (h : IsReadFrom s ts) :
    ∀ n ∈ s.all, n.WritesColumns ts := by
  let agree (n m : Statement) := n.allColumns = m.allColumns ∧
    n.nested = m.nested.map (Statement.inBatch s.batch)
  have hs : agree s (Statement.parse ts) := by
    rw [h]
    exact ⟨Statement.allColumns_inBatch _ _, Statement.nested_inBatch _ _⟩
  refine Statement.forall_all_of_related (R := agree) ?_ ?_ hs (Statement.writesColumns_parse ts)
  · rintro n m ⟨-, hnested⟩ n' hn'
    rw [hnested] at hn'
    obtain ⟨m', hm', rfl⟩ := List.mem_map.1 hn'
    exact ⟨m', hm', Statement.allColumns_inBatch _ m', Statement.nested_inBatch _ m'⟩
  · rintro n m ⟨hcolumns, -⟩ hm
    rw [Statement.WritesColumns, hcolumns]
    exact hm

end Buffer

/-! ### Texts and tokens -/

/-- The texts of the column have the tokens that they are written for, which stand in a row among
those of `ts`, or the expression is the name of the column that it stands for, when it has been given
another one. -/
structure ColumnRef.KeepsTokens (c : ColumnRef) (ts : List Token) : Prop where
  dataType : ∀ text ∈ c.dataType, ∃ us, us <:+: ts ∧ text = tokensText us ∧
    (tokenize text).map Token.spelled = us.map Token.spelled
  expression : ∀ text ∈ c.expression,
    (∃ us, us <:+: ts ∧ text = tokensText us ∧
      (tokenize text).map Token.spelled = us.map Token.spelled) ∨
    ∃ us, us <:+: ts ∧ columnPath? us = some (text, c.source) ∧ text ≠ c.name

theorem ColumnRef.IsWrittenFor.keepsTokens {c : ColumnRef} {source : String} {ts : List Token}
    (h : c.IsWrittenFor ts) (hin : ts <:+: tokenize source) : c.KeepsTokens ts where
  dataType text htext := by
    obtain ⟨us, hus, rfl⟩ := h.dataType text htext
    exact ⟨us, hus, rfl, map_spelled_tokensText (hus.trans hin)⟩
  expression text htext := by
    rcases h.expression text htext with ⟨us, hus, rfl⟩ | hname
    · exact .inl ⟨us, hus, rfl, map_spelled_tokensText (hus.trans hin)⟩
    · exact .inr hname

/-- The text that is written for tokens of a source that stand in a row has the same tokens. So has
each text that is kept of a column, in every statement that is read off such tokens and at every
level of it, unless the column is a name that has been given another one; then its expression is the
name. -/
theorem tokenize_tokensText (source : String) (database : Option String) :
    (∀ ts, ts <:+: tokenize source →
      (tokenize (tokensText ts)).map Token.spelled = ts.map Token.spelled ∧
        ∀ n ∈ (Statement.parse ts).all, ∀ c ∈ n.allColumns, c.KeepsTokens ts) ∧
    ∀ s ∈ (Buffer.parse source database).statements, ∃ ts, ts <:+: tokenize source ∧
      ∀ n ∈ s.all, ∀ c ∈ n.allColumns, c.KeepsTokens ts := by
  refine ⟨fun ts hts => ⟨map_spelled_tokensText hts, fun n hn c hc => ?_⟩, fun s hs => ?_⟩
  · exact (Statement.writesColumns_parse ts n hn c hc).keepsTokens hts
  · obtain ⟨i, hi⟩ := List.getElem?_of_mem hs
    obtain ⟨ts, -, hreads⟩ := Buffer.exists_reads hi
    have hin := Buffer.isInfix_of_mem_statementTokens hreads.mem
    refine ⟨ts, hin, fun n hn c hc => ?_⟩
    exact (Buffer.writesColumns_of_isReadFrom hreads.isReadFrom n hn c hc).keepsTokens hin

theorem tokenize_tokensText_cast :
    let ts := tokenize "CAST( u . [id]   AS  varchar(10) )"
    tokensText ts = "CAST(u.[id] AS varchar(10))" ∧
      (tokenize "CAST(u.[id] AS varchar(10))").map Token.spelled = ts.map Token.spelled := by
  intro ts
  have htext : tokensText ts = "CAST(u.[id] AS varchar(10))" := by decide +kernel
  refine ⟨htext, ?_⟩
  rw [← htext]
  exact ((tokenize_tokensText _ none).1 ts List.infix_rfl).1

/-- A name in brackets is kept as the expression of a column without them. -/
theorem tokenize_expression_of_name :
    let ts := tokenize "SELECT [a b] AS c FROM t"
    (Statement.parse ts).columns.map (fun c => (c.name, c.expression)) = [("c", some "a b")] ∧
      ((ts.drop 1).take 1).map Token.spelled = [(.bracketed, "a b")] ∧
      (tokenize "a b").map Token.spelled = [(.identifier, "a"), (.identifier, "b")] := by
  decide +kernel

end Tsql
