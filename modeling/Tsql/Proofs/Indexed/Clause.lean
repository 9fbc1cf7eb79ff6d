import Mathlib.Data.List.Forall2
import Tsql.Proofs.Indexed.Marker
import Tsql.Proofs.Statement.Definitions

/-!
What the clauses of a statement hold, by index.

The clause at each marker covers the tokens of a region (`Marks.covers`), so the readers find in it
what the readers of token lists find in the region. The clauses stand next to each other up to the end
of the tokens (`Marks.abut`), so the rank of a group in its region gives its index. The pass over the
subqueries of expressions goes through the regions one after the other (`expressionQueries?_eq`).
-/

namespace Tsql

open TokenSlice List

/-! ### Clauses of tokens -/

namespace Marker

variable {front later ms : List Marker} {m : Marker} {length i : Nat}

theorem takeWhile_eq_nil (h : i < firstIndex length ms) :
    ms.takeWhile (fun m => m.index ≤ i) = [] := by
  cases ms with
  | nil => rfl
  | cons m later =>
      have hlt : i < m.index := h
      exact takeWhile_cons_of_neg (by simpa using hlt)

/-- A token belongs to the clause at the last marker that is not behind it. -/
theorem clauseOf_eq (hfront : ∀ f ∈ front, f.index ≤ i) (hm : m.index ≤ i)
    (hlater : i < firstIndex length later) : clauseOf (front ++ m :: later) i = some m.clause := by
  rw [clauseOf, takeWhile_append_of_pos (by simpa using hfront),
    takeWhile_cons_of_pos (by simpa using hm), takeWhile_eq_nil hlater]
  simp

theorem clauseOf_eq_none (h : i < firstIndex length ms) : clauseOf ms i = none := by
  rw [clauseOf, takeWhile_eq_nil h]
  rfl

/-- A clause and those in front of it begin in front of what is behind the clause. -/
theorem index_le_of_mem_append (hfront : ∀ f ∈ front, f.index ≤ m.index) (hlt : m.index < i) :
    ∀ f ∈ front ++ [m], f.index ≤ i := by
  intro f hf
  rcases mem_append.1 hf with hf | hf
  · exact Nat.le_trans (hfront f hf) (Nat.le_of_lt hlt)
  · rw [mem_singleton.1 hf]
    exact Nat.le_of_lt hlt

end Marker

variable {ts : List Token} {clauseOf : Nat → Option Clause}

/-! ### Clauses and regions -/

/-- A clause by its indices is a region. A column list may end in front of its region; of it only
the group is known. -/
structure Extent.Covers (ts : List Token) (clauseOf : Nat → Option Clause) (x : Extent)
    (r : Region) : Prop where
  clause : r.clause = x.clause
  head : ts[x.first]? = some r.head
  body : x.clause ≠ .insertColumns → x.first < x.stop ∧ Cut ts 0 x.stop ∧
    r.tail = between ts (x.first + 1) x.stop ∧
    ∀ i, x.first ≤ i → i < x.stop → clauseOf i = some x.clause
  group : x.clause = .insertColumns → r.head.isOpen ∧
    (Group.after r.tail).inner = between ts (x.first + 1) ((ofTokens ts).stopOf x.first)

theorem Marks.covers {ms : List Marker} {rs : List Region} (h : Marks ts ms rs)
    (front : List Marker) (hfront : ∀ f ∈ front, f.index ≤ Marker.firstIndex ts.length ms) :
    Forall₂ (Extent.Covers ts (Marker.clauseOf (front ++ ms)))
      (Marker.extents ts.length ms) rs := by
  induction h generalizing front with
  | nil => exact .nil
  | @cons m r later rs clause head lt tail cut stop opens _ ih =>
      refine .cons ⟨clause, head, fun hlist => ?_, fun hlist => ?_⟩ ?_
      · dsimp only
        rw [stop, if_neg hlist]
        exact ⟨lt, cut, tail, fun i hm hi =>
          Marker.clauseOf_eq (fun f hf => Nat.le_trans (hfront f hf) hm) hm hi⟩
      · have hany : ts[m.index]?.any Token.isOpen := opens_at head (opens hlist)
        rw [tail, cut.after (Nat.zero_le _) lt hany]
        exact ⟨opens hlist, rfl⟩
      · rw [append_cons]
        exact ih _ (Marker.index_le_of_mem_append hfront lt)

/-- From the first marker on the regions hold all tokens. -/
theorem Marks.length_tokens {ms : List Marker} {rs : List Region} (h : Marks ts ms rs) :
    Marker.firstIndex ts.length ms + (rs.flatMap Region.tokens).length = ts.length := by
  induction h with
  | nil => rfl
  | @cons m r later rs clause head lt tail cut stop opens _ ih =>
      have hfirst : Marker.firstIndex ts.length (m :: later) = m.index := rfl
      rw [flatMap_cons, length_append, Region.tokens, tail, length_cons_between lt cut.stop_le, hfirst]
      omega

/-- The clauses stand next to each other up to the end of the tokens. -/
inductive Extent.Abut (length : Nat) : List Extent → List Region → Prop
  | nil : Abut length [] []
  | cons {x : Extent} {r : Region} {xs : List Extent} {rs : List Region}
      (first : x.first + ((r :: rs).flatMap Region.tokens).length = length)
      (stop : x.clause ≠ .insertColumns → x.stop + (rs.flatMap Region.tokens).length = length)
      (later : Abut length xs rs) : Abut length (x :: xs) (r :: rs)

theorem Marks.abut {ms : List Marker} {rs : List Region} (h : Marks ts ms rs) :
    Extent.Abut ts.length (Marker.extents ts.length ms) rs := by
  induction h with
  | nil => exact .nil
  | cons clause head lt tail cut stop opens later ih =>
      refine .cons (Marks.cons clause head lt tail cut stop opens later).length_tokens
        (fun hlist => ?_) ih
      rw [stop, if_neg hlist]
      exact later.length_tokens

theorem clauseRanges_cons (stop : Position) (r : Region) (rs : List Region) :
    clauseRanges stop (r :: rs) =
      ⟨r.clause, r.head.start, r.stop?.getD ((rs.head?.map fun next => next.head.start).getD stop)⟩ ::
        clauseRanges stop rs := by
  cases rs <;> rfl

/-- Where each clause stands is where its region does. -/
theorem clauseRanges?_eq {ms : List Marker} {rs : List Region} (h : Marks ts ms rs)
    (stop : Position) :
    (ofTokens ts).clauseRanges? stop ms = some (clauseRanges stop rs) := by
  induction h with
  | nil => rfl
  | @cons m r later rs clause head lt tail cut hstop opens hlater ih =>
      rw [TokenSlice.clauseRanges?, tokens_ofTokens, head, ih, hstop, clauseRanges_cons, clause]
      by_cases hlist : m.clause = .insertColumns
      · have hopen := opens hlist
        have hany : ts[m.index]?.any Token.isOpen := opens_at head hopen
        obtain ⟨-, hskip, -⟩ := cut.group (Nat.zero_le _) lt head hopen
        have hlen := (skipGroup_bounds hany).2.2
        obtain ⟨last, hlast⟩ : ∃ last, ts[(ofTokens ts).skipGroup m.index - 1]? = some last :=
          exists_getElem? (by omega)
        have hrange : r.stop? = some last.stop := by
          rw [Region.stop?, if_pos (clause.trans hlist), tail,
            cut.cons_tokens_after (Nat.zero_le _) lt head hopen,
            Range.ofTokens_between head hlast hskip]
        rw [if_pos hlist, hrange]
        dsimp only
        rw [before?_eq (by omega), hlast]
        rfl
      · have hrange : r.stop? = none := if_neg (clause ▸ hlist)
        rw [if_neg hlist, hrange]
        cases hlater with
        | nil => rfl
        | cons _ hnext =>
            dsimp only
            rw [hnext]
            rfl

section

variable {xs : List Extent} {rs : List Region}

theorem Extent.Covers.find? (h : Forall₂ (Covers ts clauseOf) xs rs) (c : Clause) :
    xs.find? (fun x => x.clause = c) = none ∧ Region.first? c rs = none ∨
      ∃ x r, xs.find? (fun x => x.clause = c) = some x ∧ Region.first? c rs = some r ∧
        Covers ts clauseOf x r ∧ x.clause = c := by
  induction h with
  | nil => exact .inl ⟨rfl, rfl⟩
  | @cons x r xs rs hx _ ih =>
      by_cases hc : x.clause = c
      · exact .inr ⟨x, r, find?_cons_of_pos (by simpa using hc),
          find?_cons_of_pos (by simpa [hx.clause] using hc), hx, hc⟩
      · rw [Region.first?, find?_cons_of_neg (by simpa using hc),
          find?_cons_of_neg (by simpa [hx.clause] using hc)]
        exact ih

/-- What is read of each clause of one kind is read of each region of it. -/
theorem Extent.Covers.mapM_filter {α β : Type} (h : Forall₂ (Covers ts clauseOf) xs rs) (c : Clause)
    {f : Extent → Option α} {p : α → β} {g : Region → β}
    (hfg : ∀ x r, Covers ts clauseOf x r → x.clause = c → ∃ a, f x = some a ∧ p a = g r) :
    ∃ as, (xs.filter fun x => x.clause = c).mapM f = some as ∧
      as.map p = (rs.filter fun r => r.clause = c).map g := by
  induction h with
  | nil => exact ⟨[], rfl, rfl⟩
  | @cons x r xs rs hx _ ih =>
      by_cases hc : x.clause = c
      · obtain ⟨a, ha, hga⟩ := hfg x r hx hc
        obtain ⟨as, has, hgas⟩ := ih
        rw [filter_cons_of_pos (by simpa using hc),
          filter_cons_of_pos (by simpa [hx.clause] using hc), mapM_cons, ha, has]
        exact ⟨a :: as, rfl, by rw [map_cons, map_cons, hga, hgas]⟩
      · rwa [filter_cons_of_neg (by simpa using hc),
          filter_cons_of_neg (by simpa [hx.clause] using hc)]

/-! ### Contents of clauses -/

section

variable {nested? : List Token → Option Statement} {nested : List Token → Statement}

theorem sources?_eq (hnested : ∀ us, nested? us = some (nested us))
    (h : Forall₂ (Extent.Covers ts clauseOf) xs rs) (habut : Extent.Abut ts.length xs rs)
    (seen : Bool) :
    (ofTokens ts).sources? nested? clauseOf seen xs =
      some ((Sources.ofRegions nested seen rs).byIndex ts.length) := by
  induction h generalizing seen with
  | nil => rfl
  | @cons x r xs rs hx _ ih =>
      cases habut with | cons _ hstop hlater =>
      rw [TokenSlice.sources?, ih hlater, Sources.ofRegions, hx.clause, Sources.byIndex_append]
      by_cases hlist : x.clause = .insertColumns
      · rw [hlist]
        rfl
      obtain ⟨hlt, hcut, htail, howns⟩ := hx.body hlist
      have hcut' := hcut.mono (Nat.zero_le x.first)
      have hmore : (rs.flatMap Region.tokens).length = ts.length - x.stop := by
        have := hstop hlist
        omega
      rw [hmore, Sources.byIndex_inFrontOf hcut.stop_le]
      cases hclause : x.clause with
      | target =>
          rw [hclause] at howns
          dsimp only
          rw [targetTable?_eq hcut' hnested howns (Nat.le_succ _) hlt, ← htail]
          rfl
      | select =>
          obtain ⟨items, hitems, -, hissues⟩ := selectItems?_eq hcut (Nat.zero_le (x.first + 1)) hlt
          dsimp only
          split
          · rfl
          · rw [hitems, Option.map_some, hissues, ← htail]
            rfl
      | sources =>
          rw [hclause] at howns
          dsimp only
          rw [is_eq hx.head, tableList?_eq hcut' hnested howns (by split <;> omega), Region.startsFrom]
          split
          · rw [← htail]
            rfl
          · rw [between_cons hx.head hlt, ← htail]
            rfl
      | mergeSource =>
          rw [hclause] at howns
          dsimp only
          rw [tableList?_eq hcut' hnested howns (Nat.le_succ _), ← htail]
          rfl
      | insertColumns => contradiction
      | _ => rfl

theorem target?_eq (hnested : ∀ us, nested? us = some (nested us))
    (h : Forall₂ (Extent.Covers ts clauseOf) xs rs) :
    (ofTokens ts).target? nested? clauseOf xs = some (Region.target? nested rs) := by
  rw [TokenSlice.target?, Region.target?]
  rcases Extent.Covers.find? h .target with ⟨hx, hr⟩ | ⟨x, r, hx, hr, hcovers, hclause⟩
  · rw [hx, hr]
    rfl
  · obtain ⟨hlt, hcut, htail, howns⟩ := hcovers.body (by simp [hclause])
    rw [hclause] at howns
    rw [hx, hr]
    dsimp only
    rw [targetTable?_eq (hcut.mono (Nat.zero_le x.first)) hnested howns (Nat.le_succ _) hlt, ← htail]
    rfl

end

theorem outputColumns?_eq (h : Forall₂ (Extent.Covers ts clauseOf) xs rs) :
    (ofTokens ts).outputColumns? xs = some (Region.outputColumns rs) := by
  rw [TokenSlice.outputColumns?, Region.outputColumns]
  rcases Extent.Covers.find? h .select with ⟨hx, hr⟩ | ⟨x, r, hx, hr, hcovers, hclause⟩
  · rw [hx, hr]
    rfl
  · obtain ⟨hlt, hcut, htail, -⟩ := hcovers.body (by simp [hclause])
    obtain ⟨items, hitems, hcolumns, -⟩ := selectItems?_eq hcut (Nat.zero_le (x.first + 1)) hlt
    rw [hx, hr]
    dsimp only
    rw [hitems, Option.bind_some, Indexed.columnsFrom?_eq, hcolumns, ← htail]
    rfl

theorem insertColumns?_eq (h : Forall₂ (Extent.Covers ts clauseOf) xs rs) :
    (ofTokens ts).insertColumns? xs = some (Region.insertColumns rs) := by
  obtain ⟨groups, hgroups, hnames⟩ := Extent.Covers.mapM_filter h .insertColumns
    (f := fun x => (ofTokens ts).groupInner? x.first) (p := namesIn)
    (g := fun r => namesIn (Group.after r.tail).inner) fun x r hx hclause => by
      obtain ⟨hopen, hinner⟩ := hx.group hclause
      have hany : ts[x.first]?.any Token.isOpen := opens_at hx.head hopen
      exact ⟨_, groupInner?_eq hany, congrArg namesIn hinner.symm⟩
  rw [TokenSlice.insertColumns?, Region.insertColumns, hgroups, ← getLast?_map, ← hnames,
    getLast?_map]
  rfl

theorem selectedInto?_eq (h : Forall₂ (Extent.Covers ts clauseOf) xs rs)
    (columns : List ColumnRef) :
    (ofTokens ts).selectedInto? columns xs = some (Region.selectedInto columns rs) := by
  obtain ⟨names, hnames, htables⟩ := Extent.Covers.mapM_filter h .into
    (f := fun x => (ofTokens ts).tableName? (x.first + 1) x.stop) (p := Prod.fst)
    (g := fun r => (tableName r.tail).1) fun x r hx hclause => by
      obtain ⟨hlt, hcut, htail, -⟩ := hx.body (by simp [hclause])
      obtain ⟨name, hname, hagrees, -⟩ := tableName?_agrees hcut.stop_le hlt
      exact ⟨name, hname, by rw [htail, hagrees.eq]⟩
  let created (name : Option TableRef) : Option TempTable := do
    let table ← name
    let kind ← TempKind.ofName? table.name
    some ⟨table.name, kind, columns, 0, table.range.start.line⟩
  have hcreated : (rs.filterMap fun r => if r.clause = .into then created (tableName r.tail).1 else none) =
      names.filterMap fun n => created n.1 := by
    have hmap := congrArg (filterMap created) htables
    rw [filterMap_map, filterMap_map, filterMap_filter] at hmap
    simpa [Function.comp_def] using hmap.symm
  rw [TokenSlice.selectedInto?, Region.selectedInto, hnames]
  exact congrArg (fun tables => some tables.getLast?) hcreated.symm

/-- The column lists of an `INSERT` are those of the regions. -/
theorem map_first_insertColumns (h : Forall₂ (Extent.Covers ts clauseOf) xs rs)
    (habut : Extent.Abut ts.length xs rs) :
    (xs.filter fun x => x.clause = .insertColumns).map Extent.first =
      (Region.columnLists rs).map (ts.length - ·) := by
  induction h with
  | nil => rfl
  | @cons x r xs rs hx _ ih =>
      cases habut with | cons hfirst _ hlater =>
      rw [Region.columnLists]
      by_cases hc : x.clause = .insertColumns
      · rw [filter_cons_of_pos (by simpa using hc), if_pos (hx.clause.trans hc), map_cons, map_cons,
          ih hlater, ← hfirst, Nat.add_sub_cancel]
      · rw [filter_cons_of_neg (by simpa using hc), if_neg (hx.clause ▸ hc), ih hlater]

end

/-! ### Statements about objects -/

theorem dropWhile_not_eq {α : Type} (p : α → Bool) (xs : List α) :
    xs.dropWhile (fun x => !p x) = ((xs.findIdx? p).map fun k => xs.drop k).getD [] := by
  induction xs with
  | nil => rfl
  | cons x xs ih =>
      by_cases hx : p x
      · simp [hx, findIdx?_cons]
      · simp only [hx, dropWhile_cons, findIdx?_cons]
        simp [ih, Function.comp_def]

theorem is_of_none {i : Nat} (h : ts[i]? = none) (p : Token → Bool) :
    (ofTokens ts).is i p = false := by
  rw [is, tokens_ofTokens, h]
  rfl

/-- What a statement about an object names, with the group of definitions by its index. -/
def ObjectHead.byIndex (stop : Nat) (head : ObjectHead) : ObjectHead :=
  { head with definitions := head.definitions.map (stop - ·) }

theorem ObjectHead.byIndex_ofNamed (stop : Nat) (us : List Token) :
    (ofNamed us).byIndex stop = ofNamed us := by
  rw [byIndex, definitions_ofNamed, Option.map_none, ← definitions_ofNamed us]

theorem createdTable?_eq {body : Nat} (hbody : body ≤ ts.length) :
    (ofTokens ts).createdTable? body =
      some ((ObjectHead.ofCreate (between ts body ts.length)).byIndex ts.length) := by
  rw [createdTable?, tokens_ofTokens, between?_eq hbody (Nat.le_refl _), ObjectHead.ofCreate,
    dropWhile_not_eq]
  cases htable : (between ts body ts.length).findIdx? fun t => t.isKeyword .TABLE with
  | none => simp [htable, ObjectHead.byIndex]
  | some k =>
      obtain ⟨hk, -, -⟩ := findIdx?_eq_some_iff_getElem.1 htable
      rw [length_between, Nat.min_self] at hk
      obtain ⟨t, -, -, hcons⟩ | ⟨hnone, -⟩ := getElem?_cases ts (body + k)
      swap
      · exact absurd (getElem?_eq_none_iff.1 hnone) (by omega)
      obtain ⟨⟨table, next⟩, hr, hagrees, hstart⟩ :=
        tableName?_agrees (Nat.le_refl ts.length) (show body + k + 1 ≤ ts.length by omega)
      simp only [htable, Option.map_some, Option.getD_some, drop_between, hcons, hr, hagrees.eq,
        Option.bind_eq_bind, Option.bind_some]
      cases table with
      | none => rfl
      | some table =>
          obtain ⟨-, name, hname, hline⟩ := hstart table rfl
          obtain ⟨opening, hopening, hlt, hcons⟩ | ⟨hnone, hnil⟩ := getElem?_cases ts next
          · rw [is_eq hopening, hcons]
            dsimp only
            split
            · next hopen =>
              have hany : ts[next]?.any Token.isOpen := opens_at hopening hopen
              rw [hname, groupInner?_eq hany, (Cut.length ts 0).after (Nat.zero_le next) hlt hany,
                hline, length_cons_between hlt (Nat.le_refl _)]
              cases htemp : TempKind.ofName? table.name with
              | none => simp [ObjectHead.byIndex, Nat.sub_sub_self (Nat.le_of_lt hlt)]
              | some kind =>
                  simp [ObjectHead.byIndex, Nat.sub_sub_self (Nat.le_of_lt hlt),
                    Indexed.columnDefinitions?_eq]
            · rfl
          · simp [is_of_none hnone, hnil, ObjectHead.byIndex]

theorem map_tableName? {i : Nat} (hi : i ≤ ts.length) :
    (((ofTokens ts).tableName? i ts.length).map fun name => { table := name.1 }) =
      some ({ table := (tableName (between ts i ts.length)).1 } : ObjectHead) := by
  obtain ⟨r, hr, hagrees, -⟩ := tableName?_agrees (Nat.le_refl ts.length) hi
  rw [hr, hagrees.eq]
  rfl

theorem namedObject?_eq (body : Nat) :
    (ofTokens ts).namedObject? body =
      some (ObjectHead.ofNamed (between ts body ts.length)) := by
  rw [namedObject?, tokens_ofTokens]
  obtain ⟨verb, -, -, hverb⟩ | ⟨hnone, hnil⟩ := getElem?_cases ts body
  swap
  · rw [is_of_none (getElem?_eq_none (Nat.le_succ_of_le (getElem?_eq_none_iff.1 hnone))), hnil]
    rfl
  obtain ⟨t, ht, hlt, hcons⟩ | ⟨hnone, hnil⟩ := getElem?_cases ts (body + 1)
  swap
  · rw [is_of_none hnone, hverb, hnil]
    rfl
  rw [is_eq ht, hverb, hcons]
  unfold ObjectHead.ofNamed
  dsimp only
  split
  · obtain ⟨a, ha, -, hacons⟩ | ⟨hnone, hnil⟩ := getElem?_cases ts (body + 2)
    swap
    · rw [is_of_none hnone, Bool.false_and, if_neg Bool.false_ne_true, map_tableName? hlt, hnil]
    rw [is_eq ha, hacons]
    obtain ⟨b, hb, hblt, hbcons⟩ | ⟨hnone, hnil⟩ := getElem?_cases ts (body + 3)
    swap
    · rw [is_of_none hnone, Bool.and_false, if_neg Bool.false_ne_true, map_tableName? hlt, hacons,
        hnil]
    rw [is_eq hb, hbcons]
    dsimp only
    split
    · exact map_tableName? hblt
    · rw [map_tableName? hlt, hacons, hbcons]
  · rfl

theorem objectHead?_eq {body : Nat} (hbody : body ≤ ts.length) (kind : StatementKind) :
    (ofTokens ts).objectHead? kind body =
      some ((ObjectHead.ofBody kind (between ts body ts.length)).byIndex ts.length) := by
  have hnamed := @namedObject?_eq ts body
  rw [← ObjectHead.byIndex_ofNamed ts.length] at hnamed
  cases kind with
  | createTable => exact createdTable?_eq hbody
  | truncate => exact hnamed
  | drop => exact hnamed
  | alter => exact hnamed
  | _ => rfl

theorem usedDatabase?_eq (kind : StatementKind) (body : Nat) :
    (ofTokens ts).usedDatabase? kind body =
      Tsql.usedDatabase? kind (between ts body ts.length) := by
  have hget : (between ts body ts.length)[1]? = ts[body + 1]? := by
    rw [between_length, getElem?_drop]
  rw [TokenSlice.usedDatabase?, Tsql.usedDatabase?, hget]
  rfl

/-! ### Subqueries -/

section

variable {nested? : List Token → Option Statement} {nested : List Token → Statement}

/-- Groups are stepped over or gone into, so the pass comes to the end whatever is claimed. -/
theorem exists_expressionQueries? (hnested : ∀ us, nested? us = some (nested us))
    (claimed : Nat → Bool) (i : Nat) :
    ∃ found, (ofTokens ts).expressionQueries? nested? claimed clauseOf i = some found := by
  rw [TokenSlice.expressionQueries?, tokens_ofTokens]
  split
  · next hlt =>
    obtain ⟨t, ht⟩ := exists_getElem? hlt
    obtain ⟨next, hnext⟩ := exists_expressionQueries? hnested claimed (i + 1)
    rw [is_eq ht, hnext]
    split
    · next hopen =>
      have hany : ts[i]?.any Token.isOpen := opens_at ht hopen
      have hskip : i < (ofTokens ts).skipGroup i := by
        have := skipGroup_bounds hany
        omega
      obtain ⟨behind, hbehind⟩ := exists_expressionQueries? hnested claimed ((ofTokens ts).skipGroup i)
      rw [groupInner?_eq hany, groupRange?_eq hany, dif_pos hskip, hbehind, Option.bind_some,
        Indexed.startsQuery?_eq, Option.bind_some, dif_pos hskip, hnested]
      split
      · exact ⟨_, rfl⟩
      · split <;> exact ⟨_, rfl⟩
    · exact ⟨_, rfl⟩
  · exact ⟨_, rfl⟩
termination_by ts.length - i

/-- The queries in a part of one clause are found in front of those behind the part. -/
theorem expressionQueries?_append {lo stop : Nat} (h : Cut ts lo stop)
    (hnested : ∀ us, nested? us = some (nested us)) {clause : Option Clause}
    (hclause : ∀ i, lo ≤ i → i < stop → clauseOf i = clause) {claimed : Nat → Bool}
    {claims : List Token → Bool}
    (hclaimed : ∀ i, lo ≤ i → i < stop → claimed i = claims (between ts i stop))
    {i : Nat} (hlo : lo ≤ i) (hi : i ≤ stop) :
    (ofTokens ts).expressionQueries? nested? claimed clauseOf i =
      ((ofTokens ts).expressionQueries? nested? claimed clauseOf stop).map
        (Tsql.expressionQueries nested claims clause (between ts i stop) ++ ·) := by
  rcases Nat.eq_or_lt_of_le hi with rfl | hlt
  · rw [between_of_le (Nat.le_refl i), Tsql.expressionQueries]
    exact (Option.map_id' ..).symm
  have hlen := Nat.lt_of_lt_of_le hlt h.stop_le
  obtain ⟨t, ht⟩ := exists_getElem? hlen
  rw [TokenSlice.expressionQueries?, tokens_ofTokens, dif_pos hlen, is_eq ht, hclaimed i hlo hlt,
    between_cons ht hlt, Tsql.expressionQueries]
  have hnext := expressionQueries?_append h hnested hclause hclaimed
    (Nat.le_succ_of_le hlo) (show i + 1 ≤ stop from hlt)
  by_cases hopen : t.isOpen
  · obtain ⟨hany, hbefore, hskip⟩ := h.group hlo hlt ht hopen
    have hbehind := expressionQueries?_append h hnested hclause hclaimed
      (Nat.le_trans hlo (Nat.le_of_lt hbefore)) hskip
    have htokens := h.cons_tokens_after hlo hlt ht hopen
    rw [if_pos hopen, dif_pos hbefore, groupInner?_eq hany, groupRange?_eq hany, Option.bind_some,
      Indexed.startsQuery?_eq, Option.bind_some, dif_pos hbefore, hnested, hclause i hlo hlt,
      htokens, h.after hlo hlt hany, hopen, Bool.true_and, Bool.true_and]
    split
    · exact hbehind
    · split
      · rw [hbehind]
        cases (ofTokens ts).expressionQueries? nested? claimed clauseOf stop <;> rfl
      · exact hnext
  · simp only [hopen, Bool.false_and, Bool.false_eq_true, if_false]
    exact hnext
termination_by ts.length - i

/-- A group of a part is claimed by its index if and only if it is by its rank. -/
theorem isClaimed_between {stop more : Nat} {claimed : Nat → Bool} {ranks : List Nat}
    (hclaimed : ∀ i < ts.length, claimed i = ranks.contains (ts.length - i))
    (hmore : stop + more = ts.length) {i : Nat} (hi : i < stop) :
    claimed i = isClaimed ranks more (between ts i stop) := by
  have hrank : (between ts i stop).length + more = ts.length - i := by
    rw [length_between]
    omega
  rw [isClaimed, hrank]
  exact hclaimed i (by omega)

theorem expressionQueries?_marks {ms : List Marker} {rs : List Region} (h : Marks ts ms rs)
    (hnested : ∀ us, nested? us = some (nested us)) {claimed : Nat → Bool} {ranks : List Nat}
    (hclaimed : ∀ i < ts.length, claimed i = ranks.contains (ts.length - i))
    (front : List Marker) (hfront : ∀ f ∈ front, f.index ≤ Marker.firstIndex ts.length ms) :
    (ofTokens ts).expressionQueries? nested? claimed
        (Marker.clauseOf (front ++ ms)) (Marker.firstIndex ts.length ms) =
      some (Layout.expressionQueries nested ranks (rs.map fun r => (some r.clause, r.tokens))) := by
  induction h generalizing front with
  | nil =>
      rw [TokenSlice.expressionQueries?, dif_neg]
      · rfl
      · exact Nat.lt_irrefl _
  | @cons m r later rs clause head lt tail cut stop opens hlater ih =>
      have htokens : r.tokens = between ts m.index (Marker.firstIndex ts.length later) := by
        rw [between_cons head lt, ← tail]
        rfl
      have hmore := hlater.length_tokens
      have happend := expressionQueries?_append (cut.mono (Nat.zero_le m.index)) hnested
        (fun i hm hi => Marker.clauseOf_eq (fun f hf => Nat.le_trans (hfront f hf) hm) hm hi)
        (fun i _ hi => isClaimed_between hclaimed hmore hi) (Nat.le_refl m.index) (Nat.le_of_lt lt)
      have hrest := ih _ (Marker.index_le_of_mem_append hfront lt)
      rw [← append_cons] at hrest
      rw [hrest] at happend
      rw [map_cons, Layout.expressionQueries, flatMap_map, clause, htokens]
      exact happend

/-- The pass over the whole statement finds the queries in each of its pieces. -/
theorem expressionQueries?_eq {ms : List Marker} {l : Layout}
    (h : Divides ts 0 ms (l.lead, l.regions)) (hnested : ∀ us, nested? us = some (nested us))
    {claimed : Nat → Bool} {ranks : List Nat}
    (hclaimed : ∀ i < ts.length, claimed i = ranks.contains (ts.length - i)) :
    (ofTokens ts).expressionQueries? nested? claimed (Marker.clauseOf ms) 0 =
      some (Layout.expressionQueries nested ranks l.pieces) := by
  have hlead : l.lead = between ts 0 (Marker.firstIndex ts.length ms) := h.lead
  have hrest := expressionQueries?_marks h.marks hnested hclaimed [] (by simp)
  rw [nil_append] at hrest
  rw [expressionQueries?_append h.cut hnested (fun i _ hi => Marker.clauseOf_eq_none hi)
    (fun i _ hi => isClaimed_between hclaimed h.marks.length_tokens hi) (Nat.le_refl 0) h.le, hrest,
    Layout.pieces, Layout.expressionQueries, flatMap_map, hlead]
  rfl

end

end Tsql
