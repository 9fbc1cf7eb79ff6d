import Tsql.Proofs.Statement.Marks
import Tsql.Proofs.Statement.TableLists

/-!
The target of a statement that changes a table.

The table that the head names goes in front of the tables in the lists, or stands for one of them, which
is then moved to the front (`placed_placeTarget`). No table of the lists is lost or doubled by that, and
the others keep their order. A head that names no table leaves the tables as they are, so the first table
of the lists is taken for the target (`Statement.HasTarget`).
-/

namespace Tsql

variable {kind : StatementKind} {nested : List Token → Statement} {ts : List Token} {t u : TableRef}

/-! ### Placing the target -/

namespace TableRef

theorem unlinked_linkedIn (subqueries : List Subquery) (t : TableRef) :
    (t.linkedIn subqueries).unlinked = t.unlinked := by
  unfold linkedIn
  split <;> rfl

theorem unlinked_markedIn (t : TableRef) (visible : List String) :
    (t.markedIn visible).unlinked = t.unlinked := by
  unfold markedIn
  split <;> rfl

/-- The name in the head of a statement may be that of a table in its lists. -/
def MayBeListed (kind : StatementKind) (t : TableRef) : Prop :=
  (kind = .update ∨ kind = .delete) ∧ t.schema = none

/-- The table has no alias, and the name is its own. -/
def HasBareName (t : TableRef) (name : String) : Prop :=
  t.aliasName = none ∧ Ident.same t.name name

end TableRef

/-- How the table that a head names, if it names one, is placed among the tables of the lists, with the
target and the tables that this gives. -/
inductive Placed (kind : StatementKind) :
    Option TableRef → List TableRef → Option TableRef → List TableRef → Prop
  /-- The head names a table that is not one of the lists. -/
  | named {u : TableRef} {listed : List TableRef}
      (h : u.MayBeListed kind → ∀ t ∈ listed, ¬ t.matchesAlias u.name ∧ ¬ t.HasBareName u.name) :
      Placed kind (some u) listed (some u) (u :: listed)
  /-- The head names the first table with that alias. -/
  | byAlias {t u : TableRef} {front back : List TableRef} (hu : u.MayBeListed kind)
      (ht : t.matchesAlias u.name) (hfront : ∀ v ∈ front, ¬ v.matchesAlias u.name) :
      Placed kind (some u) (front ++ t :: back) (some t) (t :: (front ++ back))
  /-- No table has that alias, and the head names the first one without alias that has the name. -/
  | byName {t u : TableRef} {front back : List TableRef} (hu : u.MayBeListed kind)
      (halias : ∀ v ∈ front ++ t :: back, ¬ v.matchesAlias u.name) (ht : t.HasBareName u.name)
      (hfront : ∀ v ∈ front, ¬ v.HasBareName u.name) :
      Placed kind (some u) (front ++ t :: back) (some t) (t :: (front ++ back))
  /-- The head names no table. -/
  | unnamed {listed : List TableRef} : Placed kind none listed listed.head? listed

theorem exists_of_findIdx? {α : Type} {p : α → Bool} {as : List α} {i : Nat}
    (h : as.findIdx? p = some i) :
    ∃ front a back, as = front ++ a :: back ∧ front.length = i ∧ p a ∧ ∀ b ∈ front, ¬ p b := by
  obtain ⟨hlt, ha, hfront⟩ := List.findIdx?_eq_some_iff_getElem.1 h
  refine ⟨as.take i, as[i], as.drop (i + 1), ?_, by simp [Nat.le_of_lt hlt], ha, ?_⟩
  · rw [List.getElem_cons_drop, List.take_append_drop]
  · intro b hb
    obtain ⟨j, hj, rfl⟩ := List.mem_take_iff_getElem.1 hb
    exact hfront j (by omega)

/-- Moving one of the tables to the front. -/
theorem toFront_eq (front : List TableRef) (t : TableRef) (back : List TableRef) :
    (front ++ t :: back)[front.length]?.toList ++ (front ++ t :: back).eraseIdx front.length =
      t :: (front ++ back) := by
  rw [List.getElem?_append_right (Nat.le_refl _), Nat.sub_self, List.eraseIdx_append_of_length_le
    (Nat.le_refl _), Nat.sub_self]
  rfl

theorem placed_placeTarget (kind : StatementKind) (named : Option TableRef) (listed : List TableRef) :
    Placed kind named listed (placeTarget kind named listed).head? (placeTarget kind named listed) := by
  cases named with
  | none => exact .unnamed
  | some u =>
      unfold placeTarget
      dsimp only
      by_cases hu : u.MayBeListed kind
      · rw [if_pos ⟨hu.1, Option.isNone_iff_eq_none.2 hu.2⟩]
        cases halias : listed.findIdx? fun t => t.matchesAlias u.name with
        | some i =>
            obtain ⟨front, t, back, rfl, rfl, ht, hfront⟩ := exists_of_findIdx? halias
            rw [Option.some_or]
            dsimp only
            rw [toFront_eq]
            exact .byAlias hu ht hfront
        | none =>
            have hnone : ∀ v ∈ listed, ¬ v.matchesAlias u.name := by
              simpa using List.findIdx?_eq_none_iff.1 halias
            cases hname : listed.findIdx? fun t => t.aliasName.isNone && Ident.same t.name u.name with
            | some i =>
                obtain ⟨front, t, back, rfl, rfl, ht, hfront⟩ := exists_of_findIdx? hname
                rw [Option.none_or]
                dsimp only
                rw [toFront_eq]
                refine .byName hu hnone ?_ ?_
                · simpa [TableRef.HasBareName] using ht
                · simpa [TableRef.HasBareName] using hfront
            | none =>
                rw [Option.none_or]
                refine .named fun _ t ht => ⟨hnone t ht, ?_⟩
                have hother := List.findIdx?_eq_none_iff.1 hname t ht
                simpa [TableRef.HasBareName] using hother
      · rw [if_neg fun h => hu ⟨h.1, Option.isNone_iff_eq_none.1 h.2⟩]
        exact .named fun h => absurd h hu

/-! ### The head -/

namespace Layout

theorem exists_regions_opening (l : Layout) (clause : Clause) (behind : List Token → List Token) :
    ∃ front, (l.opening clause behind).regions = front ++ l.regions ∧ ∀ r ∈ front, r.clause = clause := by
  unfold opening
  split
  · exact ⟨[], rfl, fun r hr => absurd hr List.not_mem_nil⟩
  · next t us _ => exact ⟨[⟨clause, t, us⟩], rfl, fun r hr => by rw [List.mem_singleton.1 hr]⟩

/-- The verb of a statement that changes a table begins the region of its target. -/
theorem exists_regions_ofTokens (ctes : List Token) {body : List Token}
    (h : (StatementKind.ofTokens body).isDml) :
    ∃ front verb head back, (ofTokens (.ofTokens body) ctes body).regions =
      front ++ ⟨.target, verb, head⟩ :: back ∧ (∀ r ∈ front, r.clause = .ctes) ∧
        ∀ r ∈ back, r.clause ≠ .target := by
  obtain ⟨verb, rest, word, rfl, hkind, hword⟩ := StatementKind.exists_word_of_isDml h
  obtain ⟨s, hlayout⟩ := ofTokens_eq (.ofTokens (verb :: rest)) ctes (verb :: rest)
  generalize StatementKind.ofTokens (verb :: rest) = kind at h hlayout ⊢
  have hmain : ∃ head back, (ofBody kind s (verb :: rest)).regions = ⟨.target, verb, head⟩ :: back ∧
      ∀ r ∈ back, r.clause ≠ .target := by
    have hnone : s.clause? kind verb word rest = none := Region.State.clause?_of_verb hkind hword
    unfold ofBody
    rw [if_pos h, Region.cut_keyword hkind hnone]
    exact ⟨_, _, rfl, fun r hr => Region.clause_ne_target_of_mem_cut hr⟩
  obtain ⟨head, back, hmain, hback⟩ := hmain
  rw [hlayout]
  split
  · exact ⟨[], verb, head, back, hmain, fun r hr => absurd hr List.not_mem_nil, hback⟩
  · obtain ⟨front, hopening, hfront⟩ :=
      exists_regions_opening (ofBody kind s (verb :: rest)) .ctes (ctes ++ ·)
    exact ⟨front, verb, head, back, hopening.trans (congrArg _ hmain), hfront, hback⟩

end Layout

namespace Statement

/-- The head of a statement that changes a table: the tokens from behind its verb to the next clause. -/
def targetHead (ts : List Token) : List Token :=
  ((Region.first? .target (layout (fun _ => {}) ts).regions).map Region.tail).getD []

/-- The table that the head names. -/
def headTable (ts : List Token) : Option TableRef :=
  (targetTable (fun _ => {}) (targetHead ts)).1

theorem target?_layout (nested : List Token → Statement) (ts : List Token) :
    Region.target? nested (layout nested ts).regions = headTable ts := by
  have hsame : ∀ us, (targetTable nested us).1 = (targetTable (fun _ => {}) us).1 := by
    intro us
    unfold targetTable
    split
    · rfl
    · split
      · dsimp only
        split <;> rfl
      · rfl
  rw [headTable, targetHead, Region.target?, layout_eq (fun _ => {}) nested]
  cases Region.first? .target (layout nested ts).regions with
  | none => simp [targetTable, skipTargetWords]
  | some r => exact hsame r.tail

/-- The head stands in front of all clauses but the common table expressions. -/
theorem exists_regions_eq (hdml : (StatementKind.ofTokens (heading nested ts).rest).isDml) :
    ∃ front verb back, (layout nested ts).regions = front ++ ⟨.target, verb, targetHead ts⟩ :: back ∧
      (∀ r ∈ front, r.clause = .ctes) ∧ ∀ r ∈ back, r.clause ≠ .target := by
  obtain ⟨front, verb, head, back, hregions, hfront, hback⟩ := Layout.exists_regions_ofTokens
    (ts.take (ts.length - (heading nested ts).rest.length)) hdml
  have hlayout : (layout nested ts).regions = _ := hregions
  have hhead : targetHead ts = head := by
    have hnone : front.find? (fun r => r.clause = .target) = none :=
      List.find?_eq_none.2 fun r hr => by simp [hfront r hr]
    rw [targetHead, layout_eq (fun _ => {}) nested, hlayout, Region.first?, List.find?_append, hnone,
      Option.none_or, List.find?_cons_of_pos (by simp)]
    rfl
  exact ⟨front, verb, back, by rw [hlayout, hhead], hfront, hback⟩

/-! ### The tables of a statement -/

theorem readIn_targetTable (h : (targetTable nested ts).1 = some t) : t.ReadIn ts := by
  have hskips := (skips_skipTargetWords ts).suffix
  unfold targetTable at h
  split at h
  · contradiction
  · next first rest heq =>
    rw [heq] at hskips
    split at h
    · dsimp only at h
      split at h
      · have htaken : t.TakenFrom (first :: rest) (derivedTable nested .target first rest).2.2 :=
          takenFrom_derivedTable h
        exact htaken.readIn.mono hskips.isInfix
      · contradiction
    · exact (takenFrom_namedTable h).readIn.mono hskips.isInfix

/-- A head that names a table is no list of tables. -/
theorem targetLists_eq_nil (h : (targetTable nested ts).1 = some t) : targetLists ts = [] := by
  unfold targetTable at h
  unfold targetLists
  cases heq : skipTargetWords ts with
  | nil => rfl
  | cons first rest =>
      rw [heq] at h
      dsimp only at h ⊢
      by_cases hopen : first.isOpen
      · by_cases hquery : startsQuery (Group.after rest).inner
        · rw [if_neg (by simp [hquery])]
        · simp [hopen, hquery] at h
      · rw [if_neg (by simp [hopen])]

/-- The head is read in front of the lists. -/
theorem pairwise_headTable (hts : IsOrdered ts)
    (hdml : (StatementKind.ofTokens (heading (fun _ => {}) ts).rest).isDml) :
    ((headTable ts).toList ++ listedTables ts).Pairwise fun t u => t.range.stop ≤ u.range.start := by
  cases hhead : headTable ts with
  | none => exact pairwise_listedTables hts
  | some u =>
      obtain ⟨front, verb, back, hregions, hfront, -⟩ := exists_regions_eq hdml
      refine List.pairwise_cons.2 ⟨fun t ht => ?_, pairwise_listedTables hts⟩
      obtain ⟨list, hlist, hread⟩ := readIn_listedTables ht
      have hback : list ∈ back.flatMap Region.tableLists := by
        rw [tableLists, hregions, List.flatMap_append, List.flatMap_cons] at hlist
        rcases List.mem_append.1 hlist with hlist | hlist
        · obtain ⟨r, hr, hlist⟩ := List.mem_flatMap.1 hlist
          simp [Region.tableLists, hfront r hr] at hlist
        · rcases List.mem_append.1 hlist with hlist | hlist
          · rw [Region.tableLists, targetLists_eq_nil hhead] at hlist
            exact absurd hlist List.not_mem_nil
          · exact hlist
      have horder : IsOrdered (targetHead ts ++ list) := by
        have hall : (targetHead ts ++ back.flatMap Region.tokens).Sublist ts := by
          have hlayout := tokens_layout (fun _ => {}) ts
          rw [Layout.tokens, hregions, List.flatMap_append, List.flatMap_cons] at hlayout
          have hbehind := ((List.suffix_append _ _).trans ⟨_, hlayout⟩).sublist
          exact ((List.sublist_cons_self verb _).append (List.Sublist.refl _)).trans hbehind
        have hin := (List.infix_of_mem_flatten hback).sublist.trans
          (flatten_flatMap_tableLists_sublist back)
        exact hts.sublist (((List.Sublist.refl _).append hin).trans hall)
      exact (readIn_targetTable hhead).stop_le_start hread horder

/-- The tables of the statement are those in the lists among the tokens, with the table that the head
names placed among them. -/
structure PlacesTarget (s : Statement) (ts : List Token) : Prop where
  kind : s.kind = .ofTokens (heading (fun _ => {}) ts).rest
  tables : s.tables.map TableRef.unlinked = placeTarget s.kind (headTable ts) (listedTables ts)

theorem unlinked_of_mem_placeTarget (h : t ∈ placeTarget kind (headTable ts) (listedTables ts)) :
    t.unlinked = t := by
  rcases mem_of_mem_placeTarget h with hhead | hlisted
  · exact (readIn_targetTable hhead).unlinked
  · obtain ⟨list, -, hread⟩ := readIn_listedTables hlisted
    exact hread.unlinked

theorem placesTarget_build (h : (build nested ts).kind.isDml) : (build nested ts).PlacesTarget ts := by
  cases ts with
  | nil => contradiction
  | cons first rest =>
      have hkind : (build nested (first :: rest)).kind =
          .ofTokens (heading nested (first :: rest)).rest := rfl
      refine ⟨by rw [hkind, (heading_eq nested (fun _ => {}) _).2], ?_⟩
      have hobject : (ObjectHead.ofBody (build nested (first :: rest)).kind
          (heading nested (first :: rest)).rest).table = none := by
        generalize (build nested (first :: rest)).kind = kind at h ⊢
        cases kind <;> first | contradiction | rfl
      have htables : (build nested (first :: rest)).tables =
          (placeTarget (build nested (first :: rest)).kind
            (Region.target? nested (layout nested (first :: rest)).regions)
            ((found nested (first :: rest)).tables ++
              (ObjectHead.ofBody (build nested (first :: rest)).kind
                (heading nested (first :: rest)).rest).table.toList)).map
            (TableRef.linkedIn (build nested (first :: rest)).subqueries) := rfl
      rw [htables, hobject, Option.toList_none, List.append_nil, target?_layout, tables_found,
        List.map_map]
      refine (List.map_congr_left fun t ht => ?_).trans (List.map_id _)
      exact (TableRef.unlinked_linkedIn _ t).trans (unlinked_of_mem_placeTarget ht)

theorem PlacesTarget.markedIn {s : Statement} (h : s.PlacesTarget ts) (names : List String) :
    (s.markedIn names).PlacesTarget ts := by
  have hkind : (s.markedIn names).kind = s.kind := by rw [Statement.markedIn]
  refine ⟨hkind.trans h.kind, ?_⟩
  rw [hkind, ← h.tables, tables_markedIn, List.map_map]
  exact List.map_congr_left fun t _ => t.unlinked_markedIn _

theorem Describes.placesTarget {s : Statement} (h : Describes s ts) (hdml : s.kind.isDml) :
    s.PlacesTarget ts := by
  induction h with
  | built levels ts => exact placesTarget_build hdml
  | placed ts => contradiction
  | @marked s ts _ names ih =>
      have hkind : (s.markedIn names).kind = s.kind := by rw [Statement.markedIn]
      exact (ih (hkind ▸ hdml)).markedIn names

/-- What is known of the target of a statement that changes a table, and of its other tables. -/
structure HasTarget (s : Statement) (ts : List Token) : Prop where
  /-- The head stands behind the verb, and only common table expressions are in front. -/
  head : ∃ front verb back, (layout (fun _ => {}) ts).regions =
    front ++ ⟨.target, verb, targetHead ts⟩ :: back ∧ (∀ r ∈ front, r.clause = .ctes) ∧
      ∀ r ∈ back, r.clause ≠ .target
  /-- The table that the head names is placed among those of the lists. -/
  placed : Placed s.kind (headTable ts) (listedTables ts) (s.target?.map TableRef.unlinked)
    (s.tables.map TableRef.unlinked)
  /-- It is read from tokens of the head. -/
  readHead : ∀ t, headTable ts = some t → t.ReadIn (targetHead ts)
  /-- The others are read from the lists. -/
  readLists : ∀ t ∈ listedTables ts, ∃ list ∈ tableLists ts, t.ReadIn list
  /-- No two of them share a token, and they are in the order of the text. -/
  pairwise : IsOrdered ts → ((headTable ts).toList ++ listedTables ts).Pairwise fun t u =>
    t.range.stop ≤ u.range.start

theorem PlacesTarget.hasTarget {s : Statement} (h : s.PlacesTarget ts) (hdml : s.kind.isDml) :
    s.HasTarget ts := by
  have hkind : (StatementKind.ofTokens (heading (fun _ => {}) ts).rest).isDml := h.kind ▸ hdml
  refine ⟨exists_regions_eq hkind, ?_, fun t ht => readIn_targetTable ht,
    fun t ht => readIn_listedTables ht, fun hts => pairwise_headTable hts hkind⟩
  rw [target?, if_pos hdml, ← List.head?_map, h.tables]
  exact placed_placeTarget _ _ _

/-- A statement that changes a table, at the top or nested at any depth, has the tables that its head and
its lists name, each once. The target is the table that the head names or the one of the lists that the
head means; where the head names none, the first table of the lists is the target. -/
theorem hasTarget_parse (ts : List Token) :
    ((parse ts).kind.isDml → (parse ts).HasTarget ts) ∧
      ∀ n ∈ (parse ts).all, n.kind.isDml → ∃ us, us <:+: ts ∧ n.range = .ofTokens us ∧
        n.HasTarget us := by
  refine ⟨fun hdml => ((describes_parse ts).placesTarget hdml).hasTarget hdml, fun n hn hdml => ?_⟩
  obtain ⟨us, hus, hdescribes⟩ := (describes_parse ts).exists_of_mem_all hn
  exact ⟨us, hus, hdescribes.range_eq, (hdescribes.placesTarget hdml).hasTarget hdml⟩

/-- The head names a table of the list by its alias, which is moved to the front. -/
theorem hasTarget_parse_update :
    let ts := tokenize "UPDATE c SET Name = 'x' FROM Orders o JOIN Customers c ON c.ID = o.CustomerID"
    (parse ts).HasTarget ts ∧ (parse ts).tables.map TableRef.name = ["Customers", "Orders"] :=
  ⟨(hasTarget_parse _).1 (by decide +kernel), by decide +kernel⟩

/-- The head names no table, and a table that is only read from is taken for the target. -/
theorem target_of_unnamed_head :
    let ts := tokenize "INSERT INTO SELECT a FROM b"
    (parse ts).kind = .insert ∧ (targetHead ts).map Token.text = ["INTO"] ∧ headTable ts = none ∧
      (parse ts).target?.map TableRef.name = some "b" := by
  decide +kernel

end Statement

end Tsql
