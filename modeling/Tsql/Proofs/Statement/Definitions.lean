import Tsql.Proofs.Statement.Kind
import Tsql.Proofs.Statement.Layout

/-!
The definitions of a table that is created.

They stand in a group behind words and names with which no region begins
(`ObjectHead.exists_of_definitions`), so they are in none of the regions
(`Region.exists_mem_cut_of_definitions`).
-/

namespace Tsql

/-- In the tokens `TABLE` is a reserved word. -/
def ReservesTable (ts : List Token) : Prop :=
  ∀ t ∈ ts, t.isWord "TABLE" → t.isKeyword .TABLE

theorem Token.exists_isKeyword {t : Token} {words : List Keyword} (h : t.isAnyKeyword words) :
    ∃ word ∈ words, t.isKeyword word := by
  unfold isAnyKeyword at h
  split at h
  · next word hkind => exact ⟨word, List.contains_iff_mem.1 h, decide_eq_true hkind⟩
  · contradiction

/-- Keywords that may stand in front of the name of a table that is created. -/
def createWords : List Keyword :=
  [.CREATE, .OR, .ALTER, .TABLE]

/-- No region of a `CREATE TABLE` begins at the token. -/
def Token.IsHeading (t : Token) : Prop :=
  t.isOpen = false ∧ ∀ word, t.kind = .keyword word → word ∈ createWords

namespace Token

theorem isHeading_of_isName {t : Token} (h : t.isName) : t.IsHeading := by
  refine ⟨isOpen_of_isName h, fun word hkind => ?_⟩
  simp [isName, hkind] at h

theorem isHeading_of_dot {t : Token} (h : t.kind = .dot) : t.IsHeading := by
  refine ⟨by simp [isOpen, h], fun word hkind => ?_⟩
  simp [hkind] at h

theorem isHeading_of_isKeyword {t : Token} {word : Keyword} (h : t.isKeyword word)
    (hword : word ∈ createWords) : t.IsHeading := by
  refine ⟨isOpen_of_isKeyword h, fun word' hkind => ?_⟩
  obtain rfl := TokenKind.keyword.inj ((kind_of_isKeyword h).symm.trans hkind)
  exact hword

end Token

theorem Region.clause?_of_mem_createWords {word : Keyword} (h : word ∈ createWords) (s : State)
    {t : Token} (hkind : t.kind = .keyword word) (following : List Token) :
    s.clause? .createTable t word following = none := by
  simp only [createWords, List.mem_cons, List.not_mem_nil, or_false] at h
  rcases h with rfl | rfl | rfl | rfl <;>
    simp [State.clause?, startsJoin_of_kind hkind (by decide) following]

theorem Region.cut_isHeading {us : List Token} (h : ∀ t ∈ us, t.IsHeading) (s : State)
    (ts : List Token) :
    ∃ s', cut .createTable s (us ++ ts) =
      (us ++ (cut .createTable s' ts).1, (cut .createTable s' ts).2) := by
  induction us generalizing s with
  | nil => exact ⟨s, rfl⟩
  | cons u us ih =>
      obtain ⟨⟨hopen, hword⟩, hus⟩ := List.forall_mem_cons.1 h
      by_cases hkeyword : ∃ word, u.kind = .keyword word
      · obtain ⟨word, hkind⟩ := hkeyword
        have hclause := clause?_of_mem_createWords (hword word hkind) s hkind (us ++ ts)
        obtain ⟨s', hcut⟩ := ih hus (s.behind u word none)
        refine ⟨s', ?_⟩
        rw [List.cons_append, cut_keyword hkind hclause, hcut]
        rfl
      · obtain ⟨s', hcut⟩ := ih hus { s with named := s.named || u.isName, previous := some u }
        refine ⟨s', ?_⟩
        rw [List.cons_append, cut_other (by simp [hopen]) (fun word hkind => hkeyword ⟨word, hkind⟩),
          hcut]
        rfl

theorem exists_nameTail (ts : List Token) (h : (nameTail ts).1.isSome) :
    ∃ front, ts = front ++ (nameTail ts).2 ∧ ∀ t ∈ front, t.IsHeading := by
  fun_induction nameTail ts with
  | case1 => exact ⟨[], rfl, by simp⟩
  | case2 t hdot => simp at h
  | case3 t hdot u rest hname ih =>
      obtain ⟨front, hfront, hall⟩ := ih (by simpa using h)
      refine ⟨t :: u :: front, by simp [← hfront], ?_⟩
      simpa [Token.isHeading_of_dot hdot, Token.isHeading_of_isName hname] using hall
  | case4 t hdot u rest hname hdot' ih =>
      obtain ⟨front, hfront, hall⟩ := ih (by simpa using h)
      refine ⟨t :: front, by simp [← hfront], ?_⟩
      simpa [Token.isHeading_of_dot hdot] using hall
  | case5 t hdot u rest hname hdot' => simp at h
  | case6 t ts hdot => exact ⟨[], rfl, by simp⟩

theorem exists_tableName (ts : List Token) (h : (tableName ts).1.isSome) :
    ∃ front, ts = front ++ (tableName ts).2 ∧ ∀ t ∈ front, t.IsHeading := by
  unfold tableName at h ⊢
  split at h
  · simp at h
  · next t ts =>
    dsimp only at h ⊢
    split at h
    · next hname =>
      obtain ⟨front, hfront, hall⟩ := exists_nameTail ts (by simpa using h)
      rw [if_pos hname]
      refine ⟨t :: front, by simp [← hfront], ?_⟩
      simpa [Token.isHeading_of_isName hname] using hall
    · simp at h

namespace ObjectHead

theorem definitions_ofNamed (ts : List Token) : (ofNamed ts).definitions = none := by
  unfold ofNamed
  split
  · split
    · split
      · split <;> rfl
      · rfl
    · rfl
  · rfl

theorem exists_of_definitions_ofCreate {ts : List Token} {rank : Nat}
    (h : (ofCreate ts).definitions = some rank) :
    ∃ w name t us, (ts.dropWhile fun t => !t.isKeyword .TABLE) = w :: (name ++ t :: us) ∧
      (∀ u ∈ name, u.IsHeading) ∧ t.isOpen ∧ (t :: us).length = rank := by
  unfold ofCreate at h
  split at h
  · contradiction
  · next w rest hdrop =>
    split at h
    · contradiction
    · next table behind hname =>
      obtain ⟨front, hfront, hall⟩ := exists_tableName rest (by rw [hname]; rfl)
      rw [hname] at hfront
      dsimp only at h hfront
      split at h
      · contradiction
      · next t definitions =>
        split at h
        · next hopen =>
          exact ⟨w, front, t, definitions, by rw [hdrop, hfront], hall, hopen, Option.some.inj h⟩
        · contradiction

theorem le_length_of_definitions {kind : StatementKind} {body : List Token} {rank : Nat}
    (h : (ofBody kind body).definitions = some rank) : rank ≤ body.length := by
  have hcreate : (ofCreate body).definitions = some rank := by
    revert h
    cases kind <;> simp [ofBody, definitions_ofNamed]
  obtain ⟨w, name, t, us, hdrop, -, -, rfl⟩ := exists_of_definitions_ofCreate hcreate
  have hsuffix : t :: us <:+ body :=
    ((List.suffix_append name _).trans (List.suffix_cons w _)).trans
      (hdrop ▸ List.dropWhile_suffix _)
  exact hsuffix.length_le

/-- The definitions of a table stand behind the words and the name of the statement. -/
theorem exists_of_definitions {body : List Token} (hreserves : ReservesTable body) {rank : Nat}
    (h : (ofBody (.ofTokens body) body).definitions = some rank) :
    StatementKind.ofTokens body = .createTable ∧
      ∃ front t us, body = front ++ t :: us ∧ (∀ u ∈ front, u.IsHeading) ∧ t.isOpen ∧
        (t :: us).length = rank := by
  have hkind : StatementKind.ofTokens body = .createTable := by
    revert h
    cases StatementKind.ofTokens body <;> simp [ofBody, definitions_ofNamed]
  refine ⟨hkind, ?_⟩
  rw [hkind] at h
  obtain ⟨w', name, t, us, hdrop, hname, hopen, hrank⟩ := exists_of_definitions_ofCreate h
  obtain ⟨c, words, w, rest, rfl, hcreate, hwords, hw⟩ := StatementKind.exists_of_createTable hkind
  have htable : w.isKeyword .TABLE := hreserves w (by simp) hw
  have hfront : ∀ u ∈ c :: words, ∃ word ∈ [.CREATE, .OR, .ALTER], u.isKeyword word := by
    refine List.forall_mem_cons.2 ⟨⟨_, by simp, hcreate⟩, fun u hu => ?_⟩
    obtain ⟨word, hword, hkeyword⟩ := Token.exists_isKeyword (hwords u hu)
    exact ⟨word, List.mem_cons_of_mem _ hword, hkeyword⟩
  have hbody : (c :: (words ++ w :: rest)).dropWhile (fun t => !t.isKeyword .TABLE) = w :: rest := by
    rw [← List.cons_append, List.dropWhile_append_of_pos, List.dropWhile_cons_of_neg]
    · simp [htable]
    · intro u hu
      obtain ⟨word, hword, hkeyword⟩ := hfront u hu
      have hne : word ≠ .TABLE := by rintro rfl; simp at hword
      simp [Token.isKeyword, Token.kind_of_isKeyword hkeyword, hne]
  obtain ⟨rfl, rfl⟩ := List.cons.inj (hbody.symm.trans hdrop)
  refine ⟨(c :: words) ++ w :: name, t, us, by simp, fun u hu => ?_, hopen, hrank⟩
  rcases List.mem_append.1 hu with hu | hu
  · obtain ⟨word, hword, hkeyword⟩ := hfront u hu
    exact Token.isHeading_of_isKeyword hkeyword (List.mem_of_mem_take (i := 3) hword)
  · rcases List.mem_cons.1 hu with rfl | hu
    · exact Token.isHeading_of_isKeyword htable (by decide)
    · exact hname u hu

end ObjectHead

/-- No region of a statement holds the definitions of a table that it creates. -/
theorem Region.exists_mem_cut_of_definitions {body : List Token} (hreserves : ReservesTable body)
    {rank : Nat} (h : (ObjectHead.ofBody (.ofTokens body) body).definitions = some rank) (s : State) :
    ∃ t us, t :: us <:+ body ∧ (t :: us).length = rank ∧ t ∈ (cut (.ofTokens body) s body).1 := by
  obtain ⟨hkind, front, t, us, rfl, hfront, hopen, hrank⟩ :=
    ObjectHead.exists_of_definitions hreserves h
  obtain ⟨s', hcut⟩ := cut_isHeading hfront s (t :: us)
  refine ⟨t, us, List.suffix_append front _, hrank, ?_⟩
  rw [hkind, hcut, cut_group hopen (by simp [State.isColumnList])]
  simp

end Tsql
