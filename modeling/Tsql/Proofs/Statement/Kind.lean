import Mathlib.Data.List.TakeWhile
import Tsql.Proofs.Token.Group
import Tsql.Statement.Kind

/-!
The words behind the kinds of statements.

A statement that creates a table has the word `TABLE` behind its first words
(`StatementKind.exists_of_createTable`), and only one that begins with `USE` selects a database
(`StatementKind.ofTokens_eq_use`). Only one that begins with `WITH` depends on tokens behind a
semicolon (`StatementKind.ofTokens_append`).
-/

namespace Tsql

/-- A token is at most one word. -/
theorem Token.isWord_eq_false {t : Token} {word other : String} (h : t.isWord word)
    (hne : Text.sameFolded word.toList other.toList = false) : t.isWord other = false := by
  simp only [isWord, Text.sameFolded, Bool.and_eq_true, beq_iff_eq] at h
  rw [isWord, Bool.and_eq_false_iff]
  refine .inr ?_
  rwa [Text.sameFolded, h.2]

theorem Token.isWord_of_semicolon {t : Token} (h : t.kind = .semicolon) (word : String) :
    t.isWord word = false := by
  simp [isWord, h]

/-- Words that may begin a statement that changes a table. -/
def Keyword.dmlWords : List Keyword :=
  [.WITH, .INSERT, .UPDATE, .DELETE, .MERGE]

theorem Keyword.mem_dmlWords {word : Keyword} (h : (word.dmlKind?.getD .unknown).isDml) :
    word ∈ dmlWords := by
  unfold dmlKind? at h
  split at h
  all_goals first | contradiction | decide

namespace StatementKind

/-- The kinds that a main keyword of a query or a change of data may give a statement. -/
def ofMainKeywords : List StatementKind :=
  [.unknown, .select, .insert, .update, .delete, .merge]

theorem mem_of_dmlKind? {word : Keyword} {kind : StatementKind} (h : word.dmlKind? = some kind) :
    kind ∈ ofMainKeywords := by
  unfold Keyword.dmlKind? at h
  split at h
  all_goals first | contradiction | (obtain rfl := Option.some.inj h; decide)

theorem getD_dmlKind?_mem (word : Keyword) : word.dmlKind?.getD unknown ∈ ofMainKeywords := by
  cases h : word.dmlKind? with
  | none => decide
  | some kind => exact mem_of_dmlKind? h

theorem ofBody_mem (depth : Nat) (ts : List Token) : ofBody depth ts ∈ ofMainKeywords := by
  fun_induction ofBody depth ts with
  | case1 => decide
  | case2 t ts word hkind ih =>
      cases h : word.dmlKind? with
      | none => exact ih
      | some kind => exact mem_of_dmlKind? h
  | case3 depth t ts word hkind hdepth ih => exact ih
  | case4 depth t ts hkind ih => exact ih

theorem isDml_ofCreated (ts : List Token) : (ofCreated ts).isDml = false := by
  unfold ofCreated
  split
  · rfl
  · repeat' split
    all_goals rfl

theorem exists_word_of_isDml {body : List Token} (h : (ofTokens body).isDml) :
    ∃ verb rest word, body = verb :: rest ∧ verb.kind = .keyword word ∧ word ∈ Keyword.dmlWords := by
  cases body with
  | nil => contradiction
  | cons verb rest =>
      unfold ofTokens at h
      dsimp only at h
      split at h
      · split at h
        · split at h <;> contradiction
        · contradiction
      · next word hkind =>
        refine ⟨verb, rest, word, rfl, hkind, ?_⟩
        split at h
        case h_9 => simp [isDml_ofCreated] at h
        case h_10 => decide
        case h_11 => exact Keyword.mem_dmlWords h
        all_goals contradiction
      · contradiction

theorem ofCreated_ne_use (ts : List Token) : ofCreated ts ≠ .use := by
  unfold ofCreated
  split
  · simp
  · split_ifs <;> simp

theorem exists_of_ofCreated {ts : List Token} (h : ofCreated ts = .createTable) :
    ∃ front w rest, ts = front ++ w :: rest ∧ (∀ t ∈ front, t.isAnyKeyword [.OR, .ALTER]) ∧
      w.isWord "TABLE" := by
  unfold ofCreated at h
  split at h
  · contradiction
  · next w rest hdrop =>
    refine ⟨ts.takeWhile fun t => t.isAnyKeyword [.OR, .ALTER], w, rest, ?_,
      List.all_eq_true.1 List.all_takeWhile, ?_⟩
    · rw [← hdrop, List.takeWhile_append_dropWhile]
    · split_ifs at h with hw
      exact hw

theorem ofTokens_of_dmlKind? {t : Token} {word : Keyword} {kind : StatementKind}
    (h : t.kind = .keyword word) (hkind : word.dmlKind? = some kind) (ts : List Token) :
    ofTokens (t :: ts) = kind := by
  rw [ofTokens, h]
  cases word <;> simp_all [Keyword.dmlKind?]

theorem ofTokens_of_use {t : Token} (h : t.isKeyword .USE) (ts : List Token) :
    ofTokens (t :: ts) = .use := by
  have hkind : t.kind = .keyword .USE := of_decide_eq_true h
  simp [ofTokens, hkind]

theorem ofTokens_eq_use {t : Token} {ts : List Token} (h : ofTokens (t :: ts) = .use) :
    t.isKeyword .USE := by
  simp only [ofTokens] at h
  split at h
  · split at h
    · split at h <;> contradiction
    · contradiction
  · next word hkind =>
    have hmain : .use ∉ ofMainKeywords := by decide
    by_cases hword : word = .USE
    · exact decide_eq_true (hword ▸ hkind)
    · split at h
      case h_9 => exact absurd h (ofCreated_ne_use ts)
      case h_10 => exact absurd (h ▸ ofBody_mem 0 ts) hmain
      case h_11 => exact absurd (h ▸ getD_dmlKind?_mem word) hmain
      all_goals contradiction
  · contradiction

/-- `OR` and `ALTER` behind a `CREATE` are skipped. -/
theorem ofTokens_of_view {create view : Token} {front : List Token}
    (hcreate : create.isKeyword .CREATE) (hfront : ∀ t ∈ front, t.isAnyKeyword [.OR, .ALTER])
    (hview : view.isKeyword .VIEW) (hword : view.isWord "VIEW") (ts : List Token) :
    ofTokens (create :: (front ++ view :: ts)) = .createView := by
  have hcreate : create.kind = .keyword .CREATE := of_decide_eq_true hcreate
  have hview : view.kind = .keyword .VIEW := of_decide_eq_true hview
  have htable : view.isWord "TABLE" = false := Token.isWord_eq_false hword (by decide)
  have hdrop : (front ++ view :: ts).dropWhile (fun t => t.isAnyKeyword [.OR, .ALTER]) =
      view :: ts := by
    rw [List.dropWhile_append_of_pos hfront, List.dropWhile_cons_of_neg]
    simp [Token.isAnyKeyword, hview]
  simp [ofTokens, ofCreated, hcreate, hdrop, hword, htable]

theorem exists_of_createTable {body : List Token} (h : ofTokens body = .createTable) :
    ∃ c front w rest, body = c :: (front ++ w :: rest) ∧ c.isKeyword .CREATE ∧
      (∀ t ∈ front, t.isAnyKeyword [.OR, .ALTER]) ∧ w.isWord "TABLE" := by
  unfold ofTokens at h
  split at h
  · contradiction
  · next t ts =>
    split at h
    · split at h
      · split at h <;> contradiction
      · contradiction
    · next word hkind =>
      have hmain : .createTable ∉ ofMainKeywords := by decide
      split at h
      case h_9 =>
        obtain ⟨front, w, rest, rfl, hfront, hw⟩ := exists_of_ofCreated h
        exact ⟨t, front, w, rest, rfl, decide_eq_true hkind, hfront, hw⟩
      case h_10 => exact absurd (h ▸ ofBody_mem 0 ts) hmain
      case h_11 => exact absurd (h ▸ getD_dmlKind?_mem word) hmain
      all_goals contradiction
    · contradiction

/-! ### Tokens behind a statement -/

section

variable {semi : Token}

theorem ofCreated_append (hsemi : semi.kind = .semicolon) (ts us : List Token) :
    ofCreated (ts ++ semi :: us) = ofCreated ts := by
  have hstop : (semi :: us).dropWhile (fun t => t.isAnyKeyword [.OR, .ALTER]) = semi :: us := by
    rw [List.dropWhile_cons_of_neg]
    simp [Token.isAnyKeyword, hsemi]
  rw [ofCreated, ofCreated, List.dropWhile_append, hstop]
  cases ts.dropWhile fun t => t.isAnyKeyword [.OR, .ALTER] with
  | nil => simp [Token.isWord_of_semicolon hsemi]
  | cons t ts => rfl

/-- The kind that a main keyword outside groups gives the statement. -/
def mainKind? (depth : Nat) (t : Token) : Option StatementKind :=
  match t.kind with
  | .keyword word => if depth = 0 then word.dmlKind? else none
  | _ => none

theorem ne_unknown_of_mainKind? {depth : Nat} {t : Token} {kind : StatementKind}
    (h : mainKind? depth t = some kind) : kind ≠ .unknown := by
  have hdml : ∀ word : Keyword, word.dmlKind? ≠ some .unknown := by
    intro word
    cases word <;> decide
  rintro rfl
  unfold mainKind? at h
  split at h
  · next word _ =>
    split at h
    · exact hdml word h
    · contradiction
  · contradiction

theorem ofBody_cons (depth : Nat) (t : Token) (ts : List Token) :
    ofBody depth (t :: ts) = (mainKind? depth t).getD (ofBody (t.depthAfter depth) ts) := by
  rw [ofBody, mainKind?]
  cases hkind : t.kind with
  | keyword word =>
      rw [Token.depthAfter_of_keyword hkind]
      by_cases hzero : depth = 0 <;> simp [hzero]
  | _ => rfl

theorem ofBody_cons_eq_unknown {depth : Nat} {t : Token} {ts : List Token} :
    ofBody depth (t :: ts) = .unknown ↔
      mainKind? depth t = none ∧ ofBody (t.depthAfter depth) ts = .unknown := by
  rw [ofBody_cons]
  cases h : mainKind? depth t with
  | none => simp
  | some kind => simp [ne_unknown_of_mainKind? h]

/-- The main keyword is looked for behind the tokens if they have none. -/
theorem ofBody_append (depth : Nat) (ts us : List Token) :
    ofBody depth (ts ++ us) =
      if ofBody depth ts = .unknown then ofBody (depthAfter depth ts) us else ofBody depth ts := by
  induction ts generalizing depth with
  | nil => rfl
  | cons t ts ih =>
      rw [List.cons_append, ofBody_cons, ofBody_cons, ih, depthAfter_cons]
      cases h : mainKind? depth t with
      | none => rfl
      | some kind => simp [ne_unknown_of_mainKind? h]

theorem ofBody_semicolon (hsemi : semi.kind = .semicolon) (us : List Token) :
    ofBody 0 (semi :: us) = ofBody 0 us := by
  simp [ofBody, hsemi, Token.depthAfter, Token.isOpen, Token.isClose]

theorem ofTokens_of_with {t : Token} (h : t.isKeyword .WITH) (ts : List Token) :
    ofTokens (t :: ts) = ofBody 0 ts := by
  have hkind : t.kind = .keyword .WITH := of_decide_eq_true h
  simp [ofTokens, hkind]

/-- Only a `WITH` looks behind the semicolon. -/
theorem ofTokens_append (hsemi : semi.kind = .semicolon) {t : Token}
    (ht : t.isKeyword .WITH = false) (ts us : List Token) :
    ofTokens (t :: (ts ++ semi :: us)) = ofTokens (t :: ts) := by
  have hfind : (semi :: us).find? (fun u => !u.isOpen) = some semi := by
    simp [Token.isOpen, hsemi]
  simp only [ofTokens]
  split
  · rw [List.find?_append, hfind]
    cases ts.find? fun u => !u.isOpen with
    | none => simp [Token.isKeyword, hsemi]
    | some u => rfl
  · next word hkind =>
    split
    case h_9 => exact ofCreated_append hsemi ts us
    case h_10 => simp [Token.isKeyword, hkind] at ht
    all_goals rfl
  · rfl

end

end StatementKind

end Tsql
