import Tsql.Proofs.Elements.Typed
import Tsql.Proofs.Statement.Query

/-!
Lists of tables behind `FROM`, as they are written, and what is read of them.

A list in parentheses is read in one pass, which steps over each join condition up to the next comma
or join, so every item of it is found (`refs_tableList_links`). At the top level of a query the list
is cut into clauses first, and the clause of a condition is not read for tables. A join ends that
clause but a comma does not, so the items behind such a comma are left out of `TableLink.found`.
-/

namespace Tsql

/-! ### Lists of tables as they are written -/

/-- The token without its place. -/
def Token.spelled (t : Token) : TokenKind × String :=
  (t.kind, t.text)

/-- The keyword in capitals. -/
def Keyword.spelled (k : Keyword) : TokenKind × String :=
  (.keyword k, k.text)

/-- A name as a statement writes it. -/
inductive WrittenName
  | bare (name : String) (h : IsIdentifier name)
  | delimited (opening : Char) (h : opening = '[' ∨ opening = '"') (name : String)

namespace WrittenName

/-- The name that is meant. -/
def name : WrittenName → String
  | bare name _ => name
  | delimited _ _ name => name

def text : WrittenName → String
  | bare name _ => name
  | delimited opening _ name =>
    String.ofList (Delimited.enclose opening (Lexer.closing opening) name.toList)

def spelled : WrittenName → TokenKind × String
  | bare name _ => (.identifier, name)
  | delimited _ _ name => (.bracketed, name)

end WrittenName

/-- `name` or `name AS label`. -/
structure TableItem where
  table : WrittenName
  label : Option WrittenName := none

namespace TableItem

def text (i : TableItem) : String :=
  i.table.text ++ i.label.elim "" fun a => " AS " ++ a.text

def spelled (i : TableItem) : List (TokenKind × String) :=
  i.table.spelled :: i.label.elim [] fun a => [Keyword.AS.spelled, a.spelled]

/-- The reference that the item is, without its place. -/
def ref (i : TableItem) : TableRef :=
  { name := i.table.name, aliasName := i.label.map WrittenName.name }

end TableItem

/-- A column with its qualifier. -/
structure QualifiedName where
  qualifier : WrittenName
  column : WrittenName

namespace QualifiedName

def text (n : QualifiedName) : String :=
  n.qualifier.text ++ "." ++ n.column.text

def spelled (n : QualifiedName) : List (TokenKind × String) :=
  [n.qualifier.spelled, (.dot, "."), n.column.spelled]

end QualifiedName

/-- `x.y = z.w`. -/
structure JoinCondition where
  left : QualifiedName
  right : QualifiedName

namespace JoinCondition

def text (c : JoinCondition) : String :=
  c.left.text ++ " = " ++ c.right.text

def spelled (c : JoinCondition) : List (TokenKind × String) :=
  c.left.spelled ++ (.operator, "=") :: c.right.spelled

end JoinCondition

/-- An item of a list with what links it to the items in front of it. -/
inductive TableLink
  | comma (item : TableItem)
  | join (item : TableItem) (condition : JoinCondition)
  | leftJoin (item : TableItem) (condition : JoinCondition)
  | crossJoin (item : TableItem)

namespace TableLink

def item : TableLink → TableItem
  | comma item => item
  | join item _ => item
  | leftJoin item _ => item
  | crossJoin item => item

def condition? : TableLink → Option JoinCondition
  | comma _ => none
  | join _ condition => some condition
  | leftJoin _ condition => some condition
  | crossJoin _ => none

def isComma : TableLink → Bool
  | comma _ => true
  | _ => false

/-- What stands in front of the item. -/
def separatorText : TableLink → String
  | comma _ => ", "
  | join .. => " JOIN "
  | leftJoin .. => " LEFT JOIN "
  | crossJoin _ => " CROSS JOIN "

/-- The words of a join. -/
def words : TableLink → List Keyword
  | comma _ => []
  | join .. => [.JOIN]
  | leftJoin .. => [.LEFT, .JOIN]
  | crossJoin _ => [.CROSS, .JOIN]

def separator (l : TableLink) : List (TokenKind × String) :=
  if l.isComma then [(.comma, ",")] else l.words.map Keyword.spelled

def text (l : TableLink) : String :=
  l.separatorText ++ l.item.text ++ l.condition?.elim "" fun c => " ON " ++ c.text

def spelled (l : TableLink) : List (TokenKind × String) :=
  l.separator ++ l.item.spelled ++ l.condition?.elim [] fun c => Keyword.ON.spelled :: c.spelled

/-- Whether a join condition is open behind the link, where `isOpen` tells it in front. -/
def leavesOpen (isOpen : Bool) (l : TableLink) : Bool :=
  l.isComma && isOpen || l.condition?.isSome

theorem leavesOpen_false (l : TableLink) : l.leavesOpen false = l.condition?.isSome := by
  simp [leavesOpen]

theorem leavesOpen_of_isComma {l : TableLink} (h : l.isComma) (isOpen : Bool) :
    l.leavesOpen isOpen = isOpen := by
  cases l <;> simp_all [leavesOpen, isComma, condition?]

theorem leavesOpen_of_not_isComma {l : TableLink} (h : l.isComma = false) (isOpen : Bool) :
    l.leavesOpen isOpen = l.condition?.isSome := by
  simp [leavesOpen, h]

/-- The items that are found at the top level of a query, where `isOpen` tells whether a join
condition is open. -/
def found (isOpen : Bool) : List TableLink → List TableItem
  | [] => []
  | l :: ls => (if l.isComma && isOpen then [] else [l.item]) ++ found (l.leavesOpen isOpen) ls

/-- Whether a join condition is open behind the links. -/
def openBehind (isOpen : Bool) (ls : List TableLink) : Bool :=
  ls.foldl (fun isOpen l => l.leavesOpen isOpen) isOpen

theorem length_found_le (isOpen : Bool) (ls : List TableLink) :
    (found isOpen ls).length ≤ ls.length := by
  induction ls generalizing isOpen with
  | nil => exact Nat.le_refl 0
  | cons l ls ih =>
      have := ih (l.leavesOpen isOpen)
      rw [found]
      split <;> simp <;> omega

/-- All items are found just if no comma stands behind an open condition. -/
theorem found_eq_map_item_iff (isOpen : Bool) (ls : List TableLink) :
    found isOpen ls = ls.map item ↔
      ∀ front item behind, ls = front ++ comma item :: behind → openBehind isOpen front = false := by
  induction ls generalizing isOpen with
  | nil => simp [found]
  | cons l ls ih =>
      rw [found, List.map_cons]
      by_cases hlost : l.isComma && isOpen
      · obtain ⟨hcomma, hopen⟩ := Bool.and_eq_true_iff.1 hlost
        rw [if_pos hlost, List.nil_append]
        refine iff_of_false (fun heq => ?_) fun hall => ?_
        · have hle := length_found_le (l.leavesOpen isOpen) ls
          rw [heq, List.length_cons, List.length_map] at hle
          exact Nat.not_succ_le_self _ hle
        · cases l with
          | comma item => exact Bool.false_ne_true ((hall [] item ls rfl).symm.trans hopen)
          | _ => exact Bool.false_ne_true hcomma
      · rw [if_neg hlost, List.singleton_append, List.cons.injEq, ih]
        refine ⟨fun ⟨_, hall⟩ front item behind heq => ?_, fun hall => ⟨rfl, ?_⟩⟩
        · cases front with
          | nil =>
              obtain ⟨rfl, -⟩ := List.cons.inj heq
              simpa [isComma, openBehind] using hlost
          | cons l' front =>
              obtain ⟨rfl, htail⟩ := List.cons.inj heq
              exact hall front item behind htail
        · intro front item behind heq
          exact hall (l :: front) item behind (by rw [heq, List.cons_append])

end TableLink

/-- A list of tables. -/
structure TableListing where
  first : TableItem
  links : List TableLink

namespace TableListing

def text (l : TableListing) : String :=
  l.first.text ++ String.join (l.links.map TableLink.text)

def spelled (l : TableListing) : List (TokenKind × String) :=
  l.first.spelled ++ l.links.flatMap TableLink.spelled

def items (l : TableListing) : List TableItem :=
  l.first :: l.links.map TableLink.item

/-- The items that are found at the top level of a query. -/
def found (l : TableListing) : List TableItem :=
  l.first :: TableLink.found false l.links

end TableListing

/-- No parenthesis is spelled. -/
def HasNoParens (ls : List (TokenKind × String)) : Prop :=
  ∀ x ∈ ls, x.1 ≠ .parenOpen ∧ x.1 ≠ .parenClose

theorem hasNoParens_append {ls ms : List (TokenKind × String)} :
    HasNoParens (ls ++ ms) ↔ HasNoParens ls ∧ HasNoParens ms :=
  List.forall_mem_append

namespace HasNoParens

theorem name (n : WrittenName) : n.spelled.1 ≠ .parenOpen ∧ n.spelled.1 ≠ .parenClose := by
  cases n <;> simp [WrittenName.spelled]

theorem item (i : TableItem) : HasNoParens i.spelled := by
  cases hlabel : i.label <;>
  simp [HasNoParens, TableItem.spelled, hlabel, Keyword.spelled, name]

theorem condition (c : JoinCondition) : HasNoParens c.spelled := by
  simp [HasNoParens, JoinCondition.spelled, QualifiedName.spelled, name]

theorem link (l : TableLink) : HasNoParens l.spelled := by
  rw [TableLink.spelled, hasNoParens_append, hasNoParens_append]
  refine ⟨⟨?_, item l.item⟩, ?_⟩
  · cases l <;>
    simp [HasNoParens, TableLink.separator, TableLink.isComma, TableLink.words, Keyword.spelled]
  · cases l.condition? with
    | none => exact List.forall_mem_nil _
    | some c => exact List.forall_mem_cons.2 ⟨by simp [Keyword.spelled], condition c⟩

theorem listing (l : TableListing) : HasNoParens l.spelled := by
  refine hasNoParens_append.2 ⟨item l.first, fun x hx => ?_⟩
  obtain ⟨link', -, hx⟩ := List.mem_flatMap.1 hx
  exact link link' x hx

end HasNoParens

/-- The reference without its place. -/
def TableRef.unplaced (t : TableRef) : TableRef :=
  { t with range := default }

/-! ### Tokens of a list -/

namespace Token

/-- The token is a comma or a word of a join, which a list of tables steps over. -/
def isLinkWord (t : Token) : Bool :=
  t.kind = .comma || t.isAnyKeyword Region.joinWords

/-- The token ends a table and its alias. -/
def endsTable (t : Token) : Bool :=
  t.isLinkWord || t.isKeyword .ON

/-- The token may stand in a comparison of columns. -/
def isOperand (t : Token) : Bool :=
  t.isName || t.kind = .dot || t.kind = .operator

variable {t : Token}

theorem of_endsTable (h : t.endsTable) :
    t.isName = false ∧ t.isOpen = false ∧ t.kind ≠ .dot ∧ t.isKeyword .AS = false ∧
      t.isKeyword .WITH = false := by
  unfold endsTable isLinkWord isAnyKeyword at h
  cases hkind : t.kind <;> simp_all [isName, isOpen, isKeyword, Region.joinWords]
  refine ⟨?_, ?_⟩ <;> rintro rfl <;> simp at h

theorem of_spelled {n : WrittenName} (h : t.spelled = n.spelled) : t.isName ∧ t.text = n.name := by
  cases n <;> simp_all [spelled, WrittenName.spelled, WrittenName.name, isName]

theorem isOperand_of_name {n : WrittenName} (h : t.spelled = n.spelled) : t.isOperand := by
  simp [isOperand, (of_spelled h).1]

theorem isOperand_of_qualified {n : QualifiedName} (h : t.spelled ∈ n.spelled) : t.isOperand := by
  simp only [QualifiedName.spelled, List.mem_cons, List.not_mem_nil, or_false] at h
  rcases h with h | h | h
  · exact isOperand_of_name h
  · simp [isOperand, show t.kind = .dot from congrArg Prod.fst h]
  · exact isOperand_of_name h

theorem isOperand_of_condition {c : JoinCondition} (h : t.spelled ∈ c.spelled) : t.isOperand := by
  rcases List.mem_append.1 h with h | h
  · exact isOperand_of_qualified h
  · rcases List.mem_cons.1 h with h | h
    · simp [isOperand, show t.kind = .operator from congrArg Prod.fst h]
    · exact isOperand_of_qualified h

theorem of_isOperand (h : t.isOperand) :
    t.isOpen = false ∧ t.kind ≠ .comma ∧ ∀ word, t.kind ≠ .keyword word := by
  unfold isOperand isName at h
  cases hkind : t.kind <;> simp_all [isOpen]

end Token

/-- The tokens do not go on with the name in front of them, nor with hints or arguments. -/
def EndsName (ts : List Token) : Prop :=
  ∀ t ∈ ts.head?, t.isOpen = false ∧ t.kind ≠ .dot ∧ t.isKeyword .WITH = false

/-- The tokens do not go on with the table in front of them. -/
def EndsTable (ts : List Token) : Prop :=
  ∀ t ∈ ts.head?, t.endsTable

namespace EndsTable

variable {ts us : List Token}

theorem mono (h : EndsTable ts) (hus : us <+: ts) : EndsTable us := by
  obtain ⟨vs, rfl⟩ := hus
  cases us with
  | nil => simp [EndsTable]
  | cons u us => simpa [EndsTable] using h

theorem endsName (h : EndsTable ts) : EndsName ts := by
  intro t ht
  obtain ⟨-, hopen, hdot, -, hwith⟩ := Token.of_endsTable (h t ht)
  exact ⟨hopen, hdot, hwith⟩

end EndsTable

theorem startsOpen_linkWords {hs ts : List Token} (h : ∀ t ∈ hs, t.isLinkWord)
    (hts : startsOpen ts = false) :
    startsOpen (hs ++ ts) = false := by
  cases hs with
  | nil => exact hts
  | cons t hs =>
      have ht := h t List.mem_cons_self
      exact (Token.of_endsTable (t := t) (by simp [Token.endsTable, ht])).2.1

theorem startsOpen_item {i : TableItem} {is : List Token} (h : is.map Token.spelled = i.spelled)
    (ts : List Token) :
    startsOpen (is ++ ts) = false := by
  obtain ⟨t, us, rfl, ht, -⟩ := List.map_eq_cons_iff.1 h
  exact (Token.of_isName (Token.of_spelled ht).1).1

/-! ### Reading an item -/

section

variable {ts : List Token} (h : EndsName ts)

include h

theorem nameTail_of_endsName : nameTail ts = (some [], ts) := by
  cases ts with
  | nil => rfl
  | cons t ts =>
      rw [nameTail.eq_def]
      exact if_neg (h t rfl).2.1

theorem callArguments_of_endsName : callArguments ts = none := by
  cases ts with
  | nil => rfl
  | cons t ts => simp [callArguments, (h t rfl).1]

theorem skipHints_of_endsName : skipHints ts = ts := by
  cases ts with
  | nil => rw [skipHints]
  | cons t ts =>
      obtain ⟨hopen, -, hwith⟩ := h t rfl
      simp [skipHints, hopen, hwith]

end

section

variable {rest : List Token} (h : EndsTable rest)

include h

/-- An alias is read to its end, or none where there is none. -/
theorem tableAlias_label {label : Option WrittenName} {us : List Token}
    (hus : us.map Token.spelled = label.elim [] fun a => [Keyword.AS.spelled, a.spelled]) :
    EndsName (us ++ rest) ∧ tableAlias (us ++ rest) = (label.map WrittenName.name, rest) := by
  cases label with
  | none =>
      obtain rfl := List.map_eq_nil_iff.1 hus
      refine ⟨h.endsName, ?_⟩
      cases rest with
      | nil => rfl
      | cons t ts =>
          obtain ⟨hname, -, -, has, -⟩ := Token.of_endsTable (h t rfl)
          simp [tableAlias, hname, has]
  | some a =>
      obtain ⟨as, vs, rfl, has, hvs⟩ := List.map_eq_cons_iff.1 hus
      obtain ⟨u, rfl, hu⟩ := List.map_eq_singleton_iff.1 hvs
      have has : as.kind = .keyword .AS := congrArg Prod.fst has
      obtain ⟨hname, htext⟩ := Token.of_spelled hu
      refine ⟨?_, ?_⟩
      · simp [EndsName, Token.isOpen, Token.isKeyword, has]
      · simp [tableAlias, Token.isKeyword, has, hname, htext]

theorem namedTable_item {i : TableItem} {ts : List Token} (hts : ts.map Token.spelled = i.spelled) :
    ∃ range, namedTable (ts ++ rest) = (some { i.ref with range := range }, rest) := by
  obtain ⟨t, us, rfl, ht, hus⟩ := List.map_eq_cons_iff.1 hts
  obtain ⟨hname, htext⟩ := Token.of_spelled ht
  obtain ⟨hends, halias⟩ := tableAlias_label h hus
  simp [namedTable, tableName, hname, htext, nameTail_of_endsName hends,
    callArguments_of_endsName hends, skipHints_of_endsName hends, halias,
    skipHints_of_endsName h.endsName, TableRef.ofParts, TableItem.ref]

end

/-! ### Reading a list -/

/-- The tables that were found, without their places. -/
def Sources.refs (found : Sources) : List TableRef :=
  found.tables.map TableRef.unplaced

theorem Sources.refs_append (a b : Sources) : (a ++ b).refs = a.refs ++ b.refs :=
  List.map_append

@[simp] theorem Sources.refs_inFrontOf (more : Nat) (found : Sources) :
    (found.inFrontOf more).refs = found.refs := rfl

section

variable (nested : List Token → Statement) (clause : Clause)

theorem tableList_linkWord {t : Token} (h : t.isLinkWord) (ts : List Token) :
    tableList nested clause (t :: ts) = tableList nested clause ts := by
  unfold Token.isLinkWord Token.isAnyKeyword at h
  rw [tableList]
  cases hkind : t.kind with
  | keyword word =>
      have hmem : word ∈ Region.joinWords := by simpa [hkind] using h
      simp only [Region.joinWords, List.mem_cons, List.not_mem_nil, or_false] at hmem
      rcases hmem with rfl | rfl | rfl | rfl | rfl | rfl | rfl <;>
      simp [Token.isKeyword, Token.isAnyKeyword, Token.isOpen, Token.isName, hkind]
  | _ => simp_all [Token.isKeyword, Token.isAnyKeyword, Token.isOpen, Token.isName]

theorem tableList_linkWords {hs : List Token} (h : ∀ t ∈ hs, t.isLinkWord) (ts : List Token) :
    tableList nested clause (hs ++ ts) = tableList nested clause ts := by
  induction hs with
  | nil => rfl
  | cons t hs ih =>
      obtain ⟨ht, hhs⟩ := List.forall_mem_cons.1 h
      rw [List.cons_append, tableList_linkWord nested clause ht, ih hhs]

theorem tableList_name {t : Token} (h : t.isName) (ts : List Token) :
    tableList nested clause (t :: ts) =
      { tables := (namedTable (t :: ts)).1.toList } ++
        tableList nested clause (namedTable (t :: ts)).2 := by
  have hkind := h
  unfold Token.isName at hkind
  rw [tableList]
  cases heq : t.kind <;> simp_all [Token.isKeyword, Token.isAnyKeyword, Token.isOpen]

theorem refs_tableList_item {i : TableItem} {ts rest : List Token}
    (hts : ts.map Token.spelled = i.spelled) (h : EndsTable rest) :
    (tableList nested clause (ts ++ rest)).refs = i.ref :: (tableList nested clause rest).refs := by
  obtain ⟨range, hnamed⟩ := namedTable_item h hts
  obtain ⟨t, us, rfl, ht, -⟩ := List.map_eq_cons_iff.1 hts
  rw [List.cons_append] at hnamed ⊢
  rw [tableList_name nested clause (Token.of_spelled ht).1, hnamed, Sources.refs_append]
  rfl

end

/-! ### The parts of a link -/

namespace TableLink

variable {l : TableLink} {ts us hs is cs : List Token}

/-- The tokens in front of others are a separator, an item and perhaps a condition. -/
structure Parts (l : TableLink) (hs is cs : List Token) : Prop where
  separator : hs.map Token.spelled = l.separator
  item : is.map Token.spelled = l.item.spelled
  condition : cs.map Token.spelled = l.condition?.elim [] fun c => Keyword.ON.spelled :: c.spelled

theorem exists_parts {ls : List (TokenKind × String)} (h : ts.map Token.spelled = l.spelled ++ ls) :
    ∃ hs is cs us, l.Parts hs is cs ∧ us.map Token.spelled = ls ∧ ts = hs ++ (is ++ (cs ++ us)) := by
  simp only [spelled, List.append_assoc] at h
  obtain ⟨hs, ts, rfl, hhs, hts⟩ := List.map_eq_append_iff.1 h
  obtain ⟨is, ts, rfl, his, hts⟩ := List.map_eq_append_iff.1 hts
  obtain ⟨cs, us, rfl, hcs, hus⟩ := List.map_eq_append_iff.1 hts
  exact ⟨hs, is, cs, us, ⟨hhs, his, hcs⟩, hus, rfl⟩

theorem words_subset (l : TableLink) : l.words ⊆ Region.joinWords := by
  cases l <;> simp [words, Region.joinWords]

theorem separator_of_isComma (h : l.isComma) : l.separator = [(.comma, ",")] :=
  if_pos h

theorem separator_of_not_isComma (h : l.isComma = false) :
    l.separator = l.words.map Keyword.spelled := by
  simp [separator, h]

namespace Parts

variable (h : l.Parts hs is cs)

include h

theorem exists_cons : ∃ j js, hs = j :: js := by
  refine List.exists_cons_of_ne_nil fun hnil => ?_
  have hseparator := h.separator
  rw [hnil] at hseparator
  cases l <;> simp [TableLink.separator, TableLink.isComma, TableLink.words] at hseparator

theorem isJoinWord (hcomma : l.isComma = false) : ∀ t ∈ hs, t.isAnyKeyword Region.joinWords := by
  intro t ht
  have hmem : t.spelled ∈ l.separator := h.separator ▸ List.mem_map_of_mem ht
  rw [separator_of_not_isComma hcomma] at hmem
  obtain ⟨word, hword, heq⟩ := List.mem_map.1 hmem
  have hkind : t.kind = .keyword word := (congrArg Prod.fst heq).symm
  simpa [Token.isAnyKeyword, hkind] using l.words_subset hword

theorem kind_of_isComma (hcomma : l.isComma) : ∃ t, hs = [t] ∧ t.kind = .comma := by
  obtain ⟨t, rfl, ht⟩ :=
    List.map_eq_singleton_iff.1 (h.separator.trans (separator_of_isComma hcomma))
  exact ⟨t, rfl, congrArg Prod.fst ht⟩

theorem isLinkWord : ∀ t ∈ hs, t.isLinkWord := by
  cases hcomma : l.isComma with
  | true =>
      obtain ⟨t, rfl, ht⟩ := h.kind_of_isComma hcomma
      simp [Token.isLinkWord, ht]
  | false =>
      intro t ht
      simp [Token.isLinkWord, h.isJoinWord hcomma t ht]

/-- A condition is an `ON` and a comparison. -/
theorem condition_cases : cs = [] ∧ l.condition? = none ∨
    ∃ on ds, cs = on :: ds ∧ l.condition?.isSome ∧ on.kind = .keyword .ON ∧
      ∀ d ∈ ds, d.isOperand := by
  have hcondition := h.condition
  cases hsome : l.condition? with
  | none =>
      rw [hsome] at hcondition
      exact .inl ⟨List.map_eq_nil_iff.1 hcondition, rfl⟩
  | some c =>
      rw [hsome] at hcondition
      obtain ⟨on, ds, rfl, hon, hds⟩ := List.map_eq_cons_iff.1 hcondition
      refine .inr ⟨on, ds, rfl, rfl, congrArg Prod.fst hon, fun d hd => ?_⟩
      exact Token.isOperand_of_condition (hds ▸ List.mem_map_of_mem hd)

theorem condition_of_isComma (hcomma : l.isComma) : cs = [] := by
  have hnone : l.condition? = none := by
    cases l <;> simp_all [TableLink.isComma, TableLink.condition?]
  rcases h.condition_cases with ⟨hnil, -⟩ | ⟨on, ds, -, hsome, -⟩
  · exact hnil
  · simp [hnone] at hsome

theorem endsTable_condition (hus : EndsTable us) : EndsTable (cs ++ us) := by
  rcases h.condition_cases with ⟨rfl, -⟩ | ⟨on, ds, rfl, -, hon, -⟩
  · exact hus
  · simp [EndsTable, Token.endsTable, Token.isKeyword, hon]

end Parts

/-- What stands behind the first token of a link opens no group. -/
theorem Parts.startsOpen_behind {j : Token} {js : List Token} (h : l.Parts (j :: js) is cs)
    (us : List Token) : startsOpen (js ++ (is ++ us)) = false :=
  startsOpen_linkWords (fun t ht => h.isLinkWord t (List.mem_cons_of_mem j ht))
    (startsOpen_item h.item us)

end TableLink

/-- The tokens of the links of a list. -/
def AreLinks (ls : List TableLink) (ts : List Token) : Prop :=
  ts.map Token.spelled = ls.flatMap TableLink.spelled

namespace AreLinks

variable {ls : List TableLink} {ts : List Token}

theorem eq_nil (h : AreLinks [] ts) : ts = [] :=
  List.map_eq_nil_iff.1 h

theorem exists_parts {l : TableLink} (h : AreLinks (l :: ls) ts) :
    ∃ hs is cs us, l.Parts hs is cs ∧ AreLinks ls us ∧ ts = hs ++ (is ++ (cs ++ us)) :=
  TableLink.exists_parts h

theorem endsTable (h : AreLinks ls ts) : EndsTable ts := by
  cases ls with
  | nil =>
      rw [h.eq_nil]
      exact fun t ht => by contradiction
  | cons l ls =>
      obtain ⟨hs, is, cs, us, hparts, -, rfl⟩ := h.exists_parts
      obtain ⟨j, js, rfl⟩ := hparts.exists_cons
      have hj := hparts.isLinkWord j List.mem_cons_self
      intro t ht
      obtain rfl := Option.some.inj ht
      simp [Token.endsTable, hj]

/-- A condition is stepped over up to the links. -/
theorem skipCondition_eq (h : AreLinks ls ts) : skipCondition ts = ts := by
  cases ls with
  | nil => rw [h.eq_nil, skipCondition]
  | cons l ls =>
      obtain ⟨hs, is, cs, us, hparts, -, rfl⟩ := h.exists_parts
      obtain ⟨j, js, rfl⟩ := hparts.exists_cons
      obtain ⟨-, hopen, -⟩ := Token.of_endsTable (h.endsTable j rfl)
      have hstop : j.kind = .comma ∨ Region.startsJoin j (js ++ (is ++ (cs ++ us))) := by
        cases hcomma : l.isComma with
        | true =>
            obtain ⟨t, heq, ht⟩ := hparts.kind_of_isComma hcomma
            obtain ⟨rfl, -⟩ := List.cons.inj heq
            exact .inl ht
        | false =>
            refine .inr ?_
            simp [Region.startsJoin, hparts.isJoinWord hcomma j List.mem_cons_self,
              hparts.startsOpen_behind]
      rw [List.cons_append, skipCondition, if_neg (by simp [hopen]), if_pos (by simpa using hstop)]

end AreLinks

theorem skipCondition_operands {ds : List Token} (h : ∀ d ∈ ds, d.isOperand) (ts : List Token) :
    skipCondition (ds ++ ts) = skipCondition ts := by
  induction ds with
  | nil => rfl
  | cons d ds ih =>
      obtain ⟨hd, hds⟩ := List.forall_mem_cons.1 h
      obtain ⟨hopen, hcomma, hword⟩ := Token.of_isOperand hd
      have hjoin := Token.isAnyKeyword_of_ne hword Region.joinWords
      rw [List.cons_append, skipCondition, if_neg (by simp [hopen]),
        if_neg (by simp [hcomma, Region.startsJoin, hjoin]), ih hds]

/-! ### A list in parentheses -/

section

variable (nested : List Token → Statement) (clause : Clause)

theorem tableList_condition {l : TableLink} {hs is cs : List Token} (h : l.Parts hs is cs)
    {ls : List TableLink} {ts : List Token} (hts : AreLinks ls ts) :
    tableList nested clause (cs ++ ts) = tableList nested clause ts := by
  rcases h.condition_cases with ⟨rfl, -⟩ | ⟨on, ds, rfl, -, hon, hds⟩
  · rfl
  · rw [List.cons_append, tableList, if_pos (by simp [Token.isKeyword, hon]),
      skipCondition_operands hds, hts.skipCondition_eq]

theorem refs_tableList_parts {l : TableLink} {hs is cs : List Token} (h : l.Parts hs is cs)
    {ts : List Token} (hts : EndsTable ts) :
    (tableList nested clause (hs ++ (is ++ ts))).refs =
      l.item.ref :: (tableList nested clause ts).refs := by
  rw [tableList_linkWords nested clause h.isLinkWord, refs_tableList_item nested clause h.item hts]

/-- One pass over a list finds all items. -/
theorem refs_tableList_links {ls : List TableLink} {ts : List Token} (h : AreLinks ls ts) :
    (tableList nested clause ts).refs = ls.map fun l => l.item.ref := by
  induction ls generalizing ts with
  | nil =>
      rw [h.eq_nil, tableList]
      rfl
  | cons l ls ih =>
      obtain ⟨hs, is, cs, us, hparts, hus, rfl⟩ := h.exists_parts
      rw [refs_tableList_parts nested clause hparts (hparts.endsTable_condition hus.endsTable),
        tableList_condition nested clause hparts hus, ih hus, List.map_cons]

theorem refs_tableList_listing {l : TableListing} {ts : List Token}
    (h : ts.map Token.spelled = l.spelled) :
    (tableList nested clause ts).refs = l.items.map TableItem.ref := by
  obtain ⟨is, us, rfl, his, hus⟩ := List.map_eq_append_iff.1 h
  have hus : AreLinks l.links us := hus
  rw [refs_tableList_item nested clause his hus.endsTable, refs_tableList_links nested clause hus,
    TableListing.items, List.map_cons, List.map_map]
  rfl

end

end Tsql
