import Tsql.Proofs.Statement.Listing

/-!
Dotted names with labels, as they are written, and the tables that are read of them.

A part of such a name may be any text, since it is a token of its own that is taken for nothing but
a name (`DottedItem.IsPart`). The reader of a table takes all parts of the name and the label, and
leaves what stands behind them (`namedTable_dotted`).
-/

namespace Tsql

/-! ### Dotted names as they are written -/

/-- The name in brackets. -/
def WrittenName.bracketed (name : String) : WrittenName :=
  .delimited '[' (.inl rfl) name

@[simp] theorem WrittenName.name_bracketed (name : String) : (bracketed name).name = name :=
  rfl

/-- A name with other names and dots in front of it, and perhaps a label. -/
structure DottedItem where
  /-- The names in front of dots. -/
  outer : List WrittenName
  last : TableItem

namespace DottedItem

def text (i : DottedItem) : String :=
  String.join (i.outer.map fun n => n.text ++ ".") ++ i.last.text

/-- The names with the dots behind them. -/
def dotted (outer : List WrittenName) : List (TokenKind × String) :=
  outer.flatMap fun n => [n.spelled, (.dot, ".")]

def spelled (i : DottedItem) : List (TokenKind × String) :=
  dotted i.outer ++ i.last.spelled

end DottedItem

/-! ### Tokens of a dotted name -/

namespace DottedItem

variable {i : DottedItem} {t : Token} {ts : List Token}

/-- A token of a dotted name and its label. -/
def IsPart (t : Token) : Prop :=
  t.isName ∨ t.kind = .dot ∨ t.kind = .keyword .AS

theorem isPart_of_mem (h : t.spelled ∈ i.spelled) : IsPart t := by
  have hname : ∀ {n : WrittenName}, t.spelled = n.spelled → IsPart t :=
    fun heq => .inl (Token.of_spelled heq).1
  rcases List.mem_append.1 h with houter | hlast
  · obtain ⟨n, -, hn⟩ := List.mem_flatMap.1 houter
    simp only [List.mem_cons, List.not_mem_nil, or_false] at hn
    rcases hn with hn | hdot
    · exact hname hn
    · exact .inr (.inl (congrArg Prod.fst hdot))
  · rcases List.mem_cons.1 hlast with hn | hlabel
    · exact hname hn
    · cases ha : i.last.label with
      | none => simp [ha] at hlabel
      | some a =>
          simp only [ha, Option.elim_some, List.mem_cons, List.not_mem_nil, or_false] at hlabel
          rcases hlabel with has | hn
          · exact .inr (.inr (congrArg Prod.fst has))
          · exact hname hn

theorem isPart_of_map (h : ts.map Token.spelled = i.spelled) : ∀ t ∈ ts, IsPart t :=
  fun _ ht => isPart_of_mem (h ▸ List.mem_map_of_mem ht)

namespace IsPart

variable (h : IsPart t)

include h

theorem continues : t.Continues := by
  rcases h with hname | hdot | has
  · obtain ⟨hopen, hword⟩ := Token.of_isName hname
    exact Token.continues_of_ne hopen hword
  · exact Token.continues_of_ne (by simp [Token.isOpen, hdot]) (by simp [hdot])
  · refine ⟨by simp [Token.isOpen, has], fun word heq => ?_⟩
    exact (TokenKind.keyword.inj (has.symm.trans heq)).symm

theorem kind_ne_comma : t.kind ≠ .comma := by
  rcases h with hname | hdot | has
  · rintro hcomma
    simp [Token.isName, hcomma] at hname
  · simp [hdot]
  · simp [has]

theorem isFlat : t.isOpen = false ∧ t.isClose = false := by
  rcases h with hname | hdot | has
  · unfold Token.isName at hname
    cases hkind : t.kind <;> simp_all [Token.isOpen, Token.isClose]
  · simp [Token.isOpen, Token.isClose, hdot]
  · simp [Token.isOpen, Token.isClose, has]

end IsPart

theorem exists_name (h : ts.map Token.spelled = i.spelled) : ∃ t us, ts = t :: us ∧ t.isName := by
  obtain ⟨outer, last⟩ := i
  cases outer <;>
  · obtain ⟨t, us, rfl, ht, -⟩ := List.map_eq_cons_iff.1 h
    exact ⟨t, us, rfl, (Token.of_spelled ht).1⟩

/-- The parts of the item and the tokens of its label. -/
theorem exists_label (h : ts.map Token.spelled = i.spelled) :
    ∃ ns us, ts = ns ++ us ∧ ns.map Token.spelled = dotted i.outer ++ [i.last.table.spelled] ∧
      us.map Token.spelled = i.last.label.elim [] fun a => [Keyword.AS.spelled, a.spelled] := by
  have hsplit : i.spelled = dotted i.outer ++ [i.last.table.spelled] ++
      i.last.label.elim [] fun a => [Keyword.AS.spelled, a.spelled] := by
    simp [spelled, TableItem.spelled]
  obtain ⟨ns, us, rfl, hns, hus⟩ := List.map_eq_append_iff.1 (h.trans hsplit)
  exact ⟨ns, us, rfl, hns, hus⟩

end DottedItem

/-! ### Reading a table -/

section

variable {rest : List Token}

/-- Behind a dot the parts of a name are read to its end. -/
theorem nameTail_dotted {outer : List WrittenName} {n : WrittenName} {d : Token} {ts : List Token}
    (hd : d.kind = .dot) (hts : ts.map Token.spelled = DottedItem.dotted outer ++ [n.spelled])
    (h : EndsName rest) :
    nameTail (d :: (ts ++ rest)) = (some ((outer ++ [n]).map WrittenName.name), rest) := by
  -- Each step takes a dot and the name behind it, which leaves the next dot in front.
  induction outer generalizing d ts with
  | nil =>
      obtain ⟨t, rfl, ht⟩ := List.map_eq_singleton_iff.1 hts
      obtain ⟨hname, htext⟩ := Token.of_spelled ht
      simp [nameTail, hd, hname, htext, nameTail_of_endsName h]
  | cons m outer ih =>
      obtain ⟨t, us, rfl, ht, hus⟩ := List.map_eq_cons_iff.1 hts
      obtain ⟨d', us, rfl, hd', hus⟩ := List.map_eq_cons_iff.1 hus
      obtain ⟨hname, htext⟩ := Token.of_spelled ht
      have htail := ih (congrArg Prod.fst hd') hus
      simp only [List.cons_append] at htail ⊢
      rw [nameTail, if_pos hd]
      simp [hname, htext, htail]

theorem tableName_dotted {outer : List WrittenName} {n : WrittenName} {ts : List Token}
    (hts : ts.map Token.spelled = DottedItem.dotted outer ++ [n.spelled]) (h : EndsName rest) :
    ∃ range, tableName (ts ++ rest) =
      (some (.ofParts ((outer ++ [n]).map WrittenName.name) range), rest) := by
  cases outer with
  | nil =>
      obtain ⟨t, rfl, ht⟩ := List.map_eq_singleton_iff.1 hts
      obtain ⟨hname, htext⟩ := Token.of_spelled ht
      simp [tableName, hname, htext, nameTail_of_endsName h]
  | cons m outer =>
      obtain ⟨t, us, rfl, ht, hus⟩ := List.map_eq_cons_iff.1 hts
      obtain ⟨d, us, rfl, hd, hus⟩ := List.map_eq_cons_iff.1 hus
      obtain ⟨hname, htext⟩ := Token.of_spelled ht
      simp [tableName, hname, htext, nameTail_dotted (congrArg Prod.fst hd) hus h]

theorem namedTable_dotted {i : DottedItem} {ts : List Token}
    (hts : ts.map Token.spelled = i.spelled) (h : EndsTable rest) :
    ∃ range, namedTable (ts ++ rest) =
      (some { TableRef.ofParts ((i.outer ++ [i.last.table]).map WrittenName.name) range with
        aliasName := i.last.label.map WrittenName.name }, rest) := by
  obtain ⟨ns, us, rfl, hns, hus⟩ := DottedItem.exists_label hts
  obtain ⟨hends, halias⟩ := tableAlias_label h hus
  obtain ⟨range, hname⟩ := tableName_dotted hns hends
  simp [namedTable, hname, callArguments_of_endsName hends, skipHints_of_endsName hends, halias,
    skipHints_of_endsName h.endsName, TableRef.ofParts]

end

end Tsql
