import Tsql.Proofs.Statement.GroupText
import Tsql.Proofs.Token.Parts
import Tsql.Proofs.Types.Spelling

/-!
The type that a column is declared with.

A built-in type may be written with its words in any letter case and any blanks between them, in
brackets or quotes, behind a schema and in front of arguments (`TypeSpelling`). The definition of a
column keeps such a type in readable text, and that text belongs to the family of the type
(`ofTypeName?_columnDefinitions`).
-/

namespace Tsql

open Text

/-- Words with blanks between them are read one by one. -/
theorem Spells.words {cs : List Char} {ls : List (TokenKind × String)} (h : Spells cs ls)
    {ws : List (List Char)} {name : List Char} (hname : Spaced ws name)
    (hws : ∀ w ∈ ws, IsIdentifier (String.ofList w)) (hcs : EndsWord cs) :
    Spells (name ++ cs) ((ws.map fun w => (.identifier, String.ofList w)) ++ ls) := by
  induction hname with
  | last w =>
      have hspells := h.name (.bare _ (hws w List.mem_cons_self)) hcs
      simpa [WrittenName.text, WrittenName.spelled] using hspells
  | @next ws gap name w hne hgap behind ih =>
      obtain ⟨hw, hws⟩ := List.forall_mem_cons.1 hws
      obtain ⟨c, gap, rfl⟩ := List.exists_cons_of_ne_nil hne
      have hends : EndsWord (c :: gap ++ (name ++ cs)) := .of_isBlank (hgap c List.mem_cons_self) _
      have hspells := ((ih hws).blanks hgap).name (.bare _ hw) hends
      simpa [WrittenName.text, WrittenName.spelled] using hspells

/-! ### Readable text of a type -/

/-- The text that is written for tokens is cut where two of them stand close together. -/
theorem toList_tokensText_append {left right : Token} (h : left.isTightBefore right)
    (ts us : List Token) :
    (tokensText (ts ++ left :: right :: us)).toList =
      (tokensText (ts ++ [left])).toList ++ (tokensText (right :: us)).toList := by
  induction ts with
  | nil => simp [tokensText, h]
  | cons t ts ih =>
      cases ts with
      | nil => simp [tokensText, h]
      | cons u ts =>
          rw [List.cons_append, List.cons_append] at ih ⊢
          simp only [tokensText, String.toList_append, List.append_assoc, List.cons_append, ih]

theorem exists_tokensText_group {last o : Token} (hlast : last.isName)
    (ho : o.spelled = (.parenOpen, "(")) (front us : List Token) : ∃ rest,
    (tokensText (front ++ last :: o :: us)).toList =
      (tokensText (front ++ [last])).toList ++ '(' :: rest := by
  obtain ⟨hkind, htext⟩ := Prod.mk.inj ho
  have htight : last.isTightBefore o := by simp [Token.isTightBefore, hkind, hlast]
  obtain ⟨rest, hrest⟩ := exists_tokensText_cons o us
  refine ⟨rest, ?_⟩
  rw [toList_tokensText_append htight, hrest]
  simp [Token.display, hkind, htext]

/-- Words are written with single blanks between them. -/
theorem toList_tokensText_words {ts : List Token} {ws : List (List Char)}
    (h : ts.map Token.spelled = ws.map fun w => (.identifier, String.ofList w)) :
    (tokensText ts).toList = joinWith [' '] ws := by
  induction ws generalizing ts with
  | nil => simp [List.map_eq_nil_iff.1 h, tokensText, joinWith]
  | cons w ws ih =>
      obtain ⟨t, us, rfl, ht, hus⟩ := List.map_eq_cons_iff.1 h
      obtain ⟨hkind, htext⟩ := Prod.mk.inj ht
      have hdisplay : t.display.toList = w := by simp [Token.display, hkind, htext]
      cases ws with
      | nil => simp [List.map_eq_nil_iff.1 hus, tokensText, joinWith, hdisplay]
      | cons v ws =>
          have hrest := ih hus
          obtain ⟨u, us, rfl, hu, -⟩ := List.map_eq_cons_iff.1 hus
          have hloose : t.isTightBefore u = false := by
            simp [Token.isTightBefore, hkind, show u.kind = .identifier from congrArg Prod.fst hu]
          simp [tokensText, hloose, hdisplay, hrest, joinWith_cons_cons]

/-- A name without parentheses is written without them. -/
theorem Token.exists_display_of_name {t : Token} {n : WrittenName} (h : t.spelled = n.spelled)
    (hparen : '(' ∉ n.name.toList) :
    ∃ c rest, t.display.toList = c :: rest ∧ isBlank c = false ∧ '(' ∉ c :: rest := by
  obtain ⟨hkind, htext⟩ := Prod.mk.inj h
  cases n with
  | bare name hname =>
      obtain ⟨c, rest, heq, hstart, _⟩ := hname
      refine ⟨c, rest, ?_, isBlank_of_isWordChar (isWordChar_of_startsWord hstart), heq ▸ hparen⟩
      simpa [display, hkind, htext] using heq
  | delimited opening hopening name =>
      refine ⟨'[', Delimited.doubled ']' name.toList ++ [']'], ?_, by decide, ?_⟩
      · simp [display, hkind, htext, Delimited.enclose]
      · simpa [Delimited.mem_doubled, WrittenName.name] using hparen

/-- Whether the token is a name or a dot. -/
def Token.isNamePart (t : Token) : Bool :=
  t.isName || t.kind = .dot

theorem Token.of_isNamePart {t : Token} (h : t.isNamePart) :
    t.kind ≠ .comma ∧ (t.isOpen = false ∧ t.isClose = false) ∧ t.isAnyKeyword typeEnds = false := by
  unfold isNamePart isName at h
  cases hkind : t.kind <;> simp_all [isOpen, isClose, isAnyKeyword]

/-! ### Types as they are written -/

/-- A way to write the type of the name `b`: its words in any letter case and with any blanks
between them, perhaps in brackets or quotes, behind a schema or in front of arguments. -/
structure TypeSpelling (b : String) where
  words : List (List Char)
  areWords : AreWordsOf b words
  name : List Char
  spaced : Spaced words name
  opening : Option Char := none
  opens : ∀ o ∈ opening, o = '[' ∨ o = '"'
  schema : Option WrittenName := none
  schemaHasNoParen : ∀ s ∈ schema, '(' ∉ s.name.toList
  arguments : Option String := none
  isGroup : ∀ a ∈ arguments, IsGroupText a

namespace TypeSpelling

variable {b : String} (d : TypeSpelling b)

def nameText : List Char :=
  d.opening.elim d.name fun o => o :: (d.name ++ [Lexer.closing o])

def text : String :=
  (d.schema.elim "" fun s => s.text ++ ".") ++ String.ofList d.nameText ++ d.arguments.getD ""

def schemaSpelled : List (TokenKind × String) :=
  d.schema.elim [] fun s => [s.spelled, (.dot, ".")]

def nameSpelled : List (TokenKind × String) :=
  if d.opening.isSome then [(.bracketed, String.ofList d.name)]
  else d.words.map fun w => (.identifier, String.ofList w)

def argumentsSpelled : List (TokenKind × String) :=
  d.arguments.elim [] fun a => (tokenize a).map Token.spelled

variable {f : TypeFamily} (hb : b ∈ f.typeNames)

include hb

/-- A name that is in delimiters holds none of them. -/
theorem notMem_name {c : Char} (hword : isWordChar c = false) (hblank : isBlank c = false) :
    c ∉ d.name :=
  d.areWords.notMem_of_spaced hb d.spaced hword hblank

theorem spells_name {cs : List Char} {ls : List (TokenKind × String)} (h : Spells cs ls)
    (hcs : EndsWord cs) : Spells (d.nameText ++ cs) (d.nameSpelled ++ ls) := by
  unfold nameText nameSpelled
  cases hopening : d.opening with
  | some o =>
      have ho := d.opens o hopening
      have hclosing : Lexer.closing o ∉ d.name := by
        rcases ho with rfl | rfl <;> exact d.notMem_name hb (by decide) (by decide)
      have hname := h.name (.delimited o ho (String.ofList d.name)) hcs
      simpa [WrittenName.text, WrittenName.spelled, Delimited.enclose,
        Delimited.doubled_of_notMem hclosing] using hname
  | none =>
      simpa using h.words d.spaced (d.areWords.isIdentifier hb) hcs

theorem spells_text {cs : List Char} {ls : List (TokenKind × String)} (h : Spells (' ' :: cs) ls) :
    Spells (d.text.toList ++ ' ' :: cs)
      (d.schemaSpelled ++ (d.nameSpelled ++ (d.argumentsSpelled ++ ls))) := by
  have harguments : EndsWord ((d.arguments.getD "").toList ++ ' ' :: cs) ∧
      Spells ((d.arguments.getD "").toList ++ ' ' :: cs) (d.argumentsSpelled ++ ls) := by
    unfold argumentsSpelled
    cases ha : d.arguments with
    | none => exact ⟨.blank cs, h⟩
    | some a => exact ⟨(d.isGroup a ha).endsWord _, h.group (d.isGroup a ha)⟩
  have hname := d.spells_name hb harguments.2 harguments.1
  unfold schemaSpelled text
  cases hs : d.schema with
  | none => simpa using hname
  | some s => simpa using hname.dot.name s (.dot _)

/-- The tokens of a definition that gives the column this type. -/
theorem exists_tokens : ∃ t ss ns gs ends,
    tokenize ("c " ++ d.text ++ " NOT NULL") = t :: (ss ++ (ns ++ (gs ++ ends))) ∧
      t.spelled = (.identifier, "c") ∧ ss.map Token.spelled = d.schemaSpelled ∧
        ns.map Token.spelled = d.nameSpelled ∧ gs.map Token.spelled = d.argumentsSpelled ∧
          ends.map Token.spelled = [Keyword.NOT.spelled, Keyword.NULL.spelled] := by
  have hend := ((Spells.nil.keyword .NULL .nil).blank.keyword .NOT (.blank _)).blank
  have hcolumn : IsIdentifier "c" :=
    ⟨'c', [], rfl, by decide, List.forall_mem_nil _, by decide +kernel⟩
  have htext := (d.spells_text hb hend).blank.name (.bare "c" hcolumn) (.blank _)
  have htokens : (tokenize ("c " ++ d.text ++ " NOT NULL")).map Token.spelled =
      (.identifier, "c") :: (d.schemaSpelled ++ (d.nameSpelled ++ (d.argumentsSpelled ++
        [Keyword.NOT.spelled, Keyword.NULL.spelled]))) := by
    simpa [tokenize, tokenizeFrom, Keyword.letters, WrittenName.text, WrittenName.spelled] using
      htext .origin
  obtain ⟨t, ts, heq, ht, hts⟩ := List.map_eq_cons_iff.1 htokens
  obtain ⟨ss, ts, rfl, hss, hts⟩ := List.map_eq_append_iff.1 hts
  obtain ⟨ns, ts, rfl, hns, hts⟩ := List.map_eq_append_iff.1 hts
  obtain ⟨gs, ends, rfl, hgs, hends⟩ := List.map_eq_append_iff.1 hts
  exact ⟨t, ss, ns, gs, ends, heq, ht, hss, hns, hgs, hends⟩

omit hb in
/-- The schema is written in front of the name with a dot behind it. -/
theorem exists_schemaText {ss : List Token} (hss : ss.map Token.spelled = d.schemaSpelled)
    (t : Token) (ts : List Token) : ∃ shown,
    (tokensText (ss ++ t :: ts)).toList = shown ++ (tokensText (t :: ts)).toList ∧
      (shown = [] ∨
        ∃ c front, shown = c :: front ++ ['.'] ∧ isBlank c = false ∧ '(' ∉ c :: front) := by
  unfold schemaSpelled at hss
  cases hs : d.schema with
  | none =>
      rw [hs] at hss
      exact ⟨[], by rw [List.map_eq_nil_iff.1 hss]; rfl, .inl rfl⟩
  | some s =>
      rw [hs] at hss
      obtain ⟨u, us, rfl, hu, hus⟩ := List.map_eq_cons_iff.1 hss
      obtain ⟨dot, rfl, hdot⟩ := List.map_eq_singleton_iff.1 hus
      obtain ⟨hkind, htext⟩ := Prod.mk.inj hdot
      have htight : dot.isTightBefore t := by simp [Token.isTightBefore, hkind]
      have hclose : u.isTightBefore dot := by simp [Token.isTightBefore, hkind]
      have hshown : (tokensText [u, dot]).toList = u.display.toList ++ ['.'] := by
        simp [tokensText, hclose, Token.display, hkind, htext]
      refine ⟨u.display.toList ++ ['.'], ?_, .inr ?_⟩
      · rw [← hshown]
        exact toList_tokensText_append htight [u] ts
      · obtain ⟨c, rest, hdisplay, hsolid, hparen⟩ :=
          Token.exists_display_of_name hu (d.schemaHasNoParen s hs)
        exact ⟨c, rest, by rw [hdisplay], hsolid, hparen⟩

/-- The name is written as its words one blank apart, or in brackets as it stands there. -/
theorem exists_nameText {ns : List Token} (hns : ns.map Token.spelled = d.nameSpelled) :
    (∃ front last, ns = front ++ [last] ∧ last.isName) ∧ ∃ shown, Spaced d.words shown ∧
      ((tokensText ns).toList = shown ∨ (tokensText ns).toList = '[' :: (shown ++ [']'])) := by
  unfold nameSpelled at hns
  split at hns
  · obtain ⟨t, rfl, ht⟩ := List.map_eq_singleton_iff.1 hns
    obtain ⟨hkind, htext⟩ := Prod.mk.inj ht
    refine ⟨⟨[], t, rfl, by simp [Token.isName, hkind]⟩, d.name, d.spaced, .inr ?_⟩
    have hclosing : ']' ∉ d.name := d.notMem_name hb (by decide) (by decide)
    simp [tokensText, Token.display, hkind, htext, Delimited.enclose,
      Delimited.doubled_of_notMem hclosing]
  · have hne := d.areWords.ne_nil hb
    have hnne : ns ≠ [] := by
      rintro rfl
      exact hne (List.map_eq_nil_iff.1 hns.symm)
    refine ⟨⟨_, ns.getLast hnne, (List.dropLast_concat_getLast hnne).symm, ?_⟩, _, .joinWith hne,
      .inl (toList_tokensText_words hns)⟩
    have hmem : (ns.getLast hnne).spelled ∈ ns.map Token.spelled :=
      List.mem_map_of_mem (List.getLast_mem hnne)
    rw [hns] at hmem
    obtain ⟨w, -, hw⟩ := List.mem_map.1 hmem
    simp [Token.isName, show (ns.getLast hnne).kind = .identifier from (congrArg Prod.fst hw).symm]

omit hb in
theorem isNamePart_of_mem {ss ns : List Token} (hss : ss.map Token.spelled = d.schemaSpelled)
    (hns : ns.map Token.spelled = d.nameSpelled) : ∀ t ∈ ss ++ ns, t.isNamePart := by
  have hspelled : ∀ x ∈ d.schemaSpelled ++ d.nameSpelled,
      x.1 = .identifier ∨ x.1 = .bracketed ∨ x.1 = .dot := by
    unfold schemaSpelled nameSpelled
    refine List.forall_mem_append.2 ⟨?_, ?_⟩
    · cases d.schema with
      | none => exact List.forall_mem_nil _
      | some s => cases s <;> simp [WrittenName.spelled]
    · split <;> simp
  intro t ht
  rw [← hss, ← hns, ← List.map_append] at hspelled
  have hkind : t.kind = .identifier ∨ t.kind = .bracketed ∨ t.kind = .dot :=
    hspelled _ (List.mem_map_of_mem ht)
  simpa [Token.isNamePart, Token.isName, or_assoc] using hkind

omit hb in
theorem argumentTokens_cases {gs : List Token} (hgs : gs.map Token.spelled = d.argumentsSpelled) :
    gs = [] ∨ ∃ o us c, gs = o :: (us ++ [c]) ∧ o.spelled = (.parenOpen, "(") ∧ isBalanced us ∧
      c.isClose := by
  unfold argumentsSpelled at hgs
  cases ha : d.arguments with
  | none =>
      rw [ha] at hgs
      exact .inl (List.map_eq_nil_iff.1 hgs)
  | some a =>
      rw [ha] at hgs
      exact .inr ((d.isGroup a ha).exists_tokens hgs)

end TypeSpelling

/-- The type of a column goes on behind its name up to the first word that ends it. -/
theorem columnDefinition?_type {t : Token} {ns : List Token} (ht : t.isName)
    (hns : ∀ t ∈ ns, t.isNamePart) (hne : ns ≠ []) (us : List Token) :
    columnDefinition? (t :: (ns ++ us)) =
      some { name := t.text
             dataType :=
               some (tokensText (ns ++ us.takeWhile fun u => !u.isAnyKeyword typeEnds)) } := by
  have htype : (ns ++ us).takeWhile (fun u => !u.isAnyKeyword typeEnds) =
      ns ++ us.takeWhile fun u => !u.isAnyKeyword typeEnds :=
    List.takeWhile_append_of_pos fun u hu => by simp [(Token.of_isNamePart (hns u hu)).2.2]
  rw [columnDefinition?, if_pos ht, htype]
  simp [hne]

namespace TypeSpelling

variable {b : String} (d : TypeSpelling b) {ss ns gs ends : List Token}
  (hgs : gs.map Token.spelled = d.argumentsSpelled)
  (hends : ends.map Token.spelled = [Keyword.NOT.spelled, Keyword.NULL.spelled])

include hgs hends

/-- The definition is one part, as its commas stand in the arguments. -/
theorem uncut {t : Token} (ht : t.isName) (hparts : ∀ t ∈ ss ++ ns, t.isNamePart) :
    Uncut .comma 0 (t :: (ss ++ ns ++ (gs ++ ends))) := by
  have hends : Uncut .comma 0 ends := by
    have hkeyword : ∀ x ∈ ends.map Token.spelled, x.1 ≠ .comma := by
      rw [hends]
      simp [Keyword.spelled]
    exact .of_ne (fun u hu => hkeyword _ (List.mem_map_of_mem hu)) 0
  have hgroup : Uncut .comma 0 gs ∧ depthAfter 0 gs = 0 := by
    rcases d.argumentTokens_cases hgs with rfl | ⟨o, us, c, rfl, ho, hus, hc⟩
    · exact ⟨trivial, rfl⟩
    · have hopen : o.kind = .parenOpen := congrArg Prod.fst ho
      exact Uncut.of_group (by simp [Token.isOpen, hopen]) hus hc (by simp [hopen])
  have hall : ∀ u ∈ t :: (ss ++ ns), u.isNamePart :=
    List.forall_mem_cons.2 ⟨by simp [Token.isNamePart, ht], hparts⟩
  have hflat := depthAfter_eq_self (fun u hu => (Token.of_isNamePart (hall u hu)).2.1) 0
  rw [← List.cons_append]
  refine (Uncut.of_ne (fun u hu => (Token.of_isNamePart (hall u hu)).1) 0).append ?_
  rw [hflat]
  exact hgroup.1.append (hgroup.2.symm ▸ hends)

/-- The type ends in front of the constraint, or in its arguments. -/
theorem tail_cases : ((gs ++ ends).takeWhile fun u => !u.isAnyKeyword typeEnds) = [] ∨
    ∃ o us, ((gs ++ ends).takeWhile fun u => !u.isAnyKeyword typeEnds) = o :: us ∧
      o.spelled = (.parenOpen, "(") := by
  rcases d.argumentTokens_cases hgs with rfl | ⟨o, us, c, rfl, ho, -, -⟩
  · obtain ⟨u, us, rfl, hu, -⟩ := List.map_eq_cons_iff.1 hends
    have hkind : u.kind = .keyword .NOT := congrArg Prod.fst hu
    refine .inl (List.takeWhile_cons_of_neg ?_)
    simp [Token.isAnyKeyword, hkind, typeEnds]
  · have hkind : o.kind = .parenOpen := congrArg Prod.fst ho
    exact .inr ⟨o, _, List.takeWhile_cons_of_pos (by simp [Token.isAnyKeyword, hkind]), ho⟩

omit hgs hends in
theorem baseTypeName_tokensText {b : String} (d : TypeSpelling b) {f : TypeFamily}
    (hb : b ∈ f.typeNames) {ss ns tail : List Token} (hss : ss.map Token.spelled = d.schemaSpelled)
    (hns : ns.map Token.spelled = d.nameSpelled)
    (htail : tail = [] ∨ ∃ o us, tail = o :: us ∧ o.spelled = (.parenOpen, "(")) :
    baseTypeName (tokensText (ss ++ ns ++ tail)) = baseTypeName b := by
  obtain ⟨⟨front, last, rfl, hlast⟩, shown, hshown, hcore⟩ := d.exists_nameText hb hns
  obtain ⟨behind, hbehind, hend⟩ : ∃ behind, (tokensText (front ++ [last] ++ tail)).toList =
      (tokensText (front ++ [last])).toList ++ behind ∧
        (behind = [] ∨ ∃ rest, behind = '(' :: rest) := by
    rcases htail with rfl | ⟨o, us, rfl, ho⟩
    · exact ⟨[], by simp, .inl rfl⟩
    · obtain ⟨rest, hrest⟩ := exists_tokensText_group hlast ho front us
      exact ⟨'(' :: rest, by simpa using hrest, .inr ⟨rest, rfl⟩⟩
  obtain ⟨u, us, hus⟩ : ∃ u us, front ++ [last] ++ tail = u :: us :=
    List.exists_cons_of_ne_nil (by simp)
  obtain ⟨schema, hschema, hcases⟩ := d.exists_schemaText hss u us
  have htext : (tokensText (ss ++ (front ++ [last]) ++ tail)).toList =
      schema ++ (tokensText (front ++ [last])).toList ++ behind := by
    rw [List.append_assoc, hus, hschema, ← hus, hbehind, List.append_assoc]
  rw [← String.ofList_toList (s := tokensText _), htext]
  exact baseTypeName_spelled hb d.areWords hshown hcore hcases hend

end TypeSpelling

/-- The type that a column is declared with belongs to the family of the built-in type that it
spells. -/
theorem ofTypeName?_columnDefinitions {f : TypeFamily} {b : String} (hb : b ∈ f.typeNames)
    (d : TypeSpelling b) : ∃ type,
    columnDefinitions (tokenize ("c " ++ d.text ++ " NOT NULL")) =
        [{ name := "c", dataType := some type }] ∧
      TypeFamily.ofTypeName? type = TypeFamily.ofTypeName? b ∧
        TypeFamily.ofTypeName? b = some f := by
  obtain ⟨t, ss, ns, gs, ends, htokens, ht, hss, hns, hgs, hends⟩ := d.exists_tokens hb
  obtain ⟨hkind, htext⟩ := Prod.mk.inj ht
  have hname : t.isName := by simp [Token.isName, hkind]
  have hparts := d.isNamePart_of_mem hss hns
  have hne : ss ++ ns ≠ [] := by
    obtain ⟨⟨front, last, rfl, -⟩, -⟩ := d.exists_nameText hb hns
    simp
  have hcut := d.uncut hgs hends hname hparts
  have htail := d.tail_cases hgs hends
  refine ⟨_, ?_, TypeFamily.ofTypeName?_congr (d.baseTypeName_tokensText hb hss hns htail),
    TypeFamily.ofTypeName?_of_mem hb⟩
  rw [htokens, ← List.append_assoc, columnDefinitions, splitTop_of_uncut hcut, List.filterMap_cons,
    columnDefinition?_type hname hparts hne, htext]
  rfl

/-- A type with a schema, further blanks and a precision. -/
theorem ofTypeName?_columnDefinitions_decorated : ∃ d : TypeSpelling "double precision",
    d.text = "[dbo].Double \n PRECISION (53)" ∧ ∃ type,
      columnDefinitions (tokenize ("c " ++ d.text ++ " NOT NULL")) =
          [{ name := "c", dataType := some type }] ∧
        TypeFamily.ofTypeName? type = some .approxNumeric := by
  have hwords : AreWordsOf "double precision" ["Double".toList, "PRECISION".toList] :=
    .cons (by decide) (.cons (by decide) .nil)
  have hgap : ∀ d ∈ " \n ".toList, isBlank d := List.all_eq_true.1 (by decide)
  have hspaced := Spaced.next "Double".toList (by decide) hgap (.last "PRECISION".toList)
  have hgroup : IsGroupText " (53)" :=
    ⟨⟨.parenOpen, "(", ⟨1, 2⟩, ⟨1, 3⟩⟩, [⟨.number, "53", ⟨1, 3⟩, ⟨1, 5⟩⟩],
      ⟨.parenClose, ")", ⟨1, 5⟩, ⟨1, 6⟩⟩, by decide +kernel, rfl, rfl, rfl, by decide +kernel⟩
  let d : TypeSpelling "double precision" :=
    { words := _
      areWords := hwords
      name := _
      spaced := hspaced
      opens := by simp
      schema := some (.delimited '[' (.inl rfl) "dbo")
      schemaHasNoParen := by decide
      arguments := some " (53)"
      isGroup := by simpa using hgroup }
  obtain ⟨type, hdefinitions, hfamily, hbuiltin⟩ :=
    ofTypeName?_columnDefinitions (f := .approxNumeric) (by decide) d
  exact ⟨d, rfl, type, hdefinitions, hfamily.trans hbuiltin⟩

end Tsql
