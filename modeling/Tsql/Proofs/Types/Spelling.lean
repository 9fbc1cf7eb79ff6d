import Tsql.Proofs.Elements.Typed
import Tsql.Proofs.Text.Parts
import Tsql.Proofs.Token.Reserved
import Tsql.Types.Check

/-!
Spellings of the names of built-in types.

A name is spelled with its words in any letter case and any blanks between them. Brackets around
it, a schema in front of it and arguments behind it do not matter (`baseTypeName_spelled`), so it
belongs to the family of the name that it spells.
-/

namespace Tsql

open Text

/-! ### Words of type names -/

/-- Whether the word, in lower case, is an unquoted name. -/
def isTypeWord : List Char → Bool
  | [] => false
  | c :: tail =>
    startsWord c.toLower && (tail.all fun d => isWordChar d.toLower) &&
      (Keyword.ofWord? (c :: tail)).isNone

/-- The words of the name, in any letter case. -/
def AreWordsOf (b : String) (ws : List (List Char)) : Prop :=
  List.Forall₂ (fun w v => sameFolded w v) ws (words b.toList)

namespace TypeFamily

theorem all_typeNames : all.all fun f => f.typeNames.all fun b =>
    ofTypeName? b = some f ∧ words b.toList ≠ [] ∧ (words b.toList).all isTypeWord ∧
      (joinWith [' '] (words b.toList)).map Char.toLower = baseTypeName b := by
  decide +kernel

theorem ofTypeName?_congr {a b : String} (h : baseTypeName a = baseTypeName b) :
    ofTypeName? a = ofTypeName? b := by
  rw [ofTypeName?, ofTypeName?, h]

variable {f : TypeFamily} {b : String} (hb : b ∈ f.typeNames)

include hb

theorem of_mem_typeNames : ofTypeName? b = some f ∧ words b.toList ≠ [] ∧
    (∀ v ∈ words b.toList, isTypeWord v) ∧
      (joinWith [' '] (words b.toList)).map Char.toLower = baseTypeName b := by
  have hall := List.all_eq_true.1 (List.all_eq_true.1 all_typeNames f f.mem_all) b hb
  simpa only [decide_eq_true_eq, List.all_eq_true] using hall

theorem ofTypeName?_of_mem : ofTypeName? b = some f :=
  (of_mem_typeNames hb).1

end TypeFamily

theorem isIdentifier_of_sameFolded {w v : List Char} (h : sameFolded w v) (hv : isTypeWord v) :
    IsIdentifier (String.ofList w) := by
  have hmap : w.map Char.toLower = v.map Char.toLower := by simpa [sameFolded] using h
  cases v with
  | nil => contradiction
  | cons e v =>
      obtain ⟨c, tail, rfl, hc, htail⟩ := List.map_eq_cons_iff.1 hmap
      obtain ⟨⟨hstart, hall⟩, hnone⟩ :
          (startsWord e.toLower ∧ ∀ d ∈ v, isWordChar d.toLower) ∧
            Keyword.ofWord? (e :: v) = none := by
        simpa [isTypeWord] using hv
      refine ⟨c, tail, String.toList_ofList, ?_, fun d hd => ?_, ?_⟩
      · exact of_toLower (fun c hc => startsWord_of_isAlpha hc) (hc ▸ hstart)
      · have hmem : d.toLower ∈ v.map Char.toLower := htail ▸ List.mem_map_of_mem hd
        obtain ⟨e, he, heq⟩ := List.mem_map.1 hmem
        exact of_toLower (fun c hc => isWordChar_of_startsWord (startsWord_of_isAlpha hc))
          (heq ▸ hall e he)
      · rw [isReserved, String.toList_ofList, Keyword.ofWord?_congr h, hnone]
        rfl

namespace AreWordsOf

variable {f : TypeFamily} {b : String} {ws : List (List Char)} (h : AreWordsOf b ws)

include h

theorem map_toLower : ws.map (List.map Char.toLower) =
    (words b.toList).map (List.map Char.toLower) := by
  have heq : List.Forall₂ (fun w v => w.map Char.toLower = v.map Char.toLower) ws
      (words b.toList) :=
    h.imp fun _ _ hsame => by simpa [sameFolded] using hsame
  rw [← List.forall₂_eq_eq_eq]
  exact List.forall₂_map_left_iff.2 (List.forall₂_map_right_iff.2 heq)

variable (hb : b ∈ f.typeNames)

include hb

theorem ne_nil : ws ≠ [] := by
  rintro rfl
  exact (TypeFamily.of_mem_typeNames hb).2.1 (List.forall₂_nil_left_iff.1 h)

theorem isIdentifier : ∀ w ∈ ws, IsIdentifier (String.ofList w) := by
  obtain ⟨-, -, hwords, -⟩ := TypeFamily.of_mem_typeNames hb
  intro w hw
  obtain ⟨v, hv, heq⟩ := List.mem_map.1 (h.map_toLower ▸ List.mem_map_of_mem hw)
  exact isIdentifier_of_sameFolded (by simp [sameFolded, heq]) (hwords v hv)

theorem wordlike : ∀ w ∈ ws, w ≠ [] ∧ ∀ d ∈ w, isWordChar d := by
  intro w hw
  obtain ⟨c, tail, heq, hstart, htail, -⟩ := h.isIdentifier hb w hw
  rw [String.toList_ofList] at heq
  rw [heq]
  exact ⟨List.cons_ne_nil c tail, List.forall_mem_cons.2 ⟨isWordChar_of_startsWord hstart, htail⟩⟩

theorem solid : ∀ w ∈ ws, w ≠ [] ∧ ∀ d ∈ w, isBlank d = false := fun w hw =>
  have ⟨hne, hchars⟩ := h.wordlike hb w hw
  ⟨hne, fun d hd => isBlank_of_isWordChar (hchars d hd)⟩

/-- Between the words there are only blanks. -/
theorem notMem_of_spaced {name : List Char} (hname : Spaced ws name) {c : Char}
    (hword : Text.isWordChar c = false) (hblank : isBlank c = false) : c ∉ name := by
  intro hc
  rcases hname.isBlank_or_mem c hc with hc | ⟨w, hw, hmem⟩
  · exact absurd hc (by simp [hblank])
  · exact absurd ((h.wordlike hb w hw).2 c hmem) (by simp [hword])

theorem folded : (joinWith [' '] ws).map Char.toLower = baseTypeName b := by
  rw [← (TypeFamily.of_mem_typeNames hb).2.2.2, map_joinWith, map_joinWith, h.map_toLower]

end AreWordsOf

/-! ### The name of a type in its text -/

/-- Whether the character is a bracket or a double quote, which the name is without. -/
def isTypeQuote (c : Char) : Bool :=
  c = '[' || c = ']' || c = '"'

/-- What stands in front of the last dot and behind a parenthesis does not matter. -/
theorem baseTypeName_append {schema core tail : List Char}
    (hschema : schema = [] ∨ ∃ front, schema = front ++ ['.']) (hdot : '.' ∉ core)
    (hopen : '(' ∉ schema ++ core)
    (hstart : ∃ c rest, schema ++ core = c :: rest ∧ isBlank c = false)
    (hstop : ∃ front c, core = front ++ [c] ∧ isBlank c = false)
    (htail : tail = [] ∨ ∃ rest, tail = '(' :: rest) :
    baseTypeName (String.ofList (schema ++ core ++ tail)) =
      (joinWith [' '] (words (core.filter fun c => !isTypeQuote c))).map Char.toLower := by
  have htrim : trim (schema ++ core ++ tail) = schema ++ core ++ trimEnd tail := by
    have hfront : trimStart (schema ++ core ++ tail) = schema ++ core ++ tail := by
      obtain ⟨c, rest, heq, hc⟩ := hstart
      rw [heq, List.cons_append, trimStart, List.dropWhile_cons_of_neg (by simp [hc])]
    obtain ⟨front, c, rfl, hc⟩ := hstop
    rw [trim, hfront]
    simpa using trimEnd_append_cons hc (schema ++ front) tail
  have hend : ∀ d ∈ (trimEnd tail).head?, d = '(' := by
    rcases htail with rfl | ⟨rest, rfl⟩
    · simp [trimEnd]
    · have hparen := trimEnd_append_cons (c := '(') (by decide) [] rest
      rw [List.nil_append, List.nil_append] at hparen
      simp [hparen]
  have htake : (schema ++ core ++ trimEnd tail).takeWhile (· ≠ '(') = schema ++ core :=
    Lexer.takeWhile_append_of_stop (fun d hd => decide_eq_true fun heq => hopen (heq ▸ hd))
      fun d hd => by simpa using hend d hd
  have hlast : ((split (· = '.') (schema ++ core)).getLast?).getD [] = core := by
    have hcore : split (· = '.') core = [core] :=
      split_of_forall fun d hd => decide_eq_false fun heq => hdot (heq ▸ hd)
    rcases hschema with rfl | ⟨front, rfl⟩
    · simp [hcore]
    · rw [List.append_assoc, List.singleton_append, split_append_cons (by simp), hcore]
      simp
  rw [baseTypeName, String.toList_ofList, htrim, htake, hlast]
  congr 4
  funext c
  simp [isTypeQuote, Bool.and_assoc]

/-- A type that is written with the words of a built-in one, as words or in brackets, has the same
base name. -/
theorem baseTypeName_spelled {f : TypeFamily} {b : String} {ws : List (List Char)}
    {schema name core tail : List Char} (hb : b ∈ f.typeNames) (hws : AreWordsOf b ws)
    (hname : Spaced ws name) (hcore : core = name ∨ core = '[' :: (name ++ [']']))
    (hschema : schema = [] ∨ ∃ c front, schema = c :: front ++ ['.'] ∧ isBlank c = false ∧
      '(' ∉ c :: front)
    (htail : tail = [] ∨ ∃ rest, tail = '(' :: rest) :
    baseTypeName (String.ofList (schema ++ core ++ tail)) = baseTypeName b := by
  have hquiet : ∀ c, Text.isWordChar c = false → isBlank c = false → c ∉ name :=
    fun c => hws.notMem_of_spaced hb hname
  obtain ⟨hfirst, hlast⟩ := hname.exists_ends (hws.solid hb)
  have hkeep : (name.filter fun c => !isTypeQuote c) = name := by
    rw [List.filter_eq_self]
    intro c hc
    have hne : ∀ quote, Text.isWordChar quote = false → isBlank quote = false → c ≠ quote := by
      rintro quote hword hblank rfl
      exact hquiet c hword hblank hc
    simp [isTypeQuote, hne '[' (by decide) (by decide), hne ']' (by decide) (by decide),
      hne '"' (by decide) (by decide)]
  have hdot := hquiet '.' (by decide) (by decide)
  have hparen := hquiet '(' (by decide) (by decide)
  obtain ⟨hfilter, hdot, hparen, ⟨c, rest, rfl, hc⟩, hlast⟩ :
      (core.filter fun c => !isTypeQuote c) = name ∧ '.' ∉ core ∧ '(' ∉ core ∧
        (∃ c rest, core = c :: rest ∧ isBlank c = false) ∧
          ∃ front c, core = front ++ [c] ∧ isBlank c = false := by
    rcases hcore with rfl | rfl
    · exact ⟨hkeep, hdot, hparen, hfirst, hlast⟩
    · refine ⟨?_, by simp [hdot], by simp [hparen], ⟨'[', _, rfl, by decide⟩, '[' :: name, ']', rfl,
        by decide⟩
      rw [List.filter_cons_of_neg (by decide), List.filter_append, hkeep,
        List.filter_cons_of_neg (by decide), List.filter_nil, List.append_nil]
  have hopen : '(' ∉ schema ++ c :: rest := by
    rcases hschema with rfl | ⟨d, front, rfl, -, hfront⟩
    · exact hparen
    · simpa [hparen] using hfront
  have hstart : ∃ d more, schema ++ c :: rest = d :: more ∧ isBlank d = false := by
    rcases hschema with rfl | ⟨d, front, rfl, hd, -⟩
    · exact ⟨c, rest, rfl, hc⟩
    · exact ⟨d, _, rfl, hd⟩
  rw [baseTypeName_append (hschema.imp_right fun ⟨d, front, heq, _⟩ => ⟨d :: front, heq⟩) hdot hopen
    hstart hlast htail, hfilter, hname.words (hws.solid hb), hws.folded hb]

end Tsql
