import Tsql.Batch.Use
import Tsql.Proofs.Elements.Lexeme
import Tsql.Proofs.Text.Parts
import Tsql.Proofs.Text.Words

/-!
The name of a database behind a `USE`, character by character.

A name is written as a word or in brackets (`SpellsName`), and with it are taken the blanks in front
of it and at most a `;` behind it (`BehindName`). These are the texts whose bytes `databaseName?`
counts (`databaseName?_eq_some_iff`).
-/

namespace Tsql

open Text

namespace Delimited

variable {close : Char} {lit rest : List Char}

theorem isClosed_append (h : Literal close lit rest) (hclosed : isClosed close lit) :
    isClosed close (lit ++ rest) := by
  induction h with
  | endless => contradiction
  | @closing rest stop =>
      cases rest with
      | nil => exact hclosed
      | cons d rest =>
          have hd : d ≠ close := by simpa using stop
          simp [isClosed, hd]
  | escape whole ih => simpa [isClosed] using ih (by simpa [isClosed] using hclosed)
  | char inside whole ih =>
      rw [List.cons_append, isClosed_cons inside]
      exact ih (by rwa [isClosed_cons inside] at hclosed)

theorem content_append (h : Literal close lit rest) :
    content close (lit ++ rest) = content close lit := by
  induction h with
  | endless => rfl
  | @closing rest stop =>
      cases rest with
      | nil => rfl
      | cons d rest =>
          have hd : d ≠ close := by simpa using stop
          simp [content, hd]
  | escape whole ih => simp [content, ih]
  | char inside whole ih => rw [List.cons_append, content_cons inside, content_cons inside, ih]

end Delimited

namespace Batch

/-! ### Names -/

/-- How a name is written: as a word, or in brackets with each closing bracket doubled. -/
inductive SpellsName : List Char → List Char → Prop
  | word {name : List Char} (chars : ∀ d ∈ name, isWordChar d) : SpellsName name name
  | bracketed (name : List Char) : SpellsName (Delimited.enclose '[' ']' name) name

theorem nameAt?_bracketed {lit rest : List Char} (h : Delimited.Literal ']' lit rest)
    (hclosed : Delimited.isClosed ']' lit) :
    nameAt? ('[' :: (lit ++ rest)) = some (Delimited.content ']' lit, '[' :: lit) := by
  rw [nameAt?, Delimited.isClosed_append h hclosed, if_pos rfl, Delimited.content_append h,
    Delimited.body_of_literal h]

theorem nameAt?_word {word rest : List Char} (hword : ∀ d ∈ word, isWordChar d)
    (hstop : ∀ d ∈ rest.head?, isWordChar d = false)
    (hbracket : (word ++ rest).head? ≠ some '[') : nameAt? (word ++ rest) = some (word, word) := by
  unfold nameAt?
  split
  · next heq =>
    rw [heq] at hbracket
    exact absurd rfl hbracket
  · rw [Lexer.takeWhile_append_of_stop hword hstop]

/-- A name that is found is written in front. -/
theorem spells_of_nameAt? {cs name written : List Char} (h : nameAt? cs = some (name, written)) :
    SpellsName written name ∧ written <+: cs := by
  unfold nameAt? at h
  split at h
  · next rest =>
    split at h
    · next hclosed =>
      obtain ⟨rfl, rfl⟩ := Prod.mk.inj (Option.some.inj h)
      refine ⟨?_, List.cons_prefix_cons.2 ⟨rfl, _, Delimited.body_append_drop ']' rest⟩⟩
      rw [Delimited.body_of_isClosed hclosed]
      exact .bracketed _
    · contradiction
  · obtain ⟨rfl, rfl⟩ := Prod.mk.inj (Option.some.inj h)
    refine ⟨.word fun d hd => ?_, List.takeWhile_prefix _⟩
    exact List.all_eq_true.1 List.all_takeWhile d hd

/-- A name is found where it ends as names do. -/
theorem nameAt?_of_spells {written name rest : List Char} (h : SpellsName written name)
    (hrest : ∀ d ∈ rest.head?, isBlank d ∨ d = ';') :
    nameAt? (written ++ rest) = some (name, written) := by
  cases h with
  | word chars =>
      have hstop : ∀ d ∈ rest.head?, isWordChar d = false := by
        intro d hd
        rcases hrest d hd with hblank | rfl
        · exact isWordChar_of_isBlank hblank
        · decide
      refine nameAt?_word chars hstop fun hhead => ?_
      cases written with
      | nil => exact absurd (hrest '[' hhead) (by decide)
      | cons c word =>
          obtain rfl : c = '[' := Option.some.inj hhead
          exact absurd (chars '[' List.mem_cons_self) (by decide)
  | bracketed =>
      have hbracket : rest.head? ≠ some ']' := fun hhead => absurd (hrest ']' hhead) (by decide)
      have hname := nameAt?_bracketed (Delimited.literal_doubled hbracket name)
        (Delimited.isClosed_doubled ']' name)
      rwa [Delimited.content_doubled_append ']' name [] (by simp)] at hname

/-! ### Behind a name -/

/-- How the text behind a name is divided into what is taken with the name and what is kept: taken is
a `;` with the spaces and tabs in front of it, or, where no `;` stands behind those, nothing. -/
inductive BehindName : List Char → List Char → Prop
  | semicolon {gap : List Char} (kept : List Char) (inside : ∀ d ∈ gap, d = ' ' ∨ d = '\t') :
      BehindName (gap ++ [';']) kept
  | nothing {gap rest : List Char} (inside : ∀ d ∈ gap, d = ' ' ∨ d = '\t')
      (stop : ∀ d ∈ rest.head?, d ∉ [' ', '\t', ';']) : BehindName [] (gap ++ rest)

/-- With a name only blanks and a `;` are taken. -/
theorem BehindName.mem_taken {taken kept : List Char} (h : BehindName taken kept) :
    ∀ d ∈ taken, isBlank d ∨ d = ';' := by
  cases h with
  | semicolon _ inside =>
      intro d hd
      rcases List.mem_append.1 hd with hd | hd
      · rcases inside d hd with rfl | rfl <;> exact .inl (by decide)
      · exact .inr (List.mem_singleton.1 hd)
  | nothing => simp

/-- Behind blanks up to the end of a line nothing is taken. -/
theorem behindName_of_line {gap rest : List Char} (hgap : ∀ d ∈ gap, isBlank d)
    (hrest : rest = [] ∨ rest.head? = some '\n') : BehindName [] (gap ++ rest) := by
  obtain ⟨run, tail, hsplit, hrun, hstop⟩ :=
    Lexer.exists_run (fun c => decide (c = ' ') || decide (c = '\t')) (gap ++ rest)
  have hrun : ∀ d ∈ run, d = ' ' ∨ d = '\t' := by simpa using hrun
  have hsemicolon : tail.head? ≠ some ';' := by
    intro hhead
    obtain ⟨tail, rfl⟩ := List.head?_eq_some_iff.1 hhead
    rcases List.append_eq_append_iff.1 hsplit with ⟨more, rfl, hrest'⟩ | ⟨more, rfl, hmore⟩
    · -- the run holds the whole gap, so the rest of the line has none of what may follow it
      rw [hrest'] at hrest
      cases more with
      | nil => exact absurd hrest (by simp)
      | cons d more =>
          obtain rfl : d = '\n' := by simpa using hrest
          exact absurd (hrun '\n' (List.mem_append_right gap List.mem_cons_self)) (by decide)
    · cases more with
      | nil =>
          obtain rfl : ';' :: tail = rest := hmore
          exact absurd hrest (by simp)
      | cons d more =>
          obtain ⟨rfl, -⟩ := List.cons.inj hmore
          exact absurd (hgap ';' (List.mem_append_right run List.mem_cons_self)) (by decide)
  rw [hsplit]
  refine .nothing hrun fun d hd => ?_
  have hne : d ≠ ';' := fun heq => hsemicolon (heq ▸ hd)
  simpa [hne] using hstop d hd

/-- Nothing more is taken where nothing is taken from the text that follows. -/
theorem BehindName.append {taken kept more : List Char} (h : BehindName taken kept)
    (hmore : BehindName [] more) : BehindName taken (kept ++ more) := by
  generalize hnil : [] = none at hmore
  cases hmore with
  | semicolon _ _ => simp at hnil
  | @nothing gap' rest' inside' stop' =>
      cases h with
      | semicolon _ inside => exact .semicolon _ inside
      | @nothing gap rest inside stop =>
          cases rest with
          | nil =>
              rw [List.append_nil, ← List.append_assoc]
              exact .nothing (fun d hd => (List.mem_append.1 hd).elim (inside d) (inside' d)) stop'
          | cons c rest =>
              rw [List.append_assoc]
              exact .nothing inside stop

/-- What is taken with a name where spaces and tabs stand behind it. -/
theorem behindName?_append {gap rest : List Char}
    (h : ∀ d ∈ (gap ++ rest).head?, isBlank d ∨ d = ';') (hgap : ∀ d ∈ gap, d = ' ' ∨ d = '\t')
    (hstop : ∀ d ∈ rest.head?, d ≠ ' ' ∧ d ≠ '\t') :
    behindName? (gap ++ rest) = some (if rest.head? = some ';' then gap ++ [';'] else []) := by
  have htake : (gap ++ rest).takeWhile (fun c => decide (c = ' ') || decide (c = '\t')) = gap :=
    Lexer.takeWhile_append_of_stop (by simpa using hgap) (by simpa using hstop)
  cases hall : gap ++ rest with
  | nil =>
      obtain ⟨rfl, rfl⟩ := List.append_eq_nil_iff.1 hall
      rfl
  | cons c cs =>
      rw [hall] at h htake
      by_cases hc : c = ';'
      · subst hc
        -- a `;` is neither space nor tab, so the gap is empty
        obtain rfl : gap = [] := htake.symm
        rw [List.nil_append] at hall
        rw [behindName?, if_pos rfl, hall]
        rfl
      · rw [behindName?, if_neg hc, if_pos ((h c rfl).resolve_right hc)]
        simp only
        rw [htake, ← hall, List.drop_left]
        split <;> rfl

theorem head_of_behindName? {rest taken : List Char} (h : behindName? rest = some taken) :
    ∀ d ∈ rest.head?, isBlank d ∨ d = ';' := by
  unfold behindName? at h
  split at h
  · simp
  · rintro d ⟨⟩
    split at h
    · next hsemicolon => exact .inr hsemicolon
    · split at h
      · next hblank => exact .inl hblank
      · contradiction

/-- What is taken with a name, if a name ends in front of `rest`. -/
theorem behindName?_eq_some_iff {rest taken : List Char} :
    behindName? rest = some taken ↔
      (∀ d ∈ rest.head?, isBlank d ∨ d = ';') ∧
        ∃ kept, rest = taken ++ kept ∧ BehindName taken kept := by
  constructor
  · intro h
    have hhead := head_of_behindName? h
    refine ⟨hhead, ?_⟩
    obtain ⟨gap, behind, rfl, hgap, hstop⟩ :=
      Lexer.exists_run (fun c => decide (c = ' ') || decide (c = '\t')) rest
    have hgap : ∀ d ∈ gap, d = ' ' ∨ d = '\t' := by simpa using hgap
    have hstop : ∀ d ∈ behind.head?, d ≠ ' ' ∧ d ≠ '\t' := by simpa using hstop
    rw [behindName?_append hhead hgap hstop] at h
    obtain rfl := Option.some.inj h
    split
    · next hsemicolon =>
      obtain ⟨kept, rfl⟩ := List.head?_eq_some_iff.1 hsemicolon
      exact ⟨kept, by simp, .semicolon kept hgap⟩
    · next hsemicolon =>
      refine ⟨gap ++ behind, rfl, .nothing hgap fun d hd => ?_⟩
      have hne : d ≠ ';' := fun heq => hsemicolon (heq ▸ hd)
      simp [hstop d hd, hne]
  · rintro ⟨hhead, kept, rfl, hbehind⟩
    cases hbehind with
    | @semicolon gap kept inside =>
        rw [List.append_assoc] at hhead ⊢
        rw [behindName?_append hhead inside (by rintro d ⟨⟩; decide)]
        rfl
    | @nothing gap behind inside stop =>
        have hstop : ∀ d ∈ behind.head?, d ≠ ' ' ∧ d ≠ '\t' ∧ d ≠ ';' := by simpa using stop
        have hsemicolon : behind.head? ≠ some ';' := fun hd => (hstop ';' hd).2.2 rfl
        rw [List.nil_append] at hhead ⊢
        rw [behindName?_append hhead inside fun d hd => ⟨(hstop d hd).1, (hstop d hd).2.1⟩,
          if_neg hsemicolon]

/-- The text behind a name is divided if a name ends in front of it. -/
theorem exists_behindName? {rest : List Char} (h : ∀ d ∈ rest.head?, isBlank d ∨ d = ';') :
    ∃ taken, behindName? rest = some taken := by
  cases rest with
  | nil => exact ⟨[], rfl⟩
  | cons c rest =>
      rw [behindName?]
      split
      · exact ⟨_, rfl⟩
      · next hc =>
        rw [if_pos ((h c rfl).resolve_right hc)]
        dsimp only
        split <;> exact ⟨_, rfl⟩

/-! ### Names with what is taken with them -/

/-- What is read behind blanks is the name that stands there, if it ends as names do. -/
theorem databaseName?_append {gap written rest name : List Char}
    (hgap : ∀ d ∈ gap, isBlank d) (hsolid : ∀ d ∈ (written ++ rest).head?, isBlank d = false)
    (hname : nameAt? (written ++ rest) = some (name, written)) (hne : name ≠ []) :
    databaseName? (gap ++ (written ++ rest)) =
      (behindName? rest).map fun taken => (name, size (gap ++ written ++ taken)) := by
  have hlead : leadingBlanks (gap ++ (written ++ rest)) = gap :=
    Lexer.takeWhile_append_of_stop hgap hsolid
  have htrim : trimStart (gap ++ (written ++ rest)) = written ++ rest := by
    rw [trimStart_blanks_append hgap, trimStart_eq_self hsolid]
  have hempty : name.isEmpty = false := by simpa using hne
  rw [databaseName?, hlead, htrim]
  simp only
  rw [hname, Option.bind_eq_bind, Option.bind_some]
  simp only [hempty, List.drop_left]
  cases behindName? rest with
  | none => rfl
  | some taken => rfl

/-- A text that starts with the name of a database, divided: the blanks in front of the name, the
name as it is written, what is taken behind it and the rest. -/
structure NamesDatabase (blanks written taken kept name : List Char) : Prop where
  blank : ∀ d ∈ blanks, isBlank d
  spells : SpellsName written name
  ne_nil : name ≠ []
  ends : ∀ d ∈ (taken ++ kept).head?, isBlank d ∨ d = ';'
  behind : BehindName taken kept

/-- The text behind a name may go on where nothing is taken from it. -/
theorem NamesDatabase.append {blanks written taken kept name more : List Char}
    (h : NamesDatabase blanks written taken kept name) (hhead : ∀ d ∈ more.head?, isBlank d)
    (hmore : BehindName [] more) : NamesDatabase blanks written taken (kept ++ more) name where
  blank := h.blank
  spells := h.spells
  ne_nil := h.ne_nil
  ends := by
    have hends := h.ends
    rw [← List.append_assoc]
    cases hall : taken ++ kept with
    | nil => exact fun d hd => .inl (hhead d hd)
    | cons c cs => rwa [hall] at hends
  behind := h.behind.append hmore

theorem SpellsName.head {written name : List Char} (h : SpellsName written name) (hne : name ≠ []) :
    ∃ c tail, written = c :: tail ∧ isBlank c = false := by
  cases h with
  | word chars =>
      obtain ⟨c, tail, rfl⟩ := List.exists_cons_of_ne_nil hne
      exact ⟨c, tail, rfl, isBlank_of_isWordChar (chars c List.mem_cons_self)⟩
  | bracketed => exact ⟨'[', _, rfl, by decide⟩

/-- The name of a database, and the bytes of what is read for it. -/
theorem databaseName?_eq_some_iff {cs name : List Char} {width : Nat} :
    databaseName? cs = some (name, width) ↔
      ∃ blanks written taken kept, cs = blanks ++ (written ++ (taken ++ kept)) ∧
        NamesDatabase blanks written taken kept name ∧ width = size (blanks ++ written ++ taken) := by
  constructor
  · intro h
    unfold databaseName? at h
    simp only [Option.bind_eq_bind, Option.bind_eq_some_iff] at h
    obtain ⟨⟨found, written⟩, hname, h⟩ := h
    split at h
    · contradiction
    · next hne =>
      obtain ⟨taken, hbehind, hpair⟩ := Option.bind_eq_some_iff.1 h
      obtain ⟨rfl, rfl⟩ := Prod.mk.inj (Option.some.inj hpair)
      obtain ⟨hspells, rest, hrest⟩ := spells_of_nameAt? hname
      rw [← hrest, List.drop_left] at hbehind
      obtain ⟨hends, kept, rfl, hdivided⟩ := behindName?_eq_some_iff.1 hbehind
      refine ⟨leadingBlanks cs, written, taken, kept, ?_,
        ⟨fun d hd => List.all_eq_true.1 List.all_takeWhile d hd, hspells, by simpa using hne, hends,
          hdivided⟩, rfl⟩
      rw [hrest, leadingBlanks_append_trimStart]
  · rintro ⟨blanks, written, taken, kept, rfl, hnames, rfl⟩
    obtain ⟨c, tail, hhead, hsolid⟩ := hnames.spells.head hnames.ne_nil
    rw [databaseName?_append hnames.blank (by rw [hhead]; rintro d ⟨⟩; exact hsolid)
      (nameAt?_of_spells hnames.spells hnames.ends) hnames.ne_nil,
      behindName?_eq_some_iff.2 ⟨hnames.ends, kept, rfl, hnames.behind⟩, Option.map_some]

end Batch

end Tsql
