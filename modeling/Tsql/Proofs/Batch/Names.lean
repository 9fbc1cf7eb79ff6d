import Tsql.Proofs.Batch.Use
import Tsql.Proofs.Elements.Lexed
import Tsql.Proofs.Token.Reserved

/-!
Names behind a `USE`, and what is none.

A directive finds the name of a database among the characters behind its `USE`. A plain name
(`Lexed.IsPlainName`) is found with all of its characters, and the directive takes no other `USE`
(`Batch.exists_directive_of_isPlainName`). Where no name is (`Lexed.IsNoName`), none is found
(`Batch.databaseName?_of_isNoName`).
-/

namespace Tsql

open Text Scan

namespace Lexed

/-- A name, as a word or in brackets, that is touched from behind by nothing but a `;`. -/
def IsPlainName (w : Lexed) : Prop :=
  (w.kind = .identifier ∨ w.kind = .bracketed ∧ w.first = '[' ∧
    Delimited.isClosed ']' w.tail ∧ Delimited.content ']' w.tail ≠ []) ∧ ∀ d ∈ w.behind, d = ';'

instance (w : Lexed) : Decidable w.IsPlainName :=
  have := Option.decidableForallMem (p := (· = ';')) w.behind
  inferInstanceAs (Decidable ((w.kind = _ ∨ _) ∧ _))

/-- A lexeme that no reader takes for a name: it is none, and where it starts like a word something
else than a blank or a `;` ends that word. -/
def IsNoName (w : Lexed) : Prop :=
  w.kind ≠ .identifier ∧ w.kind ≠ .bracketed ∧ (w.kind = .quoted ∨
    (isWordChar w.first → ∃ d ∈ w.behind, isWordChar d = false ∧ d ≠ ';'))

instance (w : Lexed) : Decidable w.IsNoName :=
  have := Option.decidableExistsMem (p := fun d => isWordChar d = false ∧ d ≠ ';') w.behind
  inferInstanceAs (Decidable (_ ∧ _ ∧ (_ ∨ (_ → ∃ d ∈ w.behind, _))))

end Lexed

/-! ### Lexemes -/

theorem Keyword.sameFolded_of_ofWord? {w : List Char} {k : Keyword} (h : ofWord? w = some k) :
    sameFolded w k.letters := by
  have hletters := List.find?_some h
  have hupper : k.letters = w.map Char.toUpper := by simpa using hletters
  rw [hupper]
  simp [sameFolded, Function.comp_def, Char.toLower_toUpper_eq_toLower]

namespace Lexer

theorem wordKind_eq_keyword {c : Char} {tail : List Char} {k : Keyword}
    (h : sameFolded (c :: tail) k.letters) : wordKind c tail = .keyword k := by
  have hof : Keyword.ofWord? (c :: tail) = some k :=
    (Keyword.ofWord?_congr h).trans (Keyword.ofWord?_letters k)
  rcases wordKind_cases c tail with ⟨k', hk', hkind⟩ | ⟨hnone, -⟩
  · rw [hkind, Option.some.inj (hk'.symm.trans hof)]
  · rw [hnone] at hof
    contradiction

/-- A lexeme that is a keyword is spelled like it. -/
theorem Lexes.of_keyword {k : Keyword} {c : Char} {tail rest : List Char}
    (h : Lexes (.keyword k) c tail rest) :
    sameFolded (c :: tail) k.letters ∧ ∀ d ∈ rest.head?, isWordChar d = false := by
  generalize hkind : TokenKind.keyword k = kind at h
  cases h with
  | word start word stop plain =>
      refine ⟨?_, stop⟩
      rcases wordKind_cases c tail with ⟨k', hk', heq⟩ | ⟨-, heq | heq⟩
      · obtain rfl := TokenKind.keyword.inj (hkind.trans heq)
        exact Keyword.sameFolded_of_ofWord? hk'
      · exact absurd (hkind.trans heq) (by simp)
      · exact absurd (hkind.trans heq) (by simp)
  | symbol start single =>
      unfold symbolKind at hkind
      split_ifs at hkind
  | national | quoted | bracketed | pair => contradiction

theorem Lexes.of_identifier {c : Char} {tail rest : List Char} (h : Lexes .identifier c tail rest) :
    (∀ d ∈ c :: tail, isWordChar d) ∧ ∀ d ∈ rest.head?, isWordChar d = false := by
  generalize hkind : TokenKind.identifier = kind at h
  cases h with
  | word start word stop plain =>
      exact ⟨List.forall_mem_cons.2 ⟨isWordChar_of_start start, word⟩, stop⟩
  | symbol start single =>
      unfold symbolKind at hkind
      split_ifs at hkind
  | national | quoted | bracketed | pair => contradiction

theorem Lexes.of_bracketed {tail rest : List Char} (h : Lexes .bracketed '[' tail rest) :
    Delimited.Literal ']' tail rest := by
  generalize hkind : TokenKind.bracketed = kind at h
  cases h with
  | bracketed start whole => exact whole
  | word start word stop plain =>
      have hplain := (wordKind_plain '[' tail).2
      rw [← hkind] at hplain
      contradiction
  | symbol start single => exact absurd start (by decide)
  | national | pair => contradiction

/-- What starts like a word and is no bracketed name is a word, or it goes on in quotes. -/
theorem Lexes.word_or_national {k : TokenKind} {c : Char} {tail rest : List Char}
    (h : Lexes k c tail rest) (hc : isWordChar c) (hk : k ≠ .bracketed) :
    k ≠ .quoted ∧ (∀ d ∈ tail, isWordChar d) ∨ ∃ lit, tail = '\'' :: lit := by
  cases h with
  | word start word stop plain =>
      refine .inl ⟨?_, word⟩
      rcases wordKind_cases c tail with ⟨k, -, hkind⟩ | ⟨-, hkind | hkind⟩ <;> simp [hkind]
  | national start whole => exact .inr ⟨_, rfl⟩
  | quoted whole => exact absurd hc (by decide)
  | bracketed start whole => exact absurd rfl hk
  | symbol start single =>
      refine .inl ⟨?_, List.forall_mem_nil _⟩
      unfold symbolKind
      split_ifs <;> simp
  | pair pair =>
      rw [(operatorPairs_notWord pair).1] at hc
      contradiction

theorem Lexes.ne_bracket {k : TokenKind} {c : Char} {tail rest : List Char}
    (h : Lexes k c tail rest) (hk : k ≠ .bracketed) : c ≠ '[' := by
  rintro rfl
  cases h with
  | word start => exact absurd start (by decide)
  | national start => exact absurd start (by decide)
  | bracketed start whole => exact absurd rfl hk
  | symbol start => exact absurd start (by decide)
  | pair pair => exact absurd (operatorPairs_spec pair).1 (by decide)

end Lexer

namespace Batch

open Elements

/-! ### Characters of names -/

/-- A plain name is read as one, with all of its characters. -/
theorem nameAt?_of_isPlainName {n : Lexed} {rest : List Char} (hn : n.IsPlainName)
    (h : Lexer.Lexes n.kind n.first n.tail rest) :
    nameAt? (n.first :: (n.tail ++ rest)) =
        some (Lexer.tokenText n.kind n.first n.tail, n.first :: n.tail) ∧
      Lexer.tokenText n.kind n.first n.tail ≠ [] := by
  obtain ⟨kind, first, tail, line, before, behind⟩ := n
  obtain ⟨(rfl : kind = .identifier) |
    ⟨(rfl : kind = .bracketed), (rfl : first = '['), hclosed, hne⟩, -⟩ := hn
  · obtain ⟨hword, hstop⟩ := h.of_identifier
    refine ⟨nameAt?_word hword hstop fun hhead => ?_, List.cons_ne_nil first tail⟩
    obtain rfl : first = '[' := Option.some.inj hhead
    exact absurd (hword '[' List.mem_cons_self) (by decide)
  · exact ⟨nameAt?_bracketed h.of_bracketed hclosed, hne⟩

/-- Where no name follows, none is read. -/
theorem databaseName?_eq_none {cs : List Char}
    (h : ∀ d ∈ (trimStart cs).head?, isWordChar d = false ∧ d ≠ '[') : databaseName? cs = none := by
  have hname : nameAt? (trimStart cs) = some ([], []) :=
    @nameAt?_word [] (trimStart cs) (List.forall_mem_nil _) (fun d hd => (h d hd).1)
      fun hhead => (h '[' hhead).2 rfl
  simp [databaseName?, hname]

/-- What touches elements from in front starts their text. -/
theorem exists_text_of_touching {es : List Element} (h : Uncommented es) {d : Char}
    (hd : d ∈ touching es) : ∃ cs, text es = d :: cs ∧ isBlank d = false := by
  cases es with
  | nil => contradiction
  | cons e es =>
      cases h.plain with
      | blank => contradiction
      | lexeme solid =>
          obtain rfl := Option.some.inj hd
          exact ⟨_, rfl, solid⟩

theorem trimStart_append {gap : List Element} (hgap : AllBlank gap) (cs : List Char) :
    trimStart (text gap ++ cs) = trimStart cs := by
  induction gap with
  | nil => rfl
  | cons e gap ih =>
      obtain ⟨⟨c, rfl, hc⟩, htail⟩ := List.forall_mem_cons.1 hgap
      exact (List.dropWhile_cons_of_pos hc).trans (ih htail)

/-- What stands for a word behind blanks is no name if something else ends it. -/
theorem databaseName?_of_run {gap : List Element} (hgap : AllBlank gap) {c d : Char}
    {run rest : List Char} (hrun : ∀ e ∈ c :: run, isWordChar e) (hd : isWordChar d = false)
    (hsolid : isBlank d = false) (hne : d ≠ ';') :
    databaseName? (text gap ++ (c :: run ++ d :: rest)) = none := by
  have hname : nameAt? (c :: run ++ d :: rest) = some (c :: run, c :: run) := by
    refine nameAt?_word hrun (by rintro e ⟨⟩; exact hd) fun hhead => ?_
    obtain rfl : c = '[' := Option.some.inj hhead
    exact absurd (hrun '[' List.mem_cons_self) (by decide)
  have hstart : ∀ e ∈ (c :: run ++ d :: rest).head?, isBlank e = false := by
    rintro e ⟨⟩
    exact isBlank_of_isWordChar (hrun c List.mem_cons_self)
  have hend : behindName? (d :: rest) = none := by
    rw [behindName?, if_neg hne, if_neg (by simp [hsolid])]
  rw [databaseName?_append hgap.isBlank hstart hname (List.cons_ne_nil c run), hend]
  rfl

/-- No name is read from a lexeme that is none. -/
theorem databaseName?_of_isNoName {n : Lexed} {gap rest : List Element}
    (h : Uncommented (.lexeme n.kind n.first n.tail :: rest)) (hgap : AllBlank gap)
    (hbehind : n.behind = touching rest) (hno : n.IsNoName) :
    databaseName? (text (gap ++ .lexeme n.kind n.first n.tail :: rest)) = none := by
  obtain ⟨-, hbracketed, hends⟩ := hno
  have htext : text (gap ++ .lexeme n.kind n.first n.tail :: rest) =
      text gap ++ (n.first :: n.tail ++ text rest) := by
    rw [text_append]
    rfl
  rw [htext]
  cases h.plain with
  | lexeme solid code lexes =>
      by_cases hword : isWordChar n.first
      · rcases lexes.word_or_national hword hbracketed with ⟨hquoted, htail⟩ | ⟨lit, hlit⟩
        · -- the word ends where the lexeme does
          obtain ⟨d, hd, hstop, hne⟩ := hends.resolve_left hquoted hword
          obtain ⟨cs, hcs, hsolid⟩ := exists_text_of_touching h.tail (hbehind ▸ hd)
          rw [hcs]
          exact databaseName?_of_run hgap (List.forall_mem_cons.2 ⟨hword, htail⟩) hstop hsolid hne
        · rw [hlit]
          exact databaseName?_of_run hgap (List.forall_mem_singleton.2 hword) (by decide) (by decide)
            (by decide)
      · have hstart : trimStart (n.first :: n.tail ++ text rest) = n.first :: n.tail ++ text rest :=
          List.dropWhile_cons_of_neg (by simp [solid])
        refine databaseName?_eq_none ?_
        rw [trimStart_append hgap, hstart]
        rintro d ⟨⟩
        exact ⟨by simpa using hword, lexes.ne_bracket hbracketed⟩

/-! ### Directives with a plain name -/

/-- The first character of a keyword stands outside literals. -/
theorem exists_marked_keyword {k : Keyword} {c : Char} {tail : List Char} {es : List Element}
    (h : Uncommented (.lexeme (.keyword k) c tail :: es)) :
    ∃ ms, (Element.lexeme (.keyword k) c tail :: es).flatMap Element.marked = (c, false) :: ms := by
  cases h.plain with
  | lexeme solid code lexes =>
      refine ⟨tail.map (fun d => (d, false)) ++ es.flatMap Element.marked, ?_⟩
      rw [List.flatMap_cons, Element.marked_lexeme lexes]
      simp [Lexer.plainPart, Lexer.literalPart?]

/-- A `USE` that no word touches is a directive where a name can be read behind it. -/
theorem directiveAt?_of_use {c : Char} {tail : List Char} {es : List Element}
    (h : Uncommented (.lexeme (.keyword .USE) c tail :: es)) {before : Option Char}
    (hbefore : before.any isWordChar = false) {name : List Char} {width : Nat}
    (hname : databaseName? (text es) = some (name, width)) :
    directiveAt? before ((.lexeme (.keyword .USE) c tail :: es).flatMap Element.marked) =
      some ⟨name, c :: tail ++ takeSize width (text es)⟩ := by
  cases h.plain with
  | lexeme solid code lexes =>
      obtain ⟨hfolded, hstop⟩ := lexes.of_keyword
      obtain ⟨s, t, rfl⟩ : ∃ s t, tail = [s, t] := by
        have hthree := length_of_sameFolded hfolded
        match tail, hthree with
        | [s, t], _ => exact ⟨s, t, rfl⟩
      have hmarked : (Element.lexeme (.keyword .USE) c [s, t] :: es).flatMap Element.marked =
          (c, false) :: (s, false) :: (t, false) :: es.flatMap Element.marked := by
        rw [List.flatMap_cons, Element.marked_lexeme lexes]
        rfl
      have hfst : (es.flatMap Element.marked).map Prod.fst = text es := by
        rw [← h.tail.marked_text, Scan.map_fst_marked]
      have huse : (sameFolded [c, s, t] ['U', 'S', 'E'] && !before.any isWordChar) = true := by
        rw [hbefore, Bool.not_false, Bool.and_true]
        exact hfolded
      have hhead : (text es).head?.any (!isWordChar ·) = true := by
        cases htext : text es with
        | nil =>
            -- behind nothing no name could be read
            rw [htext] at hname
            contradiction
        | cons d rest =>
            rw [htext] at hstop
            simpa using hstop d rfl
      rw [hmarked, directiveAt?]
      simp only
      rw [if_pos huse, hfst, if_pos hhead, hname, Option.map_some]
      rfl

/-- What stands behind a plain name ends it. -/
theorem ends_of_isPlainName {n : Lexed} (hn : n.IsPlainName) {rest : List Element}
    (h : Uncommented rest) (hbehind : n.behind = touching rest) :
    ∀ d ∈ (text rest).head?, isBlank d ∨ d = ';' := by
  cases rest with
  | nil => simp
  | cons e rest =>
      rw [head?_text]
      rintro d ⟨⟩
      cases h.plain with
      | blank solid => exact .inl solid
      | lexeme => exact .inr (hn.2 _ hbehind)

/-- What is taken with a name holds no word. -/
theorem notMem_of_behindName {as bs : List Element} (h : Uncommented (as ++ bs))
    (hbehind : BehindName (text as) (text bs)) (c : Char) (tail : List Char) :
    .lexeme (.keyword .USE) c tail ∉ as := by
  intro hmem
  have hc := hbehind.mem_taken c (List.mem_flatMap.2 ⟨_, hmem, List.mem_cons_self⟩)
  obtain ⟨front, back, rfl⟩ := List.append_of_mem hmem
  cases h.left.right.plain with
  | lexeme solid code lexes =>
      have hletters := startsWord_of_sameFolded lexes.of_keyword.1 (by decide)
      have hword := isWordChar_of_startsWord (hletters c List.mem_cons_self)
      rcases hc with hblank | rfl
      · rw [hblank] at solid
        contradiction
      · exact absurd hword (by decide)

/-- Nor do blanks and a plain name in front of it. -/
theorem notMem_of_isPlainName {n : Lexed} (hn : n.IsPlainName) {gap as : List Element}
    (hgap : AllBlank gap) (has : ∀ c tail, .lexeme (.keyword .USE) c tail ∉ as) (c : Char)
    (tail : List Char) :
    .lexeme (.keyword .USE) c tail ∉ gap ++ .lexeme n.kind n.first n.tail :: as := by
  intro hmem
  rcases List.mem_append.1 hmem with hmem | hmem
  · obtain ⟨b, hb, -⟩ := hgap _ hmem
    contradiction
  · rcases List.mem_cons.1 hmem with heq | hmem
    · obtain ⟨hkind, -, -⟩ := Element.lexeme.inj heq
      rcases hn.1 with hname | ⟨hname, -⟩
      · rw [hname] at hkind
        contradiction
      · rw [hname] at hkind
        contradiction
    · exact has c tail hmem

/-- A `USE` with a plain name behind it is a directive that takes whole elements, none of which is
another `USE`. -/
theorem exists_directive_of_isPlainName {c : Char} {tail : List Char} {n : Lexed}
    {gap rest : List Element}
    (h : Uncommented (.lexeme (.keyword .USE) c tail ::
      (gap ++ .lexeme n.kind n.first n.tail :: rest))) (hgap : AllBlank gap)
    (hbehind : n.behind = touching rest) (hn : n.IsPlainName) {before : Option Char}
    (hbefore : before.any isWordChar = false) :
    ∃ as bs, gap ++ .lexeme n.kind n.first n.tail :: rest = as ++ bs ∧
      (∀ c tail, .lexeme (.keyword .USE) c tail ∉ as) ∧
      directiveAt? before ((.lexeme (.keyword .USE) c tail :: (as ++ bs)).flatMap Element.marked) =
        some ⟨Lexer.tokenText n.kind n.first n.tail,
          text (.lexeme (.keyword .USE) c tail :: as)⟩ := by
  have hrest : Uncommented rest := h.tail.right.tail
  have hends := ends_of_isPlainName hn hrest hbehind
  obtain ⟨more, hmore⟩ := exists_behindName? hends
  obtain ⟨-, kept, hdivided, hbehindName⟩ := behindName?_eq_some_iff.1 hmore
  obtain ⟨taken, bs, rfl, rfl⟩ := cutAt_taken hrest hdivided hbehindName
  rw [text_append] at hdivided
  obtain rfl := List.append_cancel_left hdivided
  have hno := notMem_of_isPlainName hn hgap (notMem_of_behindName hrest hbehindName)
  have htext : text (gap ++ .lexeme n.kind n.first n.tail :: taken) =
      text gap ++ ((n.first :: n.tail) ++ text taken) := by
    rw [text_append]
    rfl
  have hsplit : gap ++ .lexeme n.kind n.first n.tail :: (taken ++ bs) =
      (gap ++ .lexeme n.kind n.first n.tail :: taken) ++ bs := by simp
  refine ⟨gap ++ .lexeme n.kind n.first n.tail :: taken, bs, hsplit, hno, ?_⟩
  have hname : databaseName? (text ((gap ++ .lexeme n.kind n.first n.tail :: taken) ++ bs)) =
      some (Lexer.tokenText n.kind n.first n.tail,
        size (text (gap ++ .lexeme n.kind n.first n.tail :: taken))) := by
    cases h.tail.right.plain with
    | lexeme solid code lexes =>
        obtain ⟨hfound, hne⟩ := nameAt?_of_isPlainName hn lexes
        have hsolid : ∀ d ∈ (n.first :: n.tail ++ text (taken ++ bs)).head?, isBlank d = false := by
          rintro d ⟨⟩
          exact solid
        rw [text_append, htext, List.append_assoc, List.append_assoc, ← text_append,
          databaseName?_append hgap.isBlank hsolid hfound hne, hmore, Option.map_some,
          List.append_assoc]
  rw [hsplit] at h
  generalize gap ++ Element.lexeme n.kind n.first n.tail :: taken = as at h hname ⊢
  rw [directiveAt?_of_use h hbefore hname, text_append, takeSize_size_append]
  rfl

end Batch

end Tsql
