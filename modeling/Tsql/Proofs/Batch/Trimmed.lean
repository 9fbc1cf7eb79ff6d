import Tsql.Proofs.Batch.Selections
import Tsql.Proofs.Elements.States

/-!
Blanks behind a text.

They are neither part of a name nor do they close a literal, so the directives of a text are those
of the text without them (`Batch.selectionsIn_append_blanks`).
-/

namespace Tsql

open Text

namespace Delimited

variable {close : Char} {blanks : List Char}

theorem isClosed_of_notMem (h : close ∉ blanks) : Delimited.isClosed close blanks = false := by
  induction blanks with
  | nil => rfl
  | cons c blanks ih =>
      obtain ⟨hc, hblanks⟩ := not_or.1 fun h' => h (List.mem_cons.2 h')
      rw [isClosed_cons (Ne.symm hc), ih hblanks]

theorem isClosed_append_of_notMem (cs : List Char) (h : close ∉ blanks) :
    Delimited.isClosed close (cs ++ blanks) = Delimited.isClosed close cs := by
  fun_induction Delimited.isClosed close cs with
  | case1 => exact isClosed_of_notMem h
  | case2 c =>
      by_cases hc : c = close
      · cases blanks with
        | nil => rfl
        | cons d blanks =>
            have hd : d ≠ close := fun heq => h (heq ▸ List.mem_cons_self)
            simp [Delimited.isClosed, hc, hd]
      · rw [List.singleton_append, isClosed_cons hc, isClosed_of_notMem h, decide_eq_false hc]
  | case3 rest ih => simpa [Delimited.isClosed] using ih
  | case4 d rest hd => simp [Delimited.isClosed, hd]
  | case5 c d rest hc ih =>
      rw [List.cons_append, isClosed_cons hc]
      exact ih

/-- What stands behind a closed literal without its delimiter does not matter. -/
theorem Literal.append {lit rest : List Char} (h : Literal close lit rest)
    (hclosed : Delimited.isClosed close lit) (hblanks : close ∉ blanks) :
    Literal close lit (rest ++ blanks) := by
  induction h with
  | endless => contradiction
  | @closing rest stop =>
      refine .closing fun hhead => ?_
      cases rest with
      | nil => exact hblanks (List.mem_of_mem_head? hhead)
      | cons d rest => exact stop hhead
  | escape whole ih => exact .escape (ih (by simpa [Delimited.isClosed] using hclosed))
  | char inside whole ih => exact .char inside (ih (by rwa [isClosed_cons inside] at hclosed))

theorem content_and_body_append {cs : List Char} (hclosed : Delimited.isClosed close cs)
    (h : close ∉ blanks) :
    content close (cs ++ blanks) = content close cs ∧ body close (cs ++ blanks) = body close cs := by
  obtain ⟨lit, rest, rfl, whole⟩ := exists_literal close cs
  have hlit : Delimited.isClosed close lit := by
    cases rest with
    | nil => rwa [List.append_nil] at hclosed
    | cons d rest => exact whole.isClosed (List.cons_ne_nil d rest)
  have hwhole := whole.append hlit h
  rw [List.append_assoc, content_append hwhole, content_append whole, body_of_literal hwhole,
    body_of_literal whole]
  exact ⟨rfl, rfl⟩

end Delimited

namespace Batch

/-! ### Names and directives -/

theorem databaseName?_of_blank {cs : List Char} (h : trimStart cs = []) :
    databaseName? cs = none := by
  refine databaseName?_eq_none ?_
  rw [h]
  exact fun d hd => absurd hd (by simp)

theorem takeWhile_append_of_head {p : Char → Bool} {cs ds : List Char}
    (h : ∀ d ∈ ds.head?, p d = false) : (cs ++ ds).takeWhile p = cs.takeWhile p := by
  induction cs with
  | nil =>
      cases ds with
      | nil => rfl
      | cons d ds => exact List.takeWhile_cons_of_neg (by simp [h d rfl])
  | cons c cs ih => rw [List.cons_append, List.takeWhile_cons, List.takeWhile_cons, ih]

theorem drop_length_takeWhile {p : Char → Bool} (cs : List Char) :
    cs.drop (cs.takeWhile p).length = cs.dropWhile p := by
  induction cs with
  | nil => rfl
  | cons c cs ih =>
      cases hc : p c with
      | true => simp [hc, ih]
      | false => simp [hc]

theorem takeWhile_append_of_dropWhile {p : Char → Bool} {cs : List Char} (ds : List Char)
    (h : cs.dropWhile p ≠ []) : (cs ++ ds).takeWhile p = cs.takeWhile p := by
  rw [List.takeWhile_append, if_neg]
  intro hlen
  have hall := congrArg List.length (List.takeWhile_append_dropWhile (p := p) (l := cs))
  rw [List.length_append, hlen] at hall
  exact h (List.length_eq_zero_iff.1 (Nat.add_eq_left.1 hall))

section

variable {blanks : List Char} (hblanks : ∀ d ∈ blanks, isBlank d)
include hblanks

theorem notMem_blanks {c : Char} (hc : isBlank c = false) : c ∉ blanks := fun hmem => by
  rw [hblanks c hmem] at hc
  contradiction

theorem nameAt?_append_blanks (cs : List Char) : nameAt? (cs ++ blanks) = nameAt? cs := by
  have hword : (cs ++ blanks).takeWhile isWordChar = cs.takeWhile isWordChar :=
    takeWhile_append_of_head fun d hd =>
      isWordChar_of_isBlank (hblanks d (List.mem_of_mem_head? hd))
  have hopening : ∀ rest, cs ++ blanks = '[' :: rest → ∃ rest', cs = '[' :: rest' := by
    intro rest heq
    cases cs with
    | nil =>
        have hnot := notMem_blanks hblanks (c := '[') (by decide)
        rw [List.nil_append] at heq
        rw [heq] at hnot
        exact absurd List.mem_cons_self hnot
    | cons c cs => exact ⟨cs, by rw [(List.cons.inj heq).1]⟩
  by_cases hcs : ∃ rest, cs = '[' :: rest
  · obtain ⟨rest, rfl⟩ := hcs
    have hclose := notMem_blanks hblanks (c := ']') (by decide)
    rw [List.cons_append, nameAt?, nameAt?, Delimited.isClosed_append_of_notMem rest hclose]
    split
    · next hclosed =>
      obtain ⟨hcontent, hbody⟩ := Delimited.content_and_body_append hclosed hclose
      rw [hcontent, hbody]
    · rfl
  · unfold nameAt?
    split
    · next rest heq => exact absurd (hopening rest heq) hcs
    · split
      · next rest _ => exact absurd ⟨rest, rfl⟩ hcs
      · rw [hword]

/-- Behind a run of characters the blanks are not a character that they do not hold. -/
theorem head?_dropWhile_append_blanks {p : Char → Bool} {d : Char} (hd : isBlank d = false)
    (cs : List Char) :
    ((cs ++ blanks).dropWhile p).head? = some d ↔ (cs.dropWhile p).head? = some d := by
  have hnone : (blanks.dropWhile p).head? ≠ some d := fun hhead =>
    notMem_blanks hblanks hd ((List.dropWhile_sublist p).subset (List.mem_of_mem_head? hhead))
  rw [List.dropWhile_append]
  cases cs.dropWhile p with
  | nil => simpa using hnone
  | cons d ds => rfl

theorem behindName?_append_blanks (rest : List Char) : behindName? (rest ++ blanks) = behindName? rest := by
  have hsemicolon := notMem_blanks hblanks (c := ';') (by decide)
  cases rest with
  | nil =>
      cases blanks with
      | nil => rfl
      | cons d blanks =>
          have hd : d ≠ ';' := fun heq => hsemicolon (heq ▸ List.mem_cons_self)
          have hnone := head?_dropWhile_append_blanks hblanks
            (p := fun c => c = ' ' || c = '\t') (d := ';') (by decide) []
          rw [List.nil_append] at hnone ⊢
          simp only [behindName?, if_neg hd, if_pos (hblanks d List.mem_cons_self),
            drop_length_takeWhile, hnone]
          rfl
  | cons c rest =>
      rw [List.cons_append]
      simp only [behindName?, drop_length_takeWhile]
      rw [← List.cons_append]
      simp only [head?_dropWhile_append_blanks hblanks (d := ';') (by decide)]
      split_ifs with hc hblank hgap
      · rfl
      · rw [takeWhile_append_of_dropWhile blanks fun hnil => ?_]
        rw [hnil] at hgap
        contradiction
      · rfl
      · rfl

theorem databaseName?_append_blanks (cs : List Char) :
    databaseName? (cs ++ blanks) = databaseName? cs := by
  by_cases hcs : trimStart cs = []
  · have htrim : trimStart (cs ++ blanks) = [] := by
      rw [trimStart, List.dropWhile_append, ← trimStart, hcs]
      exact List.dropWhile_eq_nil_iff.2 hblanks
    rw [databaseName?_of_blank hcs, databaseName?_of_blank htrim]
  · have htrim : trimStart (cs ++ blanks) = trimStart cs ++ blanks := by
      rw [trimStart, List.dropWhile_append, ← trimStart]
      exact if_neg (by simpa using hcs)
    have hlead : leadingBlanks (cs ++ blanks) = leadingBlanks cs :=
      takeWhile_append_of_dropWhile blanks hcs
    rw [databaseName?, databaseName?, htrim, hlead, nameAt?_append_blanks hblanks]
    cases hname : nameAt? (trimStart cs) with
    | none => rfl
    | some p =>
        have hprefix := (spells_of_nameAt? hname).2.length_le
        simp only [Option.bind_eq_bind, Option.bind_some, List.drop_append_of_le_length hprefix,
          behindName?_append_blanks hblanks]

end

/-- What is read for a name is in the text. -/
theorem takeSize_append_of_databaseName? {cs name : List Char} {width : Nat}
    (h : databaseName? cs = some (name, width)) (ds : List Char) :
    takeSize width (cs ++ ds) = takeSize width cs := by
  obtain ⟨blanks, written, taken, kept, rfl, -, rfl⟩ := databaseName?_eq_some_iff.1 h
  rw [← List.append_assoc, ← List.append_assoc, List.append_assoc _ kept, takeSize_size_append,
    takeSize_size_append]

/-- No directive starts where one of its letters would be a blank. -/
theorem directiveAt?_of_blank {before : Option Char} {ms : List (Char × Bool)} {c : Char}
    (hmem : c ∈ (ms.map Prod.fst).take 3) (hc : isBlank c) : directiveAt? before ms = none := by
  cases hd : directiveAt? before ms with
  | none => rfl
  | some d =>
      obtain ⟨u, s, e, following, width, hms, hfolded, -⟩ := directiveAt?_eq_some hd
      rw [hms] at hmem
      have hword := startsWord_of_sameFolded hfolded (by decide) c hmem
      rw [isBlank_of_isWordChar (isWordChar_of_startsWord hword)] at hc
      contradiction

theorem directiveAt?_append_blanks {blanks : List (Char × Bool)} (h : ∀ m ∈ blanks, isBlank m.1)
    (before : Option Char) (ms : List (Char × Bool)) :
    directiveAt? before (ms ++ blanks) = directiveAt? before ms := by
  cases blanks with
  | nil => rw [List.append_nil]
  | cons b blanks =>
      have hb := h b List.mem_cons_self
      match ms with
      | [] => exact directiveAt?_of_blank (by simp) hb
      | [_] => exact directiveAt?_of_blank (by simp) hb
      | [_, _] => exact directiveAt?_of_blank (by simp) hb
      | (u, _) :: (s, _) :: (e, _) :: rest =>
        have hblanks : ∀ d ∈ (b :: blanks).map Prod.fst, isBlank d := by
          intro d hd
          obtain ⟨m, hm, rfl⟩ := List.mem_map.1 hd
          exact h m hm
        have hnames := databaseName?_append_blanks hblanks (rest.map Prod.fst)
        simp only [List.cons_append, directiveAt?, List.map_append, hnames]
        cases hname : databaseName? (rest.map Prod.fst) with
        | none => simp
        | some p =>
            obtain ⟨name, width⟩ := p
            have hhead : (rest.map Prod.fst).head? = ((rest ++ b :: blanks).map Prod.fst).head? := by
              cases rest with
              | nil => rw [List.map_nil, databaseName?_of_blank rfl] at hname; contradiction
              | cons m rest => rfl
            rw [← List.map_append, ← hhead, Option.map_some, Option.map_some,
              List.map_append, takeSize_append_of_databaseName? hname]

/-! ### The directives of a text -/

theorem skipped_blanks {blanks : List (Char × Bool)} (h : ∀ m ∈ blanks, isBlank m.1)
    (before : Option Char) : Skipped before blanks := by
  induction blanks generalizing before with
  | nil => trivial
  | cons m blanks ih =>
      obtain ⟨hm, hblanks⟩ := List.forall_mem_cons.1 h
      refine ⟨.inr (.inr ?_), ih hblanks _⟩
      cases hstart : startsWord m.1 with
      | false => rfl
      | true =>
          rw [isBlank_of_isWordChar (isWordChar_of_startsWord hstart)] at hm
          contradiction

/-- Blanks behind a text hold no directives, and none of the text reaches into them. -/
theorem selectionsIn_append_blanks {blanks : List (Char × Bool)} (h : ∀ m ∈ blanks, isBlank m.1)
    (line : Nat) (before : Option Char) (ms : List (Char × Bool)) :
    selectionsIn line before (ms ++ blanks) = selectionsIn line before ms := by
  have hat : ∀ (before : Option Char) (c : Char) (inside : Bool) (rest : List (Char × Bool)),
      (if inside then none else directiveAt? before ((c, inside) :: (rest ++ blanks))) =
        if inside then none else directiveAt? before ((c, inside) :: rest) := by
    intro before c inside rest
    rw [← List.cons_append, directiveAt?_append_blanks h]
  induction before, ms using directives.induct generalizing line with
  | case1 before =>
      have hskipped : selectionsIn line before (blanks ++ []) = _ :=
        selectionsIn_of_skipped (skipped_blanks h before)
      rw [List.append_nil, selectionsIn_nil] at hskipped
      rw [List.nil_append, hskipped, selectionsIn_nil]
  | case2 before c inside rest d hd text others heq ih =>
      have hlen : d.text.length ≤ ((c, inside) :: rest).length := by
        split at hd
        · contradiction
        · have hle := (text_prefix_of_directiveAt? hd).length_le
          rwa [List.length_map] at hle
      rw [List.cons_append, selectionsIn_cons_some ((hat before c inside rest).trans hd),
        selectionsIn_cons_some hd, ← List.cons_append, List.drop_append_of_le_length hlen, ih]
  | case3 before c inside rest hd text others heq ih =>
      rw [List.cons_append, selectionsIn_cons_none ((hat before c inside rest).trans hd),
        selectionsIn_cons_none hd, ih]

/-! ### Marks -/

end Batch

namespace Scan

/-- A blank is no part of a delimiter. -/
theorem step_blank {s : State} (hs : ∀ delimiter, s = .quoted delimiter → isBlank delimiter = false)
    (c : Char) {d : Char} (hd : isBlank d) : s.step c (some d) = s.step c none := by
  have hne : ∀ e, isBlank e = false → d ≠ e := by
    rintro e he rfl
    rw [hd] at he
    contradiction
  cases s with
  | normal => simp [State.step, hne '-' (by decide), hne '*' (by decide)]
  | lineComment => rfl
  | blockComment depth => simp [State.step, hne '*' (by decide), hne '/' (by decide)]
  | quoted delimiter => simp [State.step, hne delimiter (hs delimiter rfl)]
  | bracket => simp [State.step, hne ']' (by decide)]

theorem pair_none (s : State) (c : Char) : (s.step c none).pair = false := by
  cases s <;> simp only [State.step] <;> split_ifs <;> simp_all

/-- The pass over a text is not changed by blanks behind it. -/
theorem exists_pieces_append_blanks {s : State}
    (hs : ∀ delimiter, s = .quoted delimiter → isBlank delimiter = false) (cs : List Char)
    {blanks : List Char} (h : ∀ d ∈ blanks, isBlank d) :
    ∃ ps, pieces s (cs ++ blanks) = pieces s cs ++ ps := by
  have hafter : ∀ {s : State} (c : Char) (following : Option Char),
      (∀ delimiter, s = .quoted delimiter → isBlank delimiter = false) →
        ∀ delimiter, (s.step c following).after = .quoted delimiter → isBlank delimiter = false := by
    intro s c following hs delimiter hdelimiter
    rcases delimiter_of_step hdelimiter with hd | rfl | rfl
    · exact hs delimiter hd
    · decide
    · decide
  fun_induction pieces s cs with
  | case1 s => exact ⟨pieces s blanks, rfl⟩
  | case2 s c =>
      cases blanks with
      | nil => exact ⟨[], rfl⟩
      | cons d blanks =>
          have hstep := step_blank hs c (h d List.mem_cons_self)
          refine ⟨pieces (s.step c none).after (d :: blanks), ?_⟩
          simp only [List.singleton_append, pieces]
          rw [hstep, pair_none, if_neg Bool.false_ne_true]
  | case3 s c d rest m hpair ih =>
      obtain ⟨ps, hps⟩ := ih (hafter c (some d) hs)
      refine ⟨ps, ?_⟩
      simp only [List.cons_append, pieces]
      rw [if_pos hpair, hps]
  | case4 s c d rest m hpair ih =>
      obtain ⟨ps, hps⟩ := ih (hafter c (some d) hs)
      refine ⟨ps, ?_⟩
      simp only [List.cons_append, pieces]
      rw [if_neg hpair, ← List.cons_append, hps]

theorem exists_marked_append_blanks (cs : List Char) {blanks : List Char}
    (h : ∀ d ∈ blanks, isBlank d) :
    ∃ ms, marked (cs ++ blanks) = marked cs ++ ms ∧ ∀ m ∈ ms, isBlank m.1 := by
  have hnormal : ∀ delimiter, State.normal = .quoted delimiter → isBlank delimiter = false :=
    fun delimiter heq => absurd heq (by simp)
  obtain ⟨ps, hps⟩ := exists_pieces_append_blanks hnormal cs h
  have hmarked : marked (cs ++ blanks) = marked cs ++ ps.flatMap Piece.marked := by
    rw [marked, hps, List.flatMap_append]
    rfl
  refine ⟨_, hmarked, fun m hm => ?_⟩
  have hfst := congrArg (List.map Prod.fst) hmarked
  rw [List.map_append, map_fst_marked, map_fst_marked] at hfst
  rw [List.append_cancel_left hfst] at h
  exact h _ (List.mem_map.2 ⟨m, hm, rfl⟩)

end Scan

end Tsql
