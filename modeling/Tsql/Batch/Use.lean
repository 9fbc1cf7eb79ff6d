import Tsql.Delimited
import Tsql.Scan.Spans

/-!
`USE` directives, which select the active database for the text behind them.

`directives` cuts a batch into its directives and the texts between them. Nothing is lost:
`flatten_directives` puts the pieces together again.
-/

namespace Tsql.Batch

/-- The name that a text starts with, as a word or in brackets, and the characters it is written
with. -/
def nameAt? (cs : List Char) : Option (List Char × List Char) :=
  match cs with
  | '[' :: rest =>
    if Delimited.isClosed ']' rest then
      some (Delimited.content ']' rest, '[' :: Delimited.body ']' rest)
    else none
  | text =>
    let word := text.takeWhile Text.isWordChar
    some (word, word)

/-- What is taken with a name in front of `rest`: a `;` with the spaces and tabs in front of it, or
nothing. A name ends at a blank, a `;` or the end of the text. -/
def behindName? (rest : List Char) : Option (List Char) :=
  match rest with
  | [] => some []
  | c :: _ =>
    if c = ';' then some [';']
    else if Text.isBlank c then
      let gap := rest.takeWhile fun c => c = ' ' || c = '\t'
      if (rest.drop gap.length).head? = some ';' then some (gap ++ [';']) else some []
    else none

/-- The database name that a text starts with, and the number of bytes it takes, those of the blanks
in front of it and of what is taken behind it included. -/
def databaseName? (cs : List Char) : Option (List Char × Nat) := do
  let text := Text.trimStart cs
  let (name, written) ← nameAt? text
  if name.isEmpty then none
  else
    let taken ← behindName? (text.drop written.length)
    some (name, Text.size (Text.leadingBlanks cs ++ written ++ taken))

structure Directive where
  database : List Char
  /-- The directive as written. -/
  text : List Char
  deriving Repr

/-- The directive that starts at the first of the characters, where `before` is the character in
front of them. -/
def directiveAt? (before : Option Char) : List (Char × Bool) → Option Directive
  | (u, _) :: (s, _) :: (e, _) :: rest =>
    if Text.sameFolded [u, s, e] ['U', 'S', 'E'] && !before.any Text.isWordChar then
      let following := rest.map Prod.fst
      if following.head?.any (!Text.isWordChar ·) then
        (databaseName? following).map fun (name, width) =>
          ⟨name, u :: s :: e :: Text.takeSize width following⟩
      else none
    else none
  | _ => none

theorem text_ne_nil_of_directiveAt? {before : Option Char} {ms : List (Char × Bool)}
    {d : Directive} (h : directiveAt? before ms = some d) : d.text ≠ [] := by
  unfold directiveAt? at h
  split at h
  · simp only at h
    split at h
    · split at h
      · simp only [Option.map_eq_some_iff] at h
        obtain ⟨a, _, rfl⟩ := h
        simp
      · simp at h
    · simp at h
  · simp at h

/-- The text up to the first directive, and each directive with the text up to the next one. A
directive starts outside literals and comments, at the start of a word. -/
def directives (before : Option Char) (ms : List (Char × Bool)) :
    List Char × List (Directive × List Char) :=
  match ms with
  | [] => ([], [])
  | (c, inside) :: rest =>
    match _h : if inside then none else directiveAt? before ((c, inside) :: rest) with
    | some d =>
      let (text, others) := directives d.text.getLast? (((c, inside) :: rest).drop d.text.length)
      ([], (d, text) :: others)
    | none =>
      let (text, others) := directives (some c) rest
      (c :: text, others)
termination_by ms.length
decreasing_by
  · split at _h
    · simp at _h
    · have := List.length_pos_iff.2 (text_ne_nil_of_directiveAt? _h)
      simp only [List.length_drop, List.length_cons]
      omega
  · simp

theorem text_prefix_of_directiveAt? {before : Option Char} {ms : List (Char × Bool)}
    {d : Directive} (h : directiveAt? before ms = some d) : d.text <+: ms.map Prod.fst := by
  unfold directiveAt? at h
  split at h
  · next u _ s _ e _ rest =>
    simp only at h
    split at h
    · split at h
      · simp only [Option.map_eq_some_iff] at h
        obtain ⟨⟨name, width⟩, -, rfl⟩ := h
        obtain ⟨t, ht⟩ := Text.takeSize_prefix width (rest.map Prod.fst)
        refine ⟨t, ?_⟩
        simp only [List.map_cons, List.cons_append, ht]
      · simp at h
    · simp at h
  · simp at h

/-- The directives and the texts around them are the whole text. -/
theorem flatten_directives (before : Option Char) (ms : List (Char × Bool)) :
    (directives before ms).1 ++
      (directives before ms).2.flatMap (fun p => p.1.text ++ p.2) = ms.map Prod.fst := by
  fun_induction directives before ms with
  | case1 => rfl
  | case2 before c inside rest d h text others heq ih =>
    obtain ⟨t, ht⟩ : d.text <+: ((c, inside) :: rest).map Prod.fst := by
      split at h
      · simp at h
      · exact text_prefix_of_directiveAt? h
    have hdrop : (((c, inside) :: rest).drop d.text.length).map Prod.fst = t := by
      rw [List.map_drop, ← ht, List.drop_left]
    rw [heq, hdrop] at ih
    rw [← ht, List.nil_append, List.flatMap_cons, List.append_assoc, ih]
  | case3 before c inside rest _ text others heq ih =>
    rw [heq] at ih
    rw [List.cons_append, ih, List.map_cons]

/-- Part of a batch behind a directive, or in front of the first. -/
structure Segment where
  database : Option String
  sql : String
  hasUse : Bool
  /-- Lines between the start of the batch and the first character of the text. -/
  lineOffset : Nat
  deriving Repr

/-- The segment for a text with `before` line feeds in front of it. -/
def Segment.ofText (database : Option (List Char)) (before : Nat) (text : List Char) : Segment :=
  { database := database.map String.ofList
    sql := String.ofList (Text.trim text)
    hasUse := database.isSome
    lineOffset := before + (Text.leadingBlanks text).count '\n' }

/-- The segments behind directives, where `before` line feeds stand in front of the first. -/
def segmentsFrom (before : Nat) : List (Directive × List Char) → List Segment
  | [] => []
  | (d, text) :: others =>
    let start := before + d.text.count '\n'
    Segment.ofText (some d.database) start text ::
      segmentsFrom (start + text.count '\n') others

/-- The segments of a batch. Each directive opens one, even if it is blank; text in front of the
first directive is one if it is not blank. -/
def segments (cs : List Char) : List Segment :=
  let (first, others) := directives none (Scan.marked cs)
  let opening := Segment.ofText none 0 first
  (if opening.sql.isEmpty then [] else [opening]) ++ segmentsFrom (first.count '\n') others

end Tsql.Batch
