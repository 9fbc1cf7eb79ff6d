import Tsql.Proofs.Statement.Kind
import Tsql.Proofs.Statement.Restart
import Tsql.Token.Lexer

/-!
Definitions of views.

The body of a `CREATE VIEW` is read under the kind of the definition, not under its own: as long as
the two readings meet the same keywords they go in step (`Split.reads_inView`). A body that begins
with `SELECT` stays in the definition. One that begins with `WITH` leaves it at its main keyword,
and behind `CREATE OR` the word `ALTER` begins a statement (`splitStatements_view`).
-/

namespace Tsql

/-- The first words of the definition of a view, up to its body. -/
def IsViewHead (ts : List Token) : Prop :=
  ∃ (create view as : Token) (name : List Token), ts = create :: view :: (name ++ [as]) ∧
    create.isKeyword .CREATE ∧ view.isKeyword .VIEW ∧ view.isWord "VIEW" ∧ IsPath name ∧
      as.isKeyword .AS

namespace Split

/-- Keywords that open a statement and may also continue a query or a change of data. -/
def bodyWords : List Keyword :=
  [.SELECT, .INSERT, .UPDATE, .DELETE, .MERGE, .SET, .EXEC, .EXECUTE]

/-- Whether the keyword belongs to the body of a view behind the token. -/
def staysBehind (last : Token) (word : Keyword) : Bool :=
  !bodyWords.contains word || last.isAnyKeyword [.THEN, .ON, .FOR] ||
    word = .SELECT &&
        (last.isAnyKeyword [.UNION, .ALL, .EXCEPT, .INTERSECT] || last.isKeyword .AS) ||
      (word = .EXEC || word = .EXECUTE) && last.isKeyword .WITH

/-- If the token is a keyword outside groups it belongs to the body of a view, where `depth` groups
are open behind the token `last` in front. -/
def Stays (depth : Nat) (last t : Token) : Prop :=
  depth = 0 → ∀ word, t.kind = .keyword word → staysBehind last word

/-- All keywords outside groups belong to the body of a view. -/
def StaysInView (depth : Nat) (last : Token) : List Token → Prop
  | [] => True
  | t :: ts => Stays depth last t ∧ StaysInView (t.depthAfter depth) t ts

/-- The statement as the body of a view. -/
def Reading.inView (r : Reading) : Reading :=
  { kind := .createView, awaitsBody := false, depth := r.depth, last := r.last }

variable {r r' : Reading} {word : Keyword} {following : List Token}

theorem stays_iff {depth : Nat} {last t : Token} (h : t.kind = .keyword word) :
    Stays depth last t ↔ (depth = 0 → staysBehind last word) := by
  simp [Stays, h]

theorem stays_of_plain {depth : Nat} {last t : Token}
    (h : depth ≠ 0 ∨ t.kind ≠ .semicolon ∧ ∀ word, t.kind ≠ .keyword word) : Stays depth last t :=
  fun hdepth word hword => absurd hword ((h.resolve_left (not_not_intro hdepth)).2 word)

/-! ### The body on its own and in the definition -/

theorem inView_meets?_bodyWord (r : Reading) (h : word ∈ bodyWords) (following : List Token) :
    r.inView.meets? word following = if staysBehind r.last word then some r.inView else none := by
  simp only [bodyWords, List.mem_cons, List.not_mem_nil, or_false] at h
  rcases h with rfl | rfl | rfl | rfl | rfl | rfl | rfl | rfl <;>
    by_cases hlast : r.last.isAnyKeyword [.THEN, .ON, .FOR] <;>
      simp [Reading.meets?, Reading.inView, staysBehind, bodyWords, openers, hlast]
  grind

theorem mem_of_notMem_bodyWords (h : word ∈ openers) (hbody : word ∉ bodyWords) :
    word ∈ [.CREATE, .ALTER, .DROP, .TRUNCATE, .WITH, .DECLARE, .USE, .IF, .WHILE, .PRINT] := by
  revert h hbody
  cases word <;> decide

/-- Any other keyword is met in a view if it is met in the body on its own. -/
theorem inView_meets?_of_notMem (h : word ∉ bodyWords)
    (hkind : r.kind ∈ StatementKind.ofMainKeywords) (hmeets : r.meets? word following = some r') :
    r.inView.meets? word following = some r.inView := by
  by_cases hopens : word ∈ openers
  · have hmem := mem_of_notMem_bodyWords hopens h
    have halter : r.kind ≠ .alter := by
      intro heq
      rw [heq] at hkind
      revert hkind
      decide
    simp only [List.mem_cons, List.not_mem_nil, or_false] at hmem
    rcases hmem with rfl | rfl | rfl | rfl | rfl | rfl | rfl | rfl | rfl | rfl <;>
      simp only [Reading.meets?, Reading.inView, Keyword.dmlKind?] at hmeets ⊢ <;>
        grind
  · simp [Reading.meets?, hopens]

theorem inView_meets? (hkind : r.kind ∈ StatementKind.ofMainKeywords)
    (hmeets : r.meets? word following = some r') :
    r.inView.meets? word following = if staysBehind r.last word then some r.inView else none := by
  by_cases h : word ∈ bodyWords
  · exact inView_meets?_bodyWord r h following
  · have hstays : staysBehind r.last word := by simp [staysBehind, h]
    rw [if_pos hstays, inView_meets?_of_notMem h hkind hmeets]

/-- The keywords of a `SELECT` belong to the body of a view. -/
theorem staysBehind_of_select (hkind : r.kind = .select) (hbody : r.awaitsBody = false)
    (hmeets : r.meets? word following = some r') : staysBehind r.last word ∧ r' = r := by
  constructor
  · by_cases h : word ∈ bodyWords
    · simp only [bodyWords, List.mem_cons, List.not_mem_nil, or_false] at h
      by_cases hlast : r.last.isAnyKeyword [.THEN, .ON, .FOR]
      · simp [staysBehind, hlast]
      · rcases h with rfl | rfl | rfl | rfl | rfl | rfl | rfl | rfl <;>
          simp [Reading.meets?, openers, hkind, hbody, hlast] at hmeets <;>
            simp [staysBehind, hmeets.1]
    · simp [staysBehind, h]
  · rcases meets?_cases hmeets with rfl | ⟨-, hinsert⟩ | ⟨rfl, -⟩
    · rfl
    · rw [hkind] at hinsert
      contradiction
    · rw [← hbody]

/-- A list that continues a `SELECT` stays in a view. -/
theorem staysInView_of_reads {s : State} {ts : List Token} {cases : Nat}
    (hkind : r.kind = .select) (hbody : r.awaitsBody = false)
    (h : Reads [] ⟨some r, cases, false⟩ ts s) : StaysInView r.depth r.last ts := by
  induction ts generalizing r cases with
  | nil => trivial
  | cons t ts ih =>
      cases h with
      | cons head tail =>
          rcases continues_cases head with
            ⟨hplain, rfl⟩ | ⟨-, word, r', cases', hword, hmeets, rfl, -⟩
          · exact ⟨stays_of_plain hplain,
              ih (r := { r with depth := t.depthAfter r.depth, last := t }) hkind hbody tail⟩
          · obtain ⟨hstays, rfl⟩ := staysBehind_of_select hkind hbody hmeets
            exact ⟨(stays_iff hword).2 fun _ => hstays,
              ih (r := { r' with depth := t.depthAfter r'.depth, last := t }) hkind hbody tail⟩

/-- A token that continues a query on its own does so in a view if it belongs to the body of one. -/
theorem step_inView {s : State} {t : Token} {cases : Nat}
    (hkind : r.kind ∈ StatementKind.ofMainKeywords)
    (h : State.step ⟨some r, cases, false⟩ t following = (.continues, s)) :
    ∃ r' cases', s = ⟨some r', cases', false⟩ ∧ r'.kind = r.kind ∧ r'.depth = t.depthAfter r.depth ∧
      r'.last = t ∧ ∀ s', State.step ⟨some r.inView, cases, false⟩ t following = (.continues, s') ↔
        Stays r.depth r.last t ∧ s' = ⟨some r'.inView, cases', false⟩ := by
  rcases continues_cases h with ⟨hplain, rfl⟩ | ⟨hdepth, word, r', cases', hword, hmeets, rfl, hall⟩
  · refine ⟨_, cases, rfl, rfl, rfl, rfl, fun s' => ?_⟩
    have hstays : Stays r.depth r.last t := stays_of_plain hplain
    simp only [step_some r.inView cases hplain, hstays, true_and, Prod.mk.injEq]
    exact eq_comm
  · have hkind' := kind_of_meets? hmeets
    have hdepth' := depth_of_meets? hmeets
    refine ⟨_, cases', rfl, hkind', congrArg t.depthAfter hdepth', rfl, fun s' => ?_⟩
    have hview := inView_meets? hkind hmeets
    rw [hall r.inView hdepth, stays_iff hword]
    by_cases hstays : staysBehind r.last word
    · rw [if_pos hstays] at hview
      have hmeet := meet_eq_continues (s := ⟨some r.inView, cases', false⟩) (t := t) rfl hview
      rw [hmeet]
      simp only [hstays, implies_true, true_and, Prod.mk.injEq, Reading.inView, hdepth']
      exact eq_comm
    · rw [if_neg hstays] at hview
      have hmeet := meet_eq_opens (s := ⟨some r.inView, cases', false⟩) (t := t) rfl hview
      simp [hmeet, hstays, hdepth]

/-- What continues a query on its own continues it in a view, up to the first keyword that does not
belong to the body of one. -/
theorem reads_inView {s : State} {ts : List Token} {cases : Nat}
    (hkind : r.kind ∈ StatementKind.ofMainKeywords) (h : Reads [] ⟨some r, cases, false⟩ ts s) :
    (∃ s', Reads [] ⟨some r.inView, cases, false⟩ ts s') ↔ StaysInView r.depth r.last ts := by
  induction ts generalizing r cases with
  | nil => exact ⟨fun _ => trivial, fun _ => ⟨_, .nil _⟩⟩
  | cons t ts ih =>
      cases h with
      | cons head tail =>
          obtain ⟨r', cases', rfl, hkind', hdepth, hlast, hview⟩ := step_inView hkind head
          rw [← hkind'] at hkind
          have ih := ih hkind tail
          rw [hdepth, hlast] at ih
          constructor
          · rintro ⟨s', hreads⟩
            cases hreads with
            | cons head' tail' =>
                obtain ⟨hstays, rfl⟩ := (hview _).1 head'
                exact ⟨hstays, ih.1 ⟨s', tail'⟩⟩
          · rintro ⟨hstays, hrest⟩
            obtain ⟨s', tail'⟩ := ih.2 hrest
            exact ⟨s', .cons ((hview _).2 ⟨hstays, rfl⟩) tail'⟩

/-! ### The head -/

section

variable {create : Token} {head : List Token}

theorem ofTokens_view (h : IsViewHead (create :: head)) (ts : List Token) :
    StatementKind.ofTokens (create :: (head ++ ts)) = .createView := by
  obtain ⟨_, view, as, name, heq, hcreate, hview, hword, -⟩ := h
  obtain ⟨rfl, rfl⟩ := List.cons.inj heq
  exact StatementKind.ofTokens_of_view hcreate (List.forall_mem_nil _) hview hword _

/-- In front of its body a definition is read as one statement. -/
theorem exists_reads_head (h : IsViewHead (create :: head)) (behind : List Token) :
    ∃ as, as.isKeyword .AS ∧
      State.step {} create (head ++ behind) = (.opens, reading .createView create) ∧
        Reads behind (reading .createView create) head (reading .createView as) := by
  have hopens := ofTokens_view h behind
  obtain ⟨_, view, as, name, heq, hcreate, hview, hword, hname, has⟩ := h
  obtain ⟨rfl, rfl⟩ := List.cons.inj heq
  have hkind : create.kind = .keyword .CREATE := of_decide_eq_true hcreate
  obtain ⟨last, hpath⟩ := reads_path ([as] ++ behind) .createView view hname
  have has' := reads_word behind .createView last has (by decide) (by decide)
  exact ⟨as, has, step_begins hkind (by decide) (by decide) hopens,
    (reads_word _ .createView create hview (by decide) (by decide)).append (hpath.append has')⟩

end

/-! ### The body -/

section

variable {w : Token} {ts : List Token}

theorem exists_keyword_of_body (hw : w.isAnyKeyword [.SELECT, .WITH]) :
    ∃ word, w.kind = .keyword word ∧ (word = .SELECT ∨ word = .WITH) := by
  unfold Token.isAnyKeyword at hw
  split at hw
  · next word hkind => exact ⟨word, hkind, by simpa using hw⟩
  · contradiction

theorem kind_start_mem (hw : w.isAnyKeyword [.SELECT, .WITH]) (ts : List Token) :
    (Reading.start w ts).kind ∈ StatementKind.ofMainKeywords := by
  obtain ⟨word, hkind, rfl | rfl⟩ := exists_keyword_of_body hw
  · simp [Reading.start, StatementKind.ofTokens_of_dmlKind? hkind rfl, StatementKind.ofMainKeywords]
  · simp only [Reading.start, StatementKind.ofTokens, hkind]
    exact StatementKind.ofBody_mem 0 ts

theorem depthAfter_of_body (hw : w.isAnyKeyword [.SELECT, .WITH]) : w.depthAfter 0 = 0 := by
  obtain ⟨word, hkind, -⟩ := exists_keyword_of_body hw
  exact Token.depthAfter_of_keyword hkind 0

theorem start_inView (hw : w.isAnyKeyword [.SELECT, .WITH]) (ts : List Token) :
    ⟨some (Reading.start w ts).inView, 0, false⟩ = reading .createView w := by
  simp [Reading.start, Reading.inView, reading, depthAfter_of_body hw]

/-- All tokens behind the first continue a query that is one statement. -/
theorem exists_reads_body (hw : w.isAnyKeyword [.SELECT, .WITH])
    (hone : splitStatements (w :: ts) = [⟨0, w :: ts⟩]) :
    ∃ s, Reads [] ⟨some (.start w ts), 0, false⟩ ts s := by
  obtain ⟨word, hkind, hword⟩ := exists_keyword_of_body hw
  obtain ⟨s, s', hopens, hreads⟩ := splitStatements_eq_singleton_iff.1 hone
  rw [step_eq_opens hkind (by rcases hword with rfl | rfl <;> decide)] at hopens
  obtain rfl := (Prod.mk.inj hopens).2
  exact ⟨s', hreads⟩

/-- The keyword that begins the body continues the definition. -/
theorem step_body {as : Token} (has : as.isKeyword .AS) (hw : w.isAnyKeyword [.SELECT, .WITH])
    (following : List Token) :
    (reading .createView as).step w following = (.continues, reading .createView w) := by
  have has : as.kind = .keyword .AS := of_decide_eq_true has
  obtain ⟨word, hkind, hword⟩ := exists_keyword_of_body hw
  have hmeets : Reading.meets? { kind := .createView, awaitsBody := false, last := as } word
      following = some { kind := .createView, awaitsBody := false, last := as } := by
    rcases hword with rfl | rfl <;>
      simp [Reading.meets?, openers, Token.isAnyKeyword, Token.isKeyword, Keyword.dmlKind?, has]
  rw [step_keyword hkind (by rcases hword with rfl | rfl <;> decide) following _ rfl rfl,
    meet_eq_continues rfl hmeets, depthAfter_of_body hw]
  rfl

/-- Behind an `OR` the word `ALTER` begins a statement. -/
theorem step_alter {kind : StatementKind} {or alter : Token} (hor : or.isKeyword .OR)
    (halter : alter.isKeyword .ALTER) (following : List Token) :
    (reading kind or).step alter following = State.step {} alter following := by
  have hor : or.kind = .keyword .OR := of_decide_eq_true hor
  have hkind : alter.kind = .keyword .ALTER := of_decide_eq_true halter
  have hmeets : Reading.meets? { kind := kind, awaitsBody := false, last := or } .ALTER following =
      none := by
    simp [Reading.meets?, openers, Token.isAnyKeyword, hor]
  rw [step_keyword hkind (by decide) following _ rfl rfl, step_eq_opens hkind (by decide)]
  exact meet_eq_opens rfl hmeets

end

end Split

section

variable {create w : Token} {head ts : List Token}

theorem splitStatements_createView_iff (hhead : IsViewHead (create :: head))
    (hw : w.isAnyKeyword [.SELECT, .WITH]) (hone : splitStatements (w :: ts) = [⟨0, w :: ts⟩]) :
    splitStatements (create :: (head ++ w :: ts)) = [⟨0, create :: (head ++ w :: ts)⟩] ↔
      Split.StaysInView 0 w ts := by
  obtain ⟨as, has, hopens, hreads⟩ := Split.exists_reads_head hhead (w :: ts ++ [])
  rw [List.append_nil] at hopens
  obtain ⟨s, hbody⟩ := Split.exists_reads_body hw hone
  have hview := Split.reads_inView (Split.kind_start_mem hw ts) hbody
  rw [Split.start_inView hw, Split.Reading.start, Split.depthAfter_of_body hw] at hview
  have hbegin := Split.step_body has hw (ts ++ [])
  rw [splitStatements_eq_singleton_iff, ← hview]
  constructor
  · rintro ⟨s₀, s', hopens', hall⟩
    rw [hopens] at hopens'
    obtain rfl := (Prod.mk.inj hopens').2
    cases hall.of_append hreads with
    | cons head' tail' =>
        rw [hbegin] at head'
        obtain rfl := (Prod.mk.inj head').2
        exact ⟨s', tail'⟩
  · rintro ⟨s', hrest⟩
    exact ⟨_, s', hopens, hreads.append (.cons hbegin hrest)⟩

theorem staysInView_of_select (hw : w.isKeyword .SELECT)
    (hone : splitStatements (w :: ts) = [⟨0, w :: ts⟩]) : Split.StaysInView 0 w ts := by
  have hkind : w.kind = .keyword .SELECT := of_decide_eq_true hw
  have hany : w.isAnyKeyword [.SELECT, .WITH] := by simp [Token.isAnyKeyword, hkind]
  obtain ⟨s, hbody⟩ := Split.exists_reads_body hany hone
  have hstays := Split.staysInView_of_reads (StatementKind.ofTokens_of_dmlKind? hkind rfl ts)
    (by simp [Split.Reading.start, Token.isKeyword, hkind]) hbody
  rwa [Split.Reading.start, Split.depthAfter_of_body hany] at hstays

/-- `CREATE OR` is a statement of its own. -/
theorem splitStatements_createOr {or alter : Token} {rest : List Token}
    (hcreate : create.isKeyword .CREATE) (hor : or.isKeyword .OR)
    (halter : alter.isKeyword .ALTER) :
    splitStatements (create :: or :: alter :: rest) =
      ⟨0, [create, or]⟩ :: (splitStatements (alter :: rest)).map (Split.Segment.shift 2) := by
  have hkind : create.kind = .keyword .CREATE := of_decide_eq_true hcreate
  have hopens := Split.step_begins hkind (by decide) (by decide)
    (rfl : StatementKind.ofTokens (create :: ([or] ++ alter :: rest)) = _)
  exact splitStatements_append_of_opens hopens
    (Split.reads_word _ _ create hor (by decide) (by decide)) (Split.step_alter hor halter rest)

end

/-- A query that is one statement is one in the definition of a view just if all its keywords stay
in it, which those of a `SELECT` do. Behind `CREATE OR` the word `ALTER` begins the next
statement. -/
theorem splitStatements_view {create w : Token} {head ts : List Token}
    (hhead : IsViewHead (create :: head)) (hw : w.isAnyKeyword [.SELECT, .WITH])
    (hone : splitStatements (w :: ts) = [⟨0, w :: ts⟩]) :
    StatementKind.ofTokens (create :: (head ++ w :: ts)) = .createView ∧
      (splitStatements (create :: (head ++ w :: ts)) = [⟨0, create :: (head ++ w :: ts)⟩] ↔
        Split.StaysInView 0 w ts) ∧
      (w.isKeyword .SELECT → Split.StaysInView 0 w ts) ∧
      ∀ or alter : Token, or.isKeyword .OR → alter.isKeyword .ALTER →
        StatementKind.ofTokens (create :: or :: alter :: (head ++ w :: ts)) = .createView ∧
          splitStatements (create :: or :: alter :: (head ++ w :: ts)) = ⟨0, [create, or]⟩ ::
            (splitStatements (alter :: (head ++ w :: ts))).map (Split.Segment.shift 2) := by
  refine ⟨Split.ofTokens_view hhead _, splitStatements_createView_iff hhead hw hone,
    fun hselect => staysInView_of_select hselect hone, fun or alter hor halter => ?_⟩
  obtain ⟨_, view, as, name, heq, hcreate, hview, hword, -⟩ := hhead
  obtain ⟨rfl, rfl⟩ := List.cons.inj heq
  refine ⟨?_, splitStatements_createOr hcreate hor halter⟩
  have hor : or.kind = .keyword .OR := of_decide_eq_true hor
  have halter : alter.kind = .keyword .ALTER := of_decide_eq_true halter
  have hfront : ∀ t ∈ [or, alter], t.isAnyKeyword [.OR, .ALTER] := by
    simp [Token.isAnyKeyword, hor, halter]
  exact StatementKind.ofTokens_of_view hcreate hfront hview hword _

/-- The query of the view is a statement of its own and is one in the view. -/
theorem splitStatements_view_select :
    let ts := tokenize "CREATE VIEW v AS SELECT 1"
    splitStatements (ts.drop 4) = [⟨0, ts.drop 4⟩] ∧ splitStatements ts = [⟨0, ts⟩] := by
  intro ts
  have hfacts : ts.map Token.kind = [.keyword .CREATE, .keyword .VIEW, .identifier, .keyword .AS,
      .keyword .SELECT, .number] ∧ (∀ t ∈ ts[1]?, t.isWord "VIEW") ∧
      (splitStatements (ts.drop 4)).map (fun g => (g.first, g.stop)) =
        [(0, (ts.drop 4).length)] := by
    decide +kernel
  obtain ⟨hkinds, hword, hone⟩ := hfacts
  generalize ts = ts at hkinds hword hone ⊢
  simp only [List.map_eq_cons_iff, List.map_eq_nil_iff] at hkinds
  obtain ⟨create, _, rfl, hcreate, view, _, rfl, hview, name, _, rfl, hname, as, _, rfl, has,
    select, _, rfl, hselect, number, _, rfl, hnumber, rfl⟩ := hkinds
  have hone := splitStatements_eq_singleton_of_stop hone
  have hhead : IsViewHead [create, view, name, as] :=
    ⟨create, view, as, [name], rfl, decide_eq_true hcreate, decide_eq_true hview, hword view rfl,
      by simp [IsPath, Token.isName, hname], decide_eq_true has⟩
  have hview := splitStatements_view hhead (by simp [Token.isAnyKeyword, hselect]) hone
  exact ⟨hone, hview.2.1.2 (hview.2.2.1 (decide_eq_true hselect))⟩

/-- A query behind common table expressions leaves the view, and so does the definition behind
`CREATE OR`. -/
theorem splitStatements_ne_view :
    let ts := tokenize "CREATE VIEW v AS WITH c AS (SELECT 1 AS x) SELECT x FROM c"
    let us := tokenize "CREATE OR ALTER VIEW v AS SELECT 1"
    (ts.take 5).map Token.kind =
        [.keyword .CREATE, .keyword .VIEW, .identifier, .keyword .AS, .keyword .WITH] ∧
      splitStatements (ts.drop 4) = [⟨0, ts.drop 4⟩] ∧ splitStatements ts ≠ [⟨0, ts⟩] ∧
      us.map Token.kind = [.keyword .CREATE, .keyword .OR, .keyword .ALTER, .keyword .VIEW,
        .identifier, .keyword .AS, .keyword .SELECT, .number] ∧
      splitStatements (us.drop 6) = [⟨0, us.drop 6⟩] ∧ splitStatements us ≠ [⟨0, us⟩] := by
  intro ts us
  have hfacts : (ts.take 5).map Token.kind =
        [.keyword .CREATE, .keyword .VIEW, .identifier, .keyword .AS, .keyword .WITH] ∧
      (splitStatements (ts.drop 4)).map (fun g => (g.first, g.stop)) = [(0, (ts.drop 4).length)] ∧
      (splitStatements ts).length = 2 ∧
      us.map Token.kind = [.keyword .CREATE, .keyword .OR, .keyword .ALTER, .keyword .VIEW,
        .identifier, .keyword .AS, .keyword .SELECT, .number] ∧
      (splitStatements (us.drop 6)).map (fun g => (g.first, g.stop)) = [(0, (us.drop 6).length)] ∧
      (splitStatements us).length = 3 := by
    decide +kernel
  obtain ⟨hts, hone, htwo, hus, hone', hthree⟩ := hfacts
  refine ⟨hts, splitStatements_eq_singleton_of_stop hone, fun heq => ?_, hus,
    splitStatements_eq_singleton_of_stop hone', fun heq => ?_⟩
  · simp [heq] at htwo
  · simp [heq] at hthree

end Tsql
