import Tsql.Proofs.Scope.References

/-!
What a name means at a place, with the place where it is declared.

A place is given by frames, the scopes around it from the inside out. A frame notes whether the way to
the place has gone on from a reference to a common table expression to its body. `declaration?` looks
a name up in frames and finds the expression of `Scope.resolveCte` (`resolveCte_of_declaration?`) with
the frames of the `WITH` that declares it. In a statement without a name that is declared where it is
visible already, that place sees what it sees from the first one too (`declaration?_behind`).
-/

namespace Tsql

/-- A scope around a place. The body of a common table expression that the way here has entered from a
reference has the number of the expression in its `WITH`. -/
structure Frame where
  scope : Scope
  expands : Option Nat

/-- A common table expression with the place of its `WITH`. -/
structure Declaration where
  cte : Cte
  index : Nat
  frame : Frame
  outer : List Frame
  /-- The place that the name stands at has been entered from a reference to the expression. -/
  isExpanding : Bool

namespace Frame

variable {name x : String} {horizon expands : Option Nat} {f : Frame} {outer frames : List Frame}
  {d : Declaration} {s : Statement}

def scopes (frames : List Frame) : List Scope :=
  frames.map Frame.scope

/-- The expressions that are declared in the scope, up to a horizon. -/
def ctes (f : Frame) (horizon : Option Nat) : List Cte :=
  horizon.elim f.scope.statement.ctes f.scope.statement.ctes.take

/-- The declaration of the expression that a name means, looked up from the inside out. The first frame
is seen from inside, from a scope with the given horizon. -/
def declaration? (name : String) (horizon expands : Option Nat) : List Frame → Option Declaration
  | [] => none
  | f :: outer =>
    match (f.ctes horizon).zipIdx.find? fun c => Ident.same c.1.name name with
    | some (c, i) => some ⟨c, i, f, outer, expands = some i⟩
    | none => declaration? name f.scope.horizon f.expands outer

/-! ### Lookup -/

theorem find?_zipIdx (cs : List Cte) (p : Cte → Bool) :
    (cs.zipIdx.find? fun c => p c.1).map Prod.fst = cs.find? p := by
  rw [show (fun c : Cte × Nat => p c.1) = p ∘ Prod.fst from rfl, ← List.find?_map,
    List.zipIdx_map_fst]

theorem find?_declaredCtes (name : String) (horizon expands : Option Nat) (frames : List Frame) :
    ((Scope.declaredCtes horizon (scopes frames)).find? fun c => Ident.same c.name name) =
      (declaration? name horizon expands frames).map Declaration.cte := by
  induction frames generalizing horizon expands with
  | nil => rfl
  | cons f outer ih =>
      have hfind := find?_zipIdx (f.ctes horizon) fun c => Ident.same c.name name
      rw [scopes, List.map_cons, Scope.declaredCtes, List.find?_append, ← ctes, ← hfind, ← scopes,
        ih f.scope.horizon f.expands, declaration?]
      cases (f.ctes horizon).zipIdx.find? fun c => Ident.same c.1.name name <;> rfl

theorem resolveCte_of_declaration? (h : declaration? name none expands frames = some d) :
    Scope.resolveCte name (scopes frames) = .ok (some d.cte) := by
  rw [Scope.resolveCte, Scope.find?_visibleCtes, find?_declaredCtes name none expands, h]
  rfl

theorem of_declaration? (h : declaration? name horizon expands frames = some d) :
    d.cte ∈ Scope.declaredCtes horizon (scopes frames) ∧ Ident.same d.cte.name name := by
  have hfind := find?_declaredCtes name horizon expands frames
  rw [h, Option.map_some] at hfind
  have hname := List.find?_some hfind
  exact ⟨List.mem_of_find?_eq_some hfind, hname⟩

theorem declaration?_isSome (expands : Option Nat)
    (h : ∃ c ∈ Scope.declaredCtes horizon (scopes frames), Ident.same c.name name) :
    ∃ d, declaration? name horizon expands frames = some d := by
  have hfind := List.find?_isSome.2 h
  rw [find?_declaredCtes name horizon expands, Option.isSome_map] at hfind
  exact Option.isSome_iff_exists.1 hfind

theorem getElem?_ctes {c : Cte} {i : Nat} (h : (f.ctes horizon)[i]? = some c) :
    f.scope.statement.ctes[i]? = some c ∧ ∀ k, horizon = some k → i < k := by
  cases horizon with
  | none => exact ⟨h, by simp⟩
  | some k =>
      rw [ctes, Option.elim_some, List.getElem?_take] at h
      split at h
      · next hlt => exact ⟨h, fun k' hk' => Option.some.inj hk' ▸ hlt⟩
      · contradiction

/-- The expression has its number in the `WITH`, which lies around the place. -/
theorem suffix_of_declaration? (h : declaration? name horizon expands frames = some d) :
    d.frame :: d.outer <:+ frames ∧ d.frame.scope.statement.ctes[d.index]? = some d.cte := by
  induction frames generalizing horizon expands with
  | nil => exact absurd h (Option.some_ne_none d).symm
  | cons f outer ih =>
      rw [declaration?] at h
      split at h
      · next c i hfind =>
        obtain rfl := Option.some.inj h
        have hget := List.mem_zipIdx_iff_getElem?.1 (List.mem_of_find?_eq_some hfind)
        exact ⟨List.suffix_rfl, (getElem?_ctes hget).1⟩
      · obtain ⟨hsuffix, hget⟩ := ih h
        exact ⟨hsuffix.trans (List.suffix_cons f outer), hget⟩

/-- The first expression of a name up to a narrower horizon is the first one up to the horizon. -/
theorem find?_ctes_of_le {k : Nat} {c : Cte × Nat} (hle : ∀ k', horizon = some k' → k ≤ k')
    (h : ((f.ctes (some k)).zipIdx.find? fun c => Ident.same c.1.name name) = some c) :
    ((f.ctes horizon).zipIdx.find? fun c => Ident.same c.1.name name) = some c := by
  have hprefix : f.ctes (some k) <+: f.ctes horizon := by
    cases horizon with
    | none => exact List.take_prefix k _
    | some k' => exact List.take_prefix_take_left (hle k' rfl)
  obtain ⟨rest, hrest⟩ := hprefix
  rw [← hrest, List.zipIdx_append, List.find?_append, h]
  rfl

end Frame

/-! ### Ways -/

/-- The frames lead to a place in the statement, and those that are entered from references are bodies
of common table expressions. -/
inductive Frame.Way (s : Statement) : List Frame → Prop
  | statement : Way s [⟨.ofStatement s, none⟩]
  | inside {f : Frame} {outer : List Frame} {inner : Scope} (h : Way s (f :: outer))
      (hinner : inner ∈ f.scope.inner) (id : Nat) :
      Way s (⟨{ inner with id := id }, none⟩ :: f :: outer)
  | body {f : Frame} {outer : List Frame} {c : Cte} {i : Nat} (h : Way s (f :: outer))
      (hc : f.scope.statement.ctes[i]? = some c) : Way s (⟨f.scope.ofCte i c, some i⟩ :: f :: outer)

namespace Frame.Way

variable {s : Statement} {f : Frame} {outer frames : List Frame}

theorem ofPath {path : List Scope} (h : Scope.PathOf s path) : Way s (path.map (⟨·, none⟩)) := by
  induction h with
  | statement => exact .statement
  | inside h hinner id ih => exact ih.inside hinner id

theorem pathOf (h : Way s frames) : Scope.PathOf s (scopes frames) := by
  induction h with
  | statement => exact .statement
  | inside h hinner id ih => exact ih.inside hinner id
  | body h hc ih => exact ih.inside (Scope.mem_inner.2 (.inl ⟨_, _, hc, rfl⟩)) 0

/-- The frames around one on the way are a way. -/
theorem of_suffix (h : Way s frames) (hsuffix : f :: outer <:+ frames) : Way s (f :: outer) := by
  induction h with
  | statement =>
      rcases List.suffix_cons_iff.1 hsuffix with heq | hnil
      · exact heq ▸ .statement
      · exact absurd (List.suffix_nil.1 hnil) (List.cons_ne_nil f outer)
  | inside h hinner id ih =>
      rcases List.suffix_cons_iff.1 hsuffix with heq | hsuffix
      · exact heq ▸ .inside h hinner id
      · exact ih hsuffix
  | body h hc ih =>
      rcases List.suffix_cons_iff.1 hsuffix with heq | hsuffix
      · exact heq ▸ .body h hc
      · exact ih hsuffix

/-- A body that is entered from a reference sees the expressions in front of its own, and perhaps
itself. -/
theorem horizon (h : Way s (f :: outer)) {i : Nat} (hi : f.expands = some i) :
    ∃ k, f.scope.horizon = some k ∧ k ≤ i + 1 := by
  cases h with
  | statement => contradiction
  | inside h hinner id => contradiction
  | body h hc =>
      obtain rfl := Option.some.inj hi
      refine ⟨_, rfl, ?_⟩
      split <;> omega

/-- An expression is being expanded only where its body is one of the scopes around. -/
theorem exists_body (h : Way s (f :: outer)) {name : String} {d : Declaration}
    (hd : declaration? name f.scope.horizon f.expands outer = some d) (hexpanding : d.isExpanding) :
    ∃ g ∈ f :: outer, g.expands.isSome ∧ g.scope.statement = d.cte.body := by
  induction outer generalizing f with
  | nil => simp [declaration?] at hd
  | cons g outer ih =>
      rw [declaration?] at hd
      split at hd
      · next c i hfind =>
        obtain rfl := Option.some.inj hd
        have hget := List.mem_zipIdx_iff_getElem?.1 (List.mem_of_find?_eq_some hfind)
        have hc := (getElem?_ctes hget).1
        have hexpands := of_decide_eq_true hexpanding
        cases h with
        | inside h hinner id => contradiction
        | body h hc' =>
            obtain rfl := Option.some.inj hexpands
            obtain rfl := Option.some.inj (hc.symm.trans hc')
            exact ⟨_, List.mem_cons_self, rfl, rfl⟩
      · obtain ⟨b, hb, hbody⟩ := ih (h.of_suffix (List.suffix_cons f (g :: outer))) hd
        exact ⟨b, List.mem_cons_of_mem f hb, hbody⟩

theorem exists_body_of_isExpanding (h : Way s frames) {name : String} {d : Declaration}
    (hd : declaration? name none none frames = some d) (hexpanding : d.isExpanding) :
    ∃ g ∈ frames, g.expands.isSome ∧ g.scope.statement = d.cte.body := by
  cases frames with
  | nil => simp [declaration?] at hd
  | cons f outer =>
      rw [declaration?] at hd
      split at hd
      · obtain rfl := Option.some.inj hd
        simp at hexpanding
      · exact h.exists_body hd hexpanding

end Frame.Way

/-! ### Names that hide no other -/

/-- No `WITH` of the statement declares a name that is visible where it stands. -/
def Statement.Unshadowed (s : Statement) : Prop :=
  ∀ scope outer, Scope.PathOf s (scope :: outer) → ∀ c ∈ scope.statement.ctes,
    ∀ d ∈ Scope.declaredCtes scope.horizon outer, ¬ Ident.same c.name d.name

/-- It is enough that no statement declares a name of a statement around it. -/
theorem Statement.unshadowed_of_nested {s : Statement}
    (h : ∀ n ∈ s.all, ∀ d ∈ n.ctes, ∀ m ∈ n.nested.flatMap Statement.all, ∀ c ∈ m.ctes,
      ¬ Ident.same c.name d.name) : s.Unshadowed := by
  intro scope outer hpath c hc d hd
  obtain ⟨o, ho, hdeclared⟩ := Scope.exists_of_mem_declaredCtes hd
  obtain ⟨n, hn, hscope⟩ := hpath.exists_nested o ho
  have ho' := hpath.pathWithin o (List.mem_cons_of_mem scope ho)
  exact h o.statement ho' d hdeclared _ (List.mem_flatMap.2 ⟨n, hn, hscope⟩) c hc

namespace Frame

variable {name x : String} {horizon expands : Option Nat} {f : Frame} {outer frames : List Frame}
  {d d' : Declaration} {s : Statement}

/-- What a name means around a scope it means in the scope. -/
theorem declaration?_cons (hs : s.Unshadowed) (hway : Way s (f :: outer))
    (h : declaration? name f.scope.horizon f.expands outer = some d) :
    (∀ c ∈ f.scope.statement.ctes, ¬ Ident.same c.name name) ∧
      ∀ horizon expands, declaration? name horizon expands (f :: outer) = some d := by
  obtain ⟨hmem, hname⟩ := of_declaration? h
  have hnone : ∀ c ∈ f.scope.statement.ctes, ¬ Ident.same c.name name := by
    intro c hc hsame
    refine hs f.scope (scopes outer) hway.pathOf c hc d.cte hmem ?_
    exact Ident.same_trans hsame ((Ident.same_comm name d.cte.name).trans hname)
  refine ⟨hnone, fun horizon expands => ?_⟩
  have hfind : ((f.ctes horizon).zipIdx.find? fun c => Ident.same c.1.name name) = none := by
    rw [List.find?_eq_none]
    rintro ⟨c, i⟩ hc
    have hget := (getElem?_ctes (List.mem_zipIdx_iff_getElem?.1 hc)).1
    exact hnone c (List.mem_of_getElem? hget)
  rw [declaration?, hfind, h]

/-- The case where the expression is declared in the first frame. -/
theorem declaration?_here (hs : s.Unshadowed) (hway : Way s (f :: outer)) {c : Cte} {i : Nat}
    (hfind : ((f.ctes horizon).zipIdx.find? fun c => Ident.same c.1.name name) = some (c, i))
    (hexpands : ∀ i, expands = some i → ∃ k, horizon = some k ∧ k ≤ i + 1) {k : Nat}
    (hk : k ≤ i + 1) (hd' : declaration? x (some k) (some i) (f :: outer) = some d') :
    (Ident.same c.name x → d'.isExpanding) ∧
      (¬ Ident.same c.name x → declaration? x horizon expands (f :: outer) = some d') := by
  have hget := List.mem_zipIdx_iff_getElem?.1 (List.mem_of_find?_eq_some hfind)
  obtain ⟨hc, hlt⟩ := getElem?_ctes hget
  have hcut : ∀ k', horizon = some k' → k ≤ k' := fun k' hk' => Nat.le_trans hk (hlt k' hk')
  rw [declaration?] at hd'
  split at hd'
  · next c' j hfind' =>
    obtain rfl := Option.some.inj hd'
    have hfirst := find?_ctes_of_le hcut hfind'
    constructor
    · intro hsame
      have hname := List.find?_some hfind
      have hmeans : Ident.same name x :=
        Ident.same_trans ((Ident.same_comm name c.name).trans hname) hsame
      simp only [Ident.same_congr hmeans] at hfind
      obtain ⟨-, rfl⟩ := Prod.mk.inj (Option.some.inj (hfind.symm.trans hfirst))
      exact decide_eq_true rfl
    · intro hother
      have hget' := List.mem_zipIdx_iff_getElem?.1 (List.mem_of_find?_eq_some hfind')
      obtain ⟨hc', hlt'⟩ := getElem?_ctes hget'
      have hne : i ≠ j := by
        rintro rfl
        obtain rfl : c = c' := Option.some.inj (hc.symm.trans hc')
        have hsame := List.find?_some hfind'
        exact hother hsame
      -- the body of an expression in front does not see this one, so the way is not from there
      have hexpands' : expands ≠ some j := by
        intro he
        obtain ⟨k', hk', hle⟩ := hexpands j he
        have hi := hlt k' hk'
        have hj := hlt' k rfl
        dsimp only at hi hj
        omega
      simp [declaration?, hfirst, hne, hexpands']
  · obtain ⟨hfree, hsees⟩ := declaration?_cons hs hway hd'
    exact ⟨fun hsame => absurd hsame (hfree c (List.mem_of_getElem? hc)),
      fun _ => hsees horizon expands⟩

/-- The place of a declaration sees of the names that are visible at the first place what this sees, up
to the expression that is declared. Only in its own body the expression is not seen. -/
theorem declaration?_behind (hs : s.Unshadowed) (hway : Way s frames)
    (hd : declaration? name horizon expands frames = some d)
    (hexpands : ∀ i, expands = some i → ∃ k, horizon = some k ∧ k ≤ i + 1) {k : Nat}
    (hk : k ≤ d.index + 1)
    (hd' : declaration? x (some k) (some d.index) (d.frame :: d.outer) = some d') :
    (Ident.same d.cte.name x → d'.isExpanding) ∧
      (¬ Ident.same d.cte.name x → declaration? x horizon expands frames = some d') := by
  induction frames generalizing horizon expands with
  | nil => simp [declaration?] at hd
  | cons f outer ih =>
      rw [declaration?] at hd
      split at hd
      · next c i hfind =>
        obtain rfl := Option.some.inj hd
        exact declaration?_here hs hway hfind hexpands hk hd'
      · cases outer with
        | nil => simp [declaration?] at hd
        | cons g outer =>
            have hway' := hway.of_suffix (List.suffix_cons f (g :: outer))
            obtain ⟨hself, hothers⟩ := ih hway' hd fun i hi => hway.horizon hi
            exact ⟨hself, fun hother =>
              (declaration?_cons hs hway (hothers hother)).2 horizon expands⟩

end Frame

end Tsql
