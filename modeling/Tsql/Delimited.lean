import Tsql.Text.Basic

/-!
Text between delimiters, where the closing delimiter is written twice to stand for itself:
`'it''s'`, `[a]]b]`, `"x"`.

`body` is the text up to the end of the literal, `content` what it means, `enclose` the way to
write it. Reading what was written gives the text back (`content_doubled_append`), whatever
follows, as long as no further delimiter does.
-/

namespace Tsql.Delimited

/-- The characters after the opening delimiter that belong to the literal, its closing delimiter
included. Without one the literal runs to the end of the text. -/
def body (close : Char) : List Char → List Char
  | [] => []
  | [c] => [c]
  | c :: d :: rest =>
    if c = close then
      if d = close then c :: d :: body close rest else [c]
    else c :: body close (d :: rest)

/-- The characters that the literal stands for. -/
def content (close : Char) : List Char → List Char
  | [] => []
  | [c] => if c = close then [] else [c]
  | c :: d :: rest =>
    if c = close then
      if d = close then close :: content close rest else []
    else c :: content close (d :: rest)

/-- Whether the literal has a closing delimiter. -/
def isClosed (close : Char) : List Char → Bool
  | [] => false
  | [c] => c = close
  | c :: d :: rest =>
    if c = close then
      if d = close then isClosed close rest else true
    else isClosed close (d :: rest)

theorem isClosed_cons {close c : Char} (hc : c ≠ close) (lit : List Char) :
    isClosed close (c :: lit) = isClosed close lit := by
  cases lit with
  | nil => simp [isClosed, hc]
  | cons d lit => simp [isClosed, hc]

theorem content_cons {close c : Char} (hc : c ≠ close) (cs : List Char) :
    content close (c :: cs) = c :: content close cs := by
  cases cs with
  | nil => simp [content, hc]
  | cons d cs => simp [content, hc]

/-- The text with each delimiter doubled. -/
def doubled (close : Char) : List Char → List Char
  | [] => []
  | c :: rest => if c = close then close :: close :: doubled close rest else c :: doubled close rest

/-- The text with each pair of delimiters made one, from left to right. -/
def undoubled (close : Char) : List Char → List Char
  | [] => []
  | [c] => [c]
  | c :: d :: rest =>
    if c = close ∧ d = close then close :: undoubled close rest else c :: undoubled close (d :: rest)

theorem undoubled_doubled (close : Char) (cs : List Char) :
    undoubled close (doubled close cs) = cs := by
  induction cs with
  | nil => rfl
  | cons c cs ih =>
    rw [doubled]
    split
    · next hc => simp [undoubled, ih, hc]
    · next hc =>
      cases hcs : doubled close cs with
      | nil => rw [hcs] at ih; simp [undoubled, ← ih]
      | cons d rest => rw [hcs] at ih; simp [undoubled, hc, ih]

def enclose (opening close : Char) (cs : List Char) : List Char :=
  opening :: (doubled close cs ++ [close])

theorem body_append_drop (close : Char) (cs : List Char) :
    body close cs ++ cs.drop (body close cs).length = cs := by
  fun_induction body close cs with
  | case1 => rfl
  | case2 => rfl
  | case3 rest ih => simp [ih]
  | case4 d rest hd => rfl
  | case5 c d rest hc ih => simp [ih]

theorem content_doubled_append (close : Char) (cs rest : List Char) (h : rest.head? ≠ some close) :
    content close (doubled close cs ++ close :: rest) = cs := by
  induction cs with
  | nil =>
    cases rest with
    | nil => simp [doubled, content]
    | cons d rest => simp_all [doubled, content]
  | cons c cs ih =>
    by_cases hc : c = close
    · simp [doubled, hc, content, ih]
    · have hne : doubled close cs ++ close :: rest ≠ [] := by simp
      obtain ⟨d, t, ht⟩ := List.exists_cons_of_ne_nil hne
      rw [ht] at ih
      simp [doubled, hc, ht, content, ih]

/-- A closed literal is its content with each delimiter doubled, and its closing delimiter. -/
theorem body_of_isClosed {close : Char} {cs : List Char} (h : isClosed close cs) :
    body close cs = doubled close (content close cs) ++ [close] := by
  fun_induction isClosed close cs with
  | case1 => contradiction
  | case2 c =>
    obtain rfl : c = close := by simpa using h
    simp [body, content, doubled]
  | case3 rest ih => simp [body, content, doubled, ih h]
  | case4 d rest hd => simp [body, content, doubled, hd]
  | case5 c d rest hc ih => simp [body, content, doubled, hc, ih h]

end Tsql.Delimited
