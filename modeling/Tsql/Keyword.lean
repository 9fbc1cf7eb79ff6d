import Tsql.Text.Basic

/-!
The reserved words. Built-in functions and common column names are not among them, so that they
read as identifiers.
-/

namespace Tsql

inductive Keyword
  | ADD | ALL | ALTER | AND | ANY | APPLY | AS | ASC | BEGIN | BETWEEN | BREAK | BY | CASCADE
  | CASE | CHECK | CLUSTERED | COLLATE | COLUMN | COMMIT | CONSTRAINT | CONTINUE | CREATE | CROSS
  | CURSOR | DECLARE | DEFAULT | DELETE | DESC | DISTINCT | DROP | ELSE | END | EXCEPT | EXEC
  | EXECUTE | EXISTS | FETCH | FOR | FOREIGN | FROM | FULL | FUNCTION | GO | GOTO | GRANT | GROUP
  | HAVING | IDENTITY | IF | IN | INDEX | INNER | INSERT | INTERSECT | INTO | IS | JOIN | KEY
  | LEFT | LIKE | MATCHED | MERGE | NEXT | NOCHECK | NONCLUSTERED | NOT | NULL | OF | OFF
  | OFFSET | ON | ONLY | OPTION | OR | ORDER | OUTER | OUTPUT | OVER | PARTITION | PERCENT
  | PIVOT | PRIMARY | PRINT | PROC | PROCEDURE | REFERENCES | RETURN | RETURNS | RIGHT | ROLLBACK
  | ROWS | SCHEMA | SELECT | SET | TABLE | THEN | TIES | TOP | TRAN | TRANSACTION | TRIGGER
  | TRUNCATE | UNION | UNIQUE | UNPIVOT | UPDATE | USE | USING | VALUES | VIEW | WHEN | WHERE
  | WHILE | WITH
  deriving DecidableEq, Repr

namespace Keyword

/-- The letters of the word, in capitals. -/
def letters : Keyword → List Char
  | .ADD => ['A', 'D', 'D']
  | .ALL => ['A', 'L', 'L']
  | .ALTER => ['A', 'L', 'T', 'E', 'R']
  | .AND => ['A', 'N', 'D']
  | .ANY => ['A', 'N', 'Y']
  | .APPLY => ['A', 'P', 'P', 'L', 'Y']
  | .AS => ['A', 'S']
  | .ASC => ['A', 'S', 'C']
  | .BEGIN => ['B', 'E', 'G', 'I', 'N']
  | .BETWEEN => ['B', 'E', 'T', 'W', 'E', 'E', 'N']
  | .BREAK => ['B', 'R', 'E', 'A', 'K']
  | .BY => ['B', 'Y']
  | .CASCADE => ['C', 'A', 'S', 'C', 'A', 'D', 'E']
  | .CASE => ['C', 'A', 'S', 'E']
  | .CHECK => ['C', 'H', 'E', 'C', 'K']
  | .CLUSTERED => ['C', 'L', 'U', 'S', 'T', 'E', 'R', 'E', 'D']
  | .COLLATE => ['C', 'O', 'L', 'L', 'A', 'T', 'E']
  | .COLUMN => ['C', 'O', 'L', 'U', 'M', 'N']
  | .COMMIT => ['C', 'O', 'M', 'M', 'I', 'T']
  | .CONSTRAINT => ['C', 'O', 'N', 'S', 'T', 'R', 'A', 'I', 'N', 'T']
  | .CONTINUE => ['C', 'O', 'N', 'T', 'I', 'N', 'U', 'E']
  | .CREATE => ['C', 'R', 'E', 'A', 'T', 'E']
  | .CROSS => ['C', 'R', 'O', 'S', 'S']
  | .CURSOR => ['C', 'U', 'R', 'S', 'O', 'R']
  | .DECLARE => ['D', 'E', 'C', 'L', 'A', 'R', 'E']
  | .DEFAULT => ['D', 'E', 'F', 'A', 'U', 'L', 'T']
  | .DELETE => ['D', 'E', 'L', 'E', 'T', 'E']
  | .DESC => ['D', 'E', 'S', 'C']
  | .DISTINCT => ['D', 'I', 'S', 'T', 'I', 'N', 'C', 'T']
  | .DROP => ['D', 'R', 'O', 'P']
  | .ELSE => ['E', 'L', 'S', 'E']
  | .END => ['E', 'N', 'D']
  | .EXCEPT => ['E', 'X', 'C', 'E', 'P', 'T']
  | .EXEC => ['E', 'X', 'E', 'C']
  | .EXECUTE => ['E', 'X', 'E', 'C', 'U', 'T', 'E']
  | .EXISTS => ['E', 'X', 'I', 'S', 'T', 'S']
  | .FETCH => ['F', 'E', 'T', 'C', 'H']
  | .FOR => ['F', 'O', 'R']
  | .FOREIGN => ['F', 'O', 'R', 'E', 'I', 'G', 'N']
  | .FROM => ['F', 'R', 'O', 'M']
  | .FULL => ['F', 'U', 'L', 'L']
  | .FUNCTION => ['F', 'U', 'N', 'C', 'T', 'I', 'O', 'N']
  | .GO => ['G', 'O']
  | .GOTO => ['G', 'O', 'T', 'O']
  | .GRANT => ['G', 'R', 'A', 'N', 'T']
  | .GROUP => ['G', 'R', 'O', 'U', 'P']
  | .HAVING => ['H', 'A', 'V', 'I', 'N', 'G']
  | .IDENTITY => ['I', 'D', 'E', 'N', 'T', 'I', 'T', 'Y']
  | .IF => ['I', 'F']
  | .IN => ['I', 'N']
  | .INDEX => ['I', 'N', 'D', 'E', 'X']
  | .INNER => ['I', 'N', 'N', 'E', 'R']
  | .INSERT => ['I', 'N', 'S', 'E', 'R', 'T']
  | .INTERSECT => ['I', 'N', 'T', 'E', 'R', 'S', 'E', 'C', 'T']
  | .INTO => ['I', 'N', 'T', 'O']
  | .IS => ['I', 'S']
  | .JOIN => ['J', 'O', 'I', 'N']
  | .KEY => ['K', 'E', 'Y']
  | .LEFT => ['L', 'E', 'F', 'T']
  | .LIKE => ['L', 'I', 'K', 'E']
  | .MATCHED => ['M', 'A', 'T', 'C', 'H', 'E', 'D']
  | .MERGE => ['M', 'E', 'R', 'G', 'E']
  | .NEXT => ['N', 'E', 'X', 'T']
  | .NOCHECK => ['N', 'O', 'C', 'H', 'E', 'C', 'K']
  | .NONCLUSTERED => ['N', 'O', 'N', 'C', 'L', 'U', 'S', 'T', 'E', 'R', 'E', 'D']
  | .NOT => ['N', 'O', 'T']
  | .NULL => ['N', 'U', 'L', 'L']
  | .OF => ['O', 'F']
  | .OFF => ['O', 'F', 'F']
  | .OFFSET => ['O', 'F', 'F', 'S', 'E', 'T']
  | .ON => ['O', 'N']
  | .ONLY => ['O', 'N', 'L', 'Y']
  | .OPTION => ['O', 'P', 'T', 'I', 'O', 'N']
  | .OR => ['O', 'R']
  | .ORDER => ['O', 'R', 'D', 'E', 'R']
  | .OUTER => ['O', 'U', 'T', 'E', 'R']
  | .OUTPUT => ['O', 'U', 'T', 'P', 'U', 'T']
  | .OVER => ['O', 'V', 'E', 'R']
  | .PARTITION => ['P', 'A', 'R', 'T', 'I', 'T', 'I', 'O', 'N']
  | .PERCENT => ['P', 'E', 'R', 'C', 'E', 'N', 'T']
  | .PIVOT => ['P', 'I', 'V', 'O', 'T']
  | .PRIMARY => ['P', 'R', 'I', 'M', 'A', 'R', 'Y']
  | .PRINT => ['P', 'R', 'I', 'N', 'T']
  | .PROC => ['P', 'R', 'O', 'C']
  | .PROCEDURE => ['P', 'R', 'O', 'C', 'E', 'D', 'U', 'R', 'E']
  | .REFERENCES => ['R', 'E', 'F', 'E', 'R', 'E', 'N', 'C', 'E', 'S']
  | .RETURN => ['R', 'E', 'T', 'U', 'R', 'N']
  | .RETURNS => ['R', 'E', 'T', 'U', 'R', 'N', 'S']
  | .RIGHT => ['R', 'I', 'G', 'H', 'T']
  | .ROLLBACK => ['R', 'O', 'L', 'L', 'B', 'A', 'C', 'K']
  | .ROWS => ['R', 'O', 'W', 'S']
  | .SCHEMA => ['S', 'C', 'H', 'E', 'M', 'A']
  | .SELECT => ['S', 'E', 'L', 'E', 'C', 'T']
  | .SET => ['S', 'E', 'T']
  | .TABLE => ['T', 'A', 'B', 'L', 'E']
  | .THEN => ['T', 'H', 'E', 'N']
  | .TIES => ['T', 'I', 'E', 'S']
  | .TOP => ['T', 'O', 'P']
  | .TRAN => ['T', 'R', 'A', 'N']
  | .TRANSACTION => ['T', 'R', 'A', 'N', 'S', 'A', 'C', 'T', 'I', 'O', 'N']
  | .TRIGGER => ['T', 'R', 'I', 'G', 'G', 'E', 'R']
  | .TRUNCATE => ['T', 'R', 'U', 'N', 'C', 'A', 'T', 'E']
  | .UNION => ['U', 'N', 'I', 'O', 'N']
  | .UNIQUE => ['U', 'N', 'I', 'Q', 'U', 'E']
  | .UNPIVOT => ['U', 'N', 'P', 'I', 'V', 'O', 'T']
  | .UPDATE => ['U', 'P', 'D', 'A', 'T', 'E']
  | .USE => ['U', 'S', 'E']
  | .USING => ['U', 'S', 'I', 'N', 'G']
  | .VALUES => ['V', 'A', 'L', 'U', 'E', 'S']
  | .VIEW => ['V', 'I', 'E', 'W']
  | .WHEN => ['W', 'H', 'E', 'N']
  | .WHERE => ['W', 'H', 'E', 'R', 'E']
  | .WHILE => ['W', 'H', 'I', 'L', 'E']
  | .WITH => ['W', 'I', 'T', 'H']

def text (k : Keyword) : String :=
  String.ofList k.letters

def all : List Keyword :=
  [.ADD, .ALL, .ALTER, .AND, .ANY, .APPLY, .AS, .ASC, .BEGIN, .BETWEEN, .BREAK, .BY, .CASCADE,
   .CASE, .CHECK, .CLUSTERED, .COLLATE, .COLUMN, .COMMIT, .CONSTRAINT, .CONTINUE, .CREATE,
   .CROSS, .CURSOR, .DECLARE, .DEFAULT, .DELETE, .DESC, .DISTINCT, .DROP, .ELSE, .END, .EXCEPT,
   .EXEC, .EXECUTE, .EXISTS, .FETCH, .FOR, .FOREIGN, .FROM, .FULL, .FUNCTION, .GO, .GOTO, .GRANT,
   .GROUP, .HAVING, .IDENTITY, .IF, .IN, .INDEX, .INNER, .INSERT, .INTERSECT, .INTO, .IS, .JOIN,
   .KEY, .LEFT, .LIKE, .MATCHED, .MERGE, .NEXT, .NOCHECK, .NONCLUSTERED, .NOT, .NULL, .OF, .OFF,
   .OFFSET, .ON, .ONLY, .OPTION, .OR, .ORDER, .OUTER, .OUTPUT, .OVER, .PARTITION, .PERCENT,
   .PIVOT, .PRIMARY, .PRINT, .PROC, .PROCEDURE, .REFERENCES, .RETURN, .RETURNS, .RIGHT,
   .ROLLBACK, .ROWS, .SCHEMA, .SELECT, .SET, .TABLE, .THEN, .TIES, .TOP, .TRAN, .TRANSACTION,
   .TRIGGER, .TRUNCATE, .UNION, .UNIQUE, .UNPIVOT, .UPDATE, .USE, .USING, .VALUES, .VIEW, .WHEN,
   .WHERE, .WHILE, .WITH]

theorem mem_all (k : Keyword) : k ∈ all := by
  cases k <;> decide

/-- The reserved word that a word spells, in any letter case. -/
def ofWord? (word : List Char) : Option Keyword :=
  let folded := word.map Char.toUpper
  all.find? fun k => k.letters == folded

@[simp] theorem ofWord?_letters (k : Keyword) : ofWord? k.letters = some k := by
  cases k <;> decide +kernel

end Keyword

/-- Whether a word is reserved. -/
def isReserved (word : String) : Bool :=
  (Keyword.ofWord? word.toList).isSome

end Tsql
