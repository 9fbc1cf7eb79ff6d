import Tsql.Function.Builtin
import Tsql.Text.Basic

/-!
Families of data types, and type checks: comparisons, arguments of aggregates, and branches of
conditional expressions.

A type belongs to a family by its name; length, precision, schema and quotes do not matter. Types of
one family compare without a warning, and so do some pairs of families. The relation is symmetric
(`isCompatible_comm`) but not transitive: bits and characters both go with binary data.

Nothing is known of a type that is not built in, so it never causes a warning. Nor does an operand
that is converted explicitly, or the literal `NULL`.
-/

namespace Tsql

/-! ### Families -/

inductive SpatialKind
  | geometry
  | geography
  deriving DecidableEq, Repr

inductive TypeFamily
  | exactNumeric
  | approxNumeric
  | character
  | binary
  | dateTime
  | boolean
  | uniqueIdentifier
  | xml
  | spatial (kind : SpatialKind)
  | sqlVariant
  deriving DecidableEq, Repr

/-- The name of a type in lower case, without quotes, schema, and anything from a parenthesis on.
Words are one blank apart. -/
def baseTypeName (name : String) : List Char :=
  let bare := (Text.trim name.toList).takeWhile (· ≠ '(')
  let last := ((Text.split (· = '.') bare).getLast?).getD []
  let unquoted := last.filter fun c => c ≠ '[' ∧ c ≠ ']' ∧ c ≠ '"'
  (Text.joinWith [' '] (Text.words unquoted)).map Char.toLower

namespace TypeFamily

/-- The names of the built-in types of a family. -/
def typeNames : TypeFamily → List String
  | exactNumeric =>
    ["bigint", "int", "integer", "smallint", "tinyint", "decimal", "dec", "numeric", "money",
     "smallmoney"]
  | approxNumeric => ["float", "real", "double precision"]
  | character =>
    ["char", "varchar", "nchar", "nvarchar", "text", "ntext", "sysname", "character",
     "character varying", "char varying", "national character", "national char",
     "national character varying", "national char varying", "national text"]
  | binary => ["binary", "varbinary", "binary varying", "image", "rowversion", "timestamp"]
  | dateTime => ["date", "time", "datetime", "datetime2", "smalldatetime", "datetimeoffset"]
  | boolean => ["bit"]
  | uniqueIdentifier => ["uniqueidentifier"]
  | xml => ["xml"]
  | spatial .geometry => ["geometry"]
  | spatial .geography => ["geography"]
  | sqlVariant => ["sql_variant"]

def all : List TypeFamily :=
  [exactNumeric, approxNumeric, character, binary, dateTime, boolean, uniqueIdentifier, xml,
   spatial .geometry, spatial .geography, sqlVariant]

theorem mem_all (f : TypeFamily) : f ∈ all := by
  cases f with
  | spatial kind => cases kind <;> decide
  | _ => decide

/-- The family of a type; none for types that are not built in. -/
def ofTypeName? (name : String) : Option TypeFamily :=
  let base := baseTypeName name
  all.find? fun f => f.typeNames.any fun n => n.toList == base

def isNumeric : TypeFamily → Bool
  | exactNumeric => true
  | approxNumeric => true
  | _ => false

/-- The pairs of different families that compare without a warning, in one of their orders. -/
def converts : TypeFamily → TypeFamily → Bool
  | sqlVariant, _ => true
  | exactNumeric, approxNumeric => true
  | boolean, f => f.isNumeric || f = binary
  | binary, character => true
  | uniqueIdentifier, f => f = character || f = binary
  | xml, character => true
  | _, _ => false

/-- Whether values of the two families compare without a warning. -/
def isCompatible (a b : TypeFamily) : Bool :=
  a = b || a.converts b || b.converts a

@[simp] theorem isCompatible_refl (a : TypeFamily) : a.isCompatible a := by
  simp [isCompatible]

theorem isCompatible_comm (a b : TypeFamily) : a.isCompatible b = b.isCompatible a := by
  simp only [isCompatible, Bool.or_assoc, Bool.or_comm (a.converts b), eq_comm (a := a)]

end TypeFamily

/-! ### Checks -/

inductive TypeWarning
  | typeMismatch
  | invalidAggregate
  | caseTypeInconsistency
  deriving DecidableEq, Repr

/-- What makes a question to the checker meaningless. -/
inductive CheckError
  | emptyBranchList
  | notAnAggregate
  | wrongBranchCount
  deriving DecidableEq, Repr

inductive Verdict
  | noWarning
  | warning (kind : TypeWarning)
  | error (kind : CheckError)
  deriving DecidableEq, Repr

def Verdict.isWarning : Verdict → Bool
  | warning _ => true
  | _ => false

/-- What is known of one side of a comparison. -/
structure Operand where
  typeName : Option String := none
  isCast : Bool := false
  isNull : Bool := false
  deriving DecidableEq, Repr

namespace Operand

def family? (o : Operand) : Option TypeFamily :=
  o.typeName.bind TypeFamily.ofTypeName?

/-- The family that takes part in comparisons. -/
def comparedFamily? (o : Operand) : Option TypeFamily :=
  if o.isCast || o.isNull then none else o.family?

end Operand

/-- Compares two families, where nothing may be known of either. -/
def checkFamilies (a b : Option TypeFamily) : Verdict :=
  match a, b with
  | some a, some b => if a.isCompatible b then .noWarning else .warning .typeMismatch
  | _, _ => .noWarning

/-- Compares two types by name. -/
def checkTypes (a b : String) : Verdict :=
  checkFamilies (TypeFamily.ofTypeName? a) (TypeFamily.ofTypeName? b)

def checkOperands (a b : Operand) : Verdict :=
  checkFamilies a.comparedFamily? b.comparedFamily?

/-- Checks the argument of an aggregate. -/
def checkAggregate (functions : FunctionRegistry) (function : String) (argument : Operand) :
    Verdict :=
  if !functions.hasType function .aggregate then .error .notAnAggregate
  else if !functions.requiresNumeric function || argument.isCast then .noWarning
  else match argument.family? with
  | some f => if f.isNumeric || f = .sqlVariant then .noWarning else .warning .invalidAggregate
  | none => .noWarning

/-- The conditional expressions whose branches have to agree. -/
inductive BranchKind
  | caseWhen
  | coalesce
  | iif
  | nullif
  deriving DecidableEq, Repr

namespace BranchKind

/-- The kind of expression that a name begins. -/
def ofFunction? (name : String) : Option BranchKind :=
  if Ident.sameWord name "CASE" then some caseWhen
  else if Ident.sameWord name "COALESCE" || Ident.sameWord name "ISNULL" then some coalesce
  else if Ident.sameWord name "IIF" then some iif
  else if Ident.sameWord name "NULLIF" then some nullif
  else none

/-- The number of branches, where it is fixed. -/
def arity? : BranchKind → Option Nat
  | iif => some 2
  | nullif => some 2
  | _ => none

/-- The warning for branches that do not agree. -/
def warning : BranchKind → TypeWarning
  | caseWhen => .caseTypeInconsistency
  | _ => .typeMismatch

end BranchKind

/-- Whether each pair of families in the list is compatible. -/
def pairwiseCompatible : List TypeFamily → Bool
  | [] => true
  | f :: fs => fs.all f.isCompatible && pairwiseCompatible fs

/-- Checks that the branches of a conditional expression agree. -/
def checkBranches (kind : BranchKind) (branches : List Operand) : Verdict :=
  if branches.isEmpty then .error .emptyBranchList
  else if kind.arity?.any (· ≠ branches.length) then .error .wrongBranchCount
  else if pairwiseCompatible (branches.filterMap Operand.comparedFamily?) then .noWarning
  else .warning kind.warning

end Tsql
