import Tsql.Ident

/-!
Functions of the SQL dialect, registries of them, and the built-in functions. Names are looked up
without regard to ASCII letter case; of functions with the same name the last one counts.
-/

namespace Tsql

inductive FunctionType
  | scalar
  | aggregate
  | window
  | conversion
  | conditional
  | table
  deriving DecidableEq, Repr

structure Function where
  name : String
  type : FunctionType
  /-- Name of the type of the result, where it does not depend on the arguments. -/
  returnType : Option String := none
  /-- The argument has to be a number. -/
  requiresNumeric : Bool := false
  description : Option String := none
  deriving DecidableEq, Repr

structure FunctionRegistry where
  functions : List Function

namespace FunctionRegistry

def get? (r : FunctionRegistry) (name : String) : Option Function :=
  r.functions.reverse.find? fun f => Ident.sameWord f.name name

/-- The functions of a type, in the order of registration. -/
def ofType (r : FunctionRegistry) (type : FunctionType) : List Function :=
  r.functions.filter fun f => f.type = type

def contains (r : FunctionRegistry) (name : String) : Bool :=
  (r.get? name).isSome

/-- Whether a name is that of a function of the given type. -/
def hasType (r : FunctionRegistry) (name : String) (type : FunctionType) : Bool :=
  (r.get? name).any fun f => f.type = type

def requiresNumeric (r : FunctionRegistry) (name : String) : Bool :=
  (r.get? name).any Function.requiresNumeric

def returnType? (r : FunctionRegistry) (name : String) : Option String :=
  (r.get? name).bind Function.returnType

end FunctionRegistry

end Tsql

namespace Tsql.Function

/-- Functions over the rows of a group. -/
def aggregates : List Function :=
  [{ name := "COUNT", type := .aggregate, returnType := some "int",
     description := some "Number of rows or non-NULL values" },
   { name := "COUNT_BIG", type := .aggregate, returnType := some "bigint",
     description := some "Number of rows, as bigint" },
   { name := "SUM", type := .aggregate, requiresNumeric := true,
     description := some "Sum of numeric values" },
   { name := "AVG", type := .aggregate, requiresNumeric := true,
     description := some "Average of numeric values" },
   { name := "STDEV", type := .aggregate, returnType := some "float", requiresNumeric := true,
     description := some "Statistical standard deviation" },
   { name := "VAR", type := .aggregate, returnType := some "float", requiresNumeric := true,
     description := some "Statistical variance" },
   { name := "MIN", type := .aggregate, description := some "Minimum value" },
   { name := "MAX", type := .aggregate, description := some "Maximum value" },
   { name := "STRING_AGG", type := .aggregate, returnType := some "nvarchar(max)",
     description := some "Concatenate values with a separator" },
   { name := "CHECKSUM_AGG", type := .aggregate, returnType := some "int",
     description := some "Checksum of the values in a group" }]

/-- Functions over a window of rows. -/
def windows : List Function :=
  [{ name := "ROW_NUMBER", type := .window, returnType := some "bigint",
     description := some "Sequential row number within a partition" },
   { name := "RANK", type := .window, returnType := some "bigint" },
   { name := "DENSE_RANK", type := .window, returnType := some "bigint" },
   { name := "NTILE", type := .window, returnType := some "bigint" },
   { name := "LAG", type := .window },
   { name := "LEAD", type := .window }]

/-- Functions that convert to a given type. -/
def conversions : List Function :=
  [{ name := "CAST", type := .conversion,
     description := some "Convert an expression to a data type" },
   { name := "TRY_CAST", type := .conversion, description := some "CAST returning NULL on failure" },
   { name := "CONVERT", type := .conversion,
     description := some "Convert an expression to a data type with a style" },
   { name := "TRY_CONVERT", type := .conversion },
   { name := "PARSE", type := .conversion },
   { name := "TRY_PARSE", type := .conversion }]

/-- Functions that choose among their arguments. -/
def conditionals : List Function :=
  [{ name := "COALESCE", type := .conditional, description := some "First non-NULL argument" },
   { name := "ISNULL", type := .conditional, description := some "Replace NULL with a value" },
   { name := "NULLIF", type := .conditional,
     description := some "NULL when both arguments are equal" },
   { name := "IIF", type := .conditional, description := some "Inline if-then-else" },
   { name := "CHOOSE", type := .conditional }]

/-- Functions on strings. -/
def strings : List Function :=
  [{ name := "LEN", type := .scalar, returnType := some "int",
     description := some "Number of characters, trailing spaces excluded" },
   { name := "DATALENGTH", type := .scalar, returnType := some "int" },
   { name := "UPPER", type := .scalar, returnType := some "nvarchar" },
   { name := "LOWER", type := .scalar, returnType := some "nvarchar" },
   { name := "LTRIM", type := .scalar, returnType := some "nvarchar" },
   { name := "RTRIM", type := .scalar, returnType := some "nvarchar" },
   { name := "TRIM", type := .scalar, returnType := some "nvarchar" },
   { name := "SUBSTRING", type := .scalar, returnType := some "nvarchar" },
   { name := "LEFT", type := .scalar, returnType := some "nvarchar" },
   { name := "RIGHT", type := .scalar, returnType := some "nvarchar" },
   { name := "REPLACE", type := .scalar, returnType := some "nvarchar" },
   { name := "CONCAT", type := .scalar, returnType := some "nvarchar",
     description := some "Concatenate strings" },
   { name := "CONCAT_WS", type := .scalar, returnType := some "nvarchar" },
   { name := "CHARINDEX", type := .scalar, returnType := some "int" },
   { name := "PATINDEX", type := .scalar, returnType := some "int" },
   { name := "FORMAT", type := .scalar, returnType := some "nvarchar" },
   { name := "STUFF", type := .scalar, returnType := some "nvarchar" },
   { name := "REPLICATE", type := .scalar, returnType := some "nvarchar" },
   { name := "QUOTENAME", type := .scalar, returnType := some "nvarchar" }]

/-- Functions on dates and times. -/
def dates : List Function :=
  [{ name := "GETDATE", type := .scalar, returnType := some "datetime",
     description := some "Current date and time" },
   { name := "GETUTCDATE", type := .scalar, returnType := some "datetime" },
   { name := "SYSDATETIME", type := .scalar, returnType := some "datetime2" },
   { name := "SYSDATETIMEOFFSET", type := .scalar, returnType := some "datetimeoffset" },
   { name := "DATEADD", type := .scalar, returnType := some "datetime" },
   { name := "DATEDIFF", type := .scalar, returnType := some "int" },
   { name := "DATEDIFF_BIG", type := .scalar, returnType := some "bigint" },
   { name := "DATEPART", type := .scalar, returnType := some "int" },
   { name := "DATENAME", type := .scalar, returnType := some "nvarchar" },
   { name := "DATEFROMPARTS", type := .scalar, returnType := some "date" },
   { name := "EOMONTH", type := .scalar, returnType := some "date" },
   { name := "YEAR", type := .scalar, returnType := some "int" },
   { name := "MONTH", type := .scalar, returnType := some "int" },
   { name := "DAY", type := .scalar, returnType := some "int" }]

/-- Functions on numbers. -/
def mathematics : List Function :=
  [{ name := "ABS", type := .scalar, returnType := some "numeric", requiresNumeric := true },
   { name := "CEILING", type := .scalar, returnType := some "numeric", requiresNumeric := true },
   { name := "FLOOR", type := .scalar, returnType := some "numeric", requiresNumeric := true },
   { name := "ROUND", type := .scalar, returnType := some "numeric", requiresNumeric := true },
   { name := "POWER", type := .scalar, returnType := some "float", requiresNumeric := true },
   { name := "SQRT", type := .scalar, returnType := some "float", requiresNumeric := true },
   { name := "SIGN", type := .scalar, returnType := some "int", requiresNumeric := true },
   { name := "RAND", type := .scalar, returnType := some "float" }]

/-- Functions that ask the server. -/
def systems : List Function :=
  [{ name := "NEWID", type := .scalar, returnType := some "uniqueidentifier",
     description := some "New GUID" },
   { name := "SCOPE_IDENTITY", type := .scalar, returnType := some "numeric" },
   { name := "OBJECT_ID", type := .scalar, returnType := some "int" },
   { name := "DB_NAME", type := .scalar, returnType := some "nvarchar" },
   { name := "SUSER_SNAME", type := .scalar, returnType := some "nvarchar" },
   { name := "ISNUMERIC", type := .scalar, returnType := some "int" },
   { name := "ISDATE", type := .scalar, returnType := some "int" }]

/-- Functions that give a table. -/
def tables : List Function :=
  [{ name := "STRING_SPLIT", type := .table,
     description := some "Split a string into rows of substrings" },
   { name := "OPENJSON", type := .table },
   { name := "OPENROWSET", type := .table },
   { name := "OPENQUERY", type := .table },
   { name := "GENERATE_SERIES", type := .table }]

end Tsql.Function

namespace Tsql

/-- The registry of all built-in functions. -/
def FunctionRegistry.builtin : FunctionRegistry :=
  ⟨Function.aggregates ++ Function.windows ++ Function.conversions ++ Function.conditionals ++
    Function.strings ++ Function.dates ++ Function.mathematics ++ Function.systems ++
    Function.tables⟩

end Tsql
