import Tsql.Batch.Basic
import Tsql.Batch.Separator
import Tsql.Batch.Use
import Tsql.Buffer
import Tsql.Catalog.Basic
import Tsql.Catalog.Sample
import Tsql.CommandLine.Basic
import Tsql.CommandLine.Reader
import Tsql.CommandLine.Run
import Tsql.Completion.Context
import Tsql.Completion.Detect
import Tsql.Completion.Keyword
import Tsql.Completion.Mark
import Tsql.Completion.Mode
import Tsql.Completion.Word
import Tsql.Delimited
import Tsql.Diagnostics
import Tsql.Engine
import Tsql.Function.Builtin
import Tsql.Host
import Tsql.Ident
import Tsql.Json.Basic
import Tsql.Json.Fault
import Tsql.Json.Input
import Tsql.Json.Literal
import Tsql.Json.Parser
import Tsql.Json.Printer
import Tsql.Json.Quoted
import Tsql.Json.Record
import Tsql.Keyword
import Tsql.Main
import Tsql.Number.Double
import Tsql.Position
import Tsql.Resolve.Columns
import Tsql.Scan.Basic
import Tsql.Scan.Comments
import Tsql.Scan.Spans
import Tsql.Scenario.Basic
import Tsql.Scenario.Reader
import Tsql.Scope.Basic
import Tsql.Scope.Tree
import Tsql.Settings.Basic
import Tsql.Settings.Reader
import Tsql.Statement.Basic
import Tsql.Statement.Column
import Tsql.Statement.CommonTable
import Tsql.Statement.Kind
import Tsql.Statement.Parse
import Tsql.Statement.Region
import Tsql.Statement.Source
import Tsql.Statement.Split
import Tsql.TempTable.Registry
import Tsql.Text.Alphabetic
import Tsql.Text.Basic
import Tsql.Text.Class
import Tsql.Text.Invisible
import Tsql.Text.Numeric
import Tsql.Text.Quoted
import Tsql.Text.Uppercase
import Tsql.Token.Basic
import Tsql.Token.Group
import Tsql.Token.Lexer
import Tsql.Types.Check
import Tsql.Wire.Buffer
import Tsql.Wire.Catalog
import Tsql.Wire.Completion
import Tsql.Wire.Settings
import Tsql.Wire.Text
import Tsql.Wire.Verdict
import Tsql.Proofs.Batch.Bracketed
import Tsql.Proofs.Batch.Tokens
import Tsql.Proofs.Completion.Qualified
import Tsql.Proofs.Elements.Agreement
import Tsql.Proofs.Resolve.Owners
import Tsql.Proofs.Resolve.SetOperation
import Tsql.Proofs.Scope.Visible
import Tsql.Proofs.Scope.References
import Tsql.Proofs.Token.Queries
import Tsql.Proofs.Statement.Clauses
import Tsql.Proofs.Statement.Siblings
import Tsql.Proofs.Scope.Innermost
import Tsql.Proofs.Scope.Frames
import Tsql.Proofs.Resolve.Lexical
import Tsql.Proofs.Resolve.Expansion
import Tsql.Proofs.Engine.History
import Tsql.Proofs.Token.Claimed
import Tsql.Proofs.Statement.Definitions
import Tsql.Proofs.Statement.Outermost
import Tsql.Proofs.Statement.Derived
import Tsql.Proofs.Statement.Captured
import Tsql.Proofs.Batch.Selections
import Tsql.Proofs.Batch.Trimmed
import Tsql.Proofs.Batch.Active
import Tsql.Proofs.Buffer.Uses
import Tsql.Proofs.Buffer.Agreement
import Tsql.Proofs.Statement.Juxtaposed
import Tsql.Proofs.Statement.View
import Tsql.Proofs.Statement.Semicolon
import Tsql.Proofs.Elements.Interior
import Tsql.Proofs.Elements.Cleaned
import Tsql.Proofs.Elements.Tiling
import Tsql.Proofs.Statement.ListingText
import Tsql.Proofs.TempTable.Lifetime
import Tsql.Proofs.Completion.Quoted
import Tsql.Proofs.Statement.ColumnText
import Tsql.Proofs.Resolve.Expanding
import Tsql.Proofs.Scope.Recursion
import Tsql.Proofs.Statement.AliasWithoutTable
import Tsql.Proofs.Statement.Target
import Tsql.Proofs.Types.Branches
import Tsql.Proofs.Cursor.Coordinates
import Tsql.Proofs.Statement.DeclaredType
import Tsql.Proofs.Scan.LineStates
import Tsql.Proofs.Scenario.RoundTrip
import Tsql.Token.Slice
import Tsql.Indexed.Parse
import Tsql.Proofs.Token.Traversal
import Tsql.Proofs.Indexed.Split
