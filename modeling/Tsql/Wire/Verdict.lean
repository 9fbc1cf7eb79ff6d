import Tsql.Json.Basic
import Tsql.Types.Check

/-!
JSON forms of verdicts.
-/

namespace Tsql

def TypeWarning.code : TypeWarning → String
  | .typeMismatch => "type_mismatch"
  | .invalidAggregate => "invalid_aggregate"
  | .caseTypeInconsistency => "case_type_inconsistency"

def CheckError.code : CheckError → String
  | .emptyBranchList => "empty_branch_list"
  | .notAnAggregate => "not_an_aggregate"
  | .wrongBranchCount => "wrong_branch_count"

def Verdict.toJson : Verdict → Json
  | .noWarning => .obj [("verdict", .str "no_warning")]
  | .warning kind => .obj [("verdict", .str "warning"), ("kind", .str kind.code)]
  | .error kind => .obj [("verdict", .str "error"), ("kind", .str kind.code)]

end Tsql
