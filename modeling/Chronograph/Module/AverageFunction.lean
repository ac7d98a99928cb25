import Chronograph.Module.TimedBody
import Chronograph.Options.Policy

/-!
# The averaging function

The emitted function that averages the history by operator.  Without runs its
answer is the empty map.  Otherwise it adds up in a first loop and divides in a
second: under the policy `union` each total by the number of runs that timed
the operator, under `firstCall` each total by the number of all runs, for the
operators of the first run only.
-/

namespace Chronograph

/-- The name of the averaging function. -/
def averageFunctionName : String := "GetOpAvgTime"

/-- The statements that average over the operators of all runs. -/
def unionStatements : List Stmt :=
  [.comment "Accumulation phase",
    .line (resultTypeName ++ " avg;"),
    .line "std::unordered_map<std::string, std::size_t> counts;",
    .block ("for (const auto& run : " ++ historyName ++ ")")
      [.block "for (const auto& entry : run)"
        [.line "avg[entry.first] += entry.second;",
          .line "counts[entry.first] += 1;"]],
    .blank,
    .comment "Normalization phase: divide by the calls that recorded each operator",
    .block "for (auto& entry : avg)"
      [.line "entry.second /= static_cast<double>(counts[entry.first]);"]]

/-- The statements that average over the operators of the first run. -/
def firstCallStatements : List Stmt :=
  [.comment "Accumulation phase: the first call fixes the operator set",
    .line (resultTypeName ++ " avg = " ++ historyName ++ "[0];"),
    .block ("for (std::size_t i = 1; i < " ++ historyName ++ ".size(); ++i)")
      [.block "for (auto& entry : avg)"
        [.line ("auto found = " ++ historyName ++ "[i].find(entry.first);"),
          .block ("if (found != " ++ historyName ++ "[i].end())")
            [.line "entry.second += found->second;"]]],
    .blank,
    .comment "Normalization phase",
    .block "for (auto& entry : avg)"
      [.line ("entry.second /= static_cast<double>(" ++ historyName ++ ".size());")]]

/-- The statements of a policy. -/
def averageStatements : Policy → List Stmt
  | .union => unionStatements
  | .firstCall => firstCallStatements

/-- The averaging function of a policy, with or without the lock. -/
def averageFunction (policy : Policy) (synchronized : Bool) : Function where
  returns := resultTypeName
  name := averageFunctionName
  params := []
  body :=
    (if synchronized then [lockLine] else [])
      ++ [.block ("if (" ++ historyName ++ ".empty())") [.line "return \x7b\x7d;"], .blank]
      ++ averageStatements policy
      ++ [.line "return avg;"]

end Chronograph
