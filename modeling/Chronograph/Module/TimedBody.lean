import Chronograph.Code.Tree
import Chronograph.Graph.Basic

/-!
# Timed operators

The body of the emitted routine runs the operators in the order of the graph.
Each stands between a statement that reads the clock and one that stores the
time since then under the operator's name; its own code is not touched.  When
all have run, the times of the run are appended to the history.
-/

namespace Chronograph

/-- The emitted type of one run: operator names and microseconds. -/
def resultTypeName : String := "ProfilerResult"

/-- The emitted history of runs. -/
def historyName : String := "profiler_results"

/-- The mutex that guards the emitted history. -/
def mutexName : String := "profiler_results_mutex"

/-- The variable that holds the times of the current run. -/
def currentName : String := "current_execution"

/-- The variables that timing needs. -/
def timerLocals : List Stmt :=
  [.line "std::chrono::steady_clock::time_point tp_start;",
    .line (resultTypeName ++ " " ++ currentName ++ ";")]

/-- One operator between its two timer statements. -/
def Operator.timed (position : Nat) (op : Operator) : List Stmt :=
  [.timerStart position, .verbatim (op.body position.repr), .timerStop position op.name]

/-- Operators one after the other, the first at a position. -/
def weaveFrom (position : Nat) : List Operator → List Stmt
  | [] => []
  | op :: rest => op.timed position ++ weaveFrom (position + 1) rest

/-- All operators of a graph, timed. -/
def weave (operators : List Operator) : List Stmt := weaveFrom 0 operators

/-- The statement that takes the lock of the history. -/
def lockLine : Stmt := .line ("std::lock_guard<std::mutex> lock(" ++ mutexName ++ ");")

/-- The statement that appends the run to the history, under the lock if the
history is synchronized. -/
def historyAppend (synchronized : Bool) : Stmt :=
  let append := Stmt.line (historyName ++ ".push_back(std::move(" ++ currentName ++ "));")
  if synchronized then .block "" [lockLine, append] else append

end Chronograph
