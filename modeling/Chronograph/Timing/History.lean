import Chronograph.Json.Reader
import Chronograph.Json.Value
import Chronograph.Timing.Average

/-!
# Histories

A history is the list of all runs so far and the policy by which it is
averaged.  It only grows.  As JSON it is a list with an object for each run.
-/

namespace Chronograph

/-- Runs in the order in which they were recorded, and a policy. -/
structure History where
  runs : List Run := []
  policy : Policy := .union

/-- A run as JSON. -/
def Run.toJson (run : Run) : Json.Value :=
  .object (run.entries.map fun e => (e.1, .float e.2.toFloat))

/-- A run in JSON. -/
def Run.read : Json.Reader Run := Json.readMap fun s => do
  let (x, rest) ← Json.readFloat s
  return (.number x, rest)

namespace History

def length (h : History) : Nat := h.runs.length

def isEmpty (h : History) : Bool := h.runs.isEmpty

/-- The history with one more run. -/
def record (h : History) (run : Run) : History := { h with runs := h.runs ++ [run] }

/-- The same runs under another policy. -/
def withPolicy (h : History) (policy : Policy) : History := { h with policy }

/-- The average of all runs. -/
def average (h : History) : Run := Chronograph.average h.policy h.runs

/-- The runs as a JSON text. -/
def toJson (h : History) : String := (Json.Value.list (h.runs.map Run.toJson)).toPretty

/-- The history that a JSON text holds. -/
def ofJson (text : String) (policy : Policy) : Except Json.Fault History := do
  return { runs := ← Json.readWhole (Json.readList Run.read) text, policy }

end History

end Chronograph
