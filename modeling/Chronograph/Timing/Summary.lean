import Chronograph.Json.Value
import Chronograph.Timing.Average

/-!
# Summaries

A summary lists the operators of an average with the slowest first, each with
its share of the sum of all means in percent.  Operators with the same mean
come in the order of their names.  If the sum is not positive, all shares are
zero.
-/

namespace Chronograph

/-- An operator in a summary. -/
structure Row where
  name : String
  mean : Micros
  percent : Float

/-- The sum of some times, in their order.  The empty sum is minus zero, which
changes no sum it is added to. -/
def sumOf (times : List Micros) : Float := times.foldl (fun sum t => sum + t.toFloat) (-0.0)

/-- The share of a time in a total, in percent. -/
def share (total : Float) (mean : Micros) : Float :=
  if 0.0 < total then mean.toFloat / total * 100.0 else 0.0

/-- Whether a row may stand before another. -/
def Row.before (a b : Row) : Bool :=
  b.mean.rank < a.mean.rank || (a.mean.rank == b.mean.rank && decide (a.name ≤ b.name))

/-- The rows of a summary. -/
def summaryRows (averages : Run) : List Row :=
  let total := sumOf averages.values
  let rows := averages.entries.map fun e =>
    { name := e.1, mean := e.2, percent := share total e.2 : Row }
  rows.mergeSort Row.before

/-- A row as JSON. -/
def Row.toJson (r : Row) : Json.Value :=
  .object [("name", .text r.name), ("mean_us", .float r.mean.toFloat),
    ("percent", .float r.percent)]

/-- Rows as a JSON text. -/
def rowsJson (rows : List Row) : String := (Json.Value.list (rows.map Row.toJson)).toPretty

end Chronograph
