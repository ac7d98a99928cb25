import Chronograph.NameMap
import Chronograph.Options.Policy
import Chronograph.Timing.Micros

/-!
# Averages

The average of some runs, operator by operator.  Both policies first add up and
then divide.  Under `union` an operator's total has the times of the runs that
timed it, and is divided by their number; under `firstCall` the operators are
those of the first run, and totals are divided by the number of all runs.
Without runs there is nothing to average.
-/

namespace Chronograph

/-- One run: the time of each operator. -/
abbrev Run := NameMap Micros

/-- Times added up so far, and how many there were. -/
structure Total where
  sum : Micros := .zero
  count : Nat := 0
deriving DecidableEq

/-- A total with one more time. -/
def Total.add (t : Total) (time : Micros) : Total := { sum := t.sum.add time, count := t.count + 1 }

/-- The totals with the times of one more run. -/
def addRun (totals : NameMap Total) (run : Run) : NameMap Total :=
  run.entries.foldl (fun totals e => totals.alter e.1 fun old => (old.getD {}).add e.2) totals

/-- The totals of all operators of some runs. -/
def totalsOf (runs : List Run) : NameMap Total := runs.foldl addRun .empty

/-- The first run's times with those of one more run, for the operators of the
first. -/
def addKnown (sums : Run) (run : Run) : Run :=
  sums.mapValues fun name sum =>
    match run.get? name with
    | some time => sum.add time
    | none => sum

/-- The average of some runs under a policy. -/
def average : Policy → List Run → Run
  | _, [] => .empty
  | .union, runs => (totalsOf runs).mapValues fun _ t => t.sum.dividedBy t.count
  | .firstCall, first :: rest =>
    (rest.foldl addKnown first).mapValues fun _ sum => sum.dividedBy (rest.length + 1)

end Chronograph
