import Chronograph.Code.Tree
import Chronograph.Graph.Routine
import Chronograph.Module.Event

/-!
# Declarations of external routines

The routines that a graph asks for are declared in a namespace of their own,
each once and in a fixed order, however often and in whatever order they were
asked for.  A name that is not known is reported and otherwise ignored.
-/

namespace Chronograph

/-- The known routines among some names, in the order of declaration. -/
def knownRoutines (names : List String) : List Routine :=
  Routine.all.filter fun r => names.contains r.name

/-- The namespace that declares the routines, if any is known. -/
def routineScope? (names : List String) : Option Item :=
  match knownRoutines names with
  | [] => none
  | known => some (.scope "BLAS" (known.map fun r => .foreign r.signature))

/-- The reports about names that are not known. -/
def routineEvents (names : List String) : List Event :=
  (names.filter fun n => (Routine.ofName? n).isNone).map Event.routineIgnored

end Chronograph
