import Chronograph.Graph.Tensor
import Chronograph.Options.Policy

/-!
# Events of a generation

What a generation reports about its course, apart from its outcome: that a unit
is put together, which tensors and routines it leaves out, and that a module is
finished.  Events are data; whoever runs a generation may show them or not.
-/

namespace Chronograph

/-- An event of a generation. -/
inductive Event where
  | assembling (graph : String) (operators constants intermediates : Nat) (policy : Policy)
  | constantTypeSkipped (tensor : String) (type : ElementType)
  | emptyConstantSkipped (tensor : String)
  | intermediateTypeSkipped (tensor : String) (type : ElementType)
  | emptyIntermediateSkipped (tensor : String)
  | routineIgnored (routine : String)
  | generated (graph : String) (bytes : Nat)
deriving DecidableEq, Repr

/-- How much detail an event is. -/
inductive EventLevel where
  | debug | trace
deriving DecidableEq, Repr

namespace Event

/-- What is left out is a finer detail than that something is made. -/
def level : Event → EventLevel
  | assembling .. | generated .. => .debug
  | _ => .trace

/-- The text of an event. -/
def message : Event → String
  | assembling .. => "assembling profiled translation unit"
  | constantTypeSkipped .. => "skipping constant of unsupported type"
  | emptyConstantSkipped _ => "skipping empty constant"
  | intermediateTypeSkipped .. => "skipping intermediate of unsupported type"
  | emptyIntermediateSkipped _ => "skipping empty intermediate"
  | routineIgnored _ => "ignoring unknown external routine"
  | generated .. => "generated profiled module"

/-- The values an event carries, by name. -/
def fields : Event → List (String × String)
  | assembling graph operators constants intermediates policy =>
    [("model", graph), ("operators", operators.repr), ("constants", constants.repr),
      ("intermediates", intermediates.repr), ("aggregation", policy.name)]
  | constantTypeSkipped tensor type | intermediateTypeSkipped tensor type =>
    [("tensor", tensor), ("dtype", type.name)]
  | emptyConstantSkipped tensor | emptyIntermediateSkipped tensor => [("tensor", tensor)]
  | routineIgnored routine => [("routine", routine)]
  | generated graph bytes => [("model", graph), ("bytes", bytes.repr)]

end Event

/-- An outcome and the events on the way to it; a fault keeps the events that
came before it. -/
structure Traced (ε α : Type) where
  events : List Event
  outcome : Except ε α

end Chronograph
