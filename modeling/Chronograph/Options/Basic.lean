import Chronograph.Options.Policy

/-!
# Options of a generation

What may be chosen about the emitted code: whether it has the averaging
function, whether its history is guarded by a mutex, how it averages, and what
stands in front of the graph's name in the namespace.
-/

namespace Chronograph

/-- The options of a generation. -/
structure Options where
  /-- The averaging function is emitted. -/
  utility : Bool := true
  /-- The history is guarded by a mutex. -/
  synchronized : Bool := true
  policy : Policy := .union
  namespacePrefix : String := "profgen_"
deriving DecidableEq

namespace Options

/-- The fields of options in JSON; each may be missing. -/
def format : Json.RecordFormat Options where
  name := "GenerateOptions"
  start := {}
  fields := [
    .of "utility_functions" false Json.readBool fun o v => { o with utility := v },
    .of "synchronized_history" false Json.readBool fun o v => { o with synchronized := v },
    .of "aggregation" false Policy.read fun o v => { o with policy := v },
    .of "namespace_prefix" false Json.readText fun o v => { o with namespacePrefix := v }]

/-- Options read from a JSON text. -/
def ofJson (text : String) : Except Json.Fault Options := Json.readWhole format.read text

/-- Options as JSON. -/
def toJson (o : Options) : Json.Value :=
  .object [("utility_functions", .boolean o.utility),
    ("synchronized_history", .boolean o.synchronized),
    ("aggregation", o.policy.toJson),
    ("namespace_prefix", .text o.namespacePrefix)]

end Options

end Chronograph
