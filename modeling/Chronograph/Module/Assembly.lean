import Chronograph.Code.Rendering
import Chronograph.Module.AverageFunction
import Chronograph.Module.Buffers
import Chronograph.Module.Externs
import Chronograph.Options.Basic
import Chronograph.Text.Symbol

/-!
# Assembly of the module

The unit that is emitted for a graph has a fixed layout: a comment on where the
code comes from, the includes in ascending order, and one namespace with the
external routines, the type of a run, the history and its mutex, the averaging
function, the buffers and the inference routine, in this order.

`assemble` puts the unit together, `generate` also writes it; both report the
events on the way.
-/

namespace Chronograph

/-- The name of the inference routine. -/
def inferName : String := "infer"

/-- What the comment at the start of the module says. -/
def provenance (g : Graph) : String :=
  "Code for profiling and benchmarking purposes.\n"
    ++ "Generated automatically for inference of model file [" ++ g.sourceFile ++ "] at ["
    ++ String.ofList (trimEnd g.parseTime.toList) ++ "]"

/-- The inputs that are declared, with their types in the emitted code. -/
def Graph.codeInputs (g : Graph) : List (String × Tensor) :=
  g.inputs.filterMap fun t => t.type.codeType?.map fun codeType => (codeType, t)

/-- The headers of a module, in ascending order. -/
def headers (g : Graph) (o : Options) (output : Tensor) (buffers : List Buffer) : List String :=
  let fixedWidth := buffers.any (·.type.isFixedWidth)
    || g.codeInputs.any (·.2.type.isFixedWidth) || output.type.isFixedWidth
  let choices := [("chrono", true), ("cmath", buffers.any (·.nonFinite)), ("cstddef", o.utility),
    ("cstdint", fixedWidth), ("mutex", o.synchronized), ("string", true),
    ("unordered_map", true), ("utility", true), ("vector", true)]
  (choices.filter (·.2)).map (·.1)

/-- The inference routine: the timed operators, then a copy of the output. -/
def inferFunction (g : Graph) (o : Options) (output : Tensor) : Function :=
  let codeType := output.type.codeType?.getD "float"
  let buffer := bufferName output.name
  { returns := "std::vector<" ++ codeType ++ ">"
    name := inferName
    params := g.codeInputs.map fun (type, t) => { type := type ++ "*", name := bufferName t.name }
    body :=
      timerLocals ++ [.blank] ++ weave g.operators ++ [.blank, historyAppend o.synchronized]
        ++ [.line ("std::vector<" ++ codeType ++ "> ret(" ++ buffer ++ ", " ++ buffer
              ++ " + sizeof(" ++ buffer ++ ") / sizeof(" ++ buffer ++ "[0]));"),
            .line "return ret;"] }

/-- The declarations of the history of runs. -/
def historyItems (synchronized : Bool) : List Item :=
  [.comment "Maps an operator name to its execution time in a run, in microseconds.",
    .typeAlias resultTypeName "std::unordered_map<std::string, double>",
    .global ("std::vector<" ++ resultTypeName ++ ">") historyName none none,
    if synchronized then .global "std::mutex" mutexName none none
    else .comment "Not synchronized: callers must serialize calls to infer.",
    .blank]

/-- The items of the module's namespace. -/
def moduleItems (g : Graph) (o : Options) (output : Tensor) (buffers : List Buffer) : List Item :=
  (match routineScope? g.routines with
    | some scope => [scope, .blank]
    | none => [])
  ++ historyItems o.synchronized
  ++ (if o.utility then [.function (averageFunction o.policy o.synchronized), .blank] else [])
  ++ (if buffers.isEmpty then [] else buffers.map Buffer.item ++ [.blank])
  ++ [.function (inferFunction g o output)]

/-- The name of the module's namespace. -/
def moduleName (g : Graph) (o : Options) : String := toSymbol (o.namespacePrefix ++ g.name)

/-- The unit of a graph whose output and buffers are settled. -/
def moduleUnit (g : Graph) (o : Options) (output : Tensor) (buffers : List Buffer) : CodeUnit where
  items :=
    [.comment (provenance g)] ++ (headers g o output buffers).map Item.header ++ [.blank]
      ++ [.scope (moduleName g o) (moduleItems g o output buffers)]

/-- The event that the assembly of a graph's unit begins. -/
def assemblingEvent (g : Graph) (o : Options) : Event :=
  .assembling g.name g.operators.length g.constants.length g.intermediates.length o.policy

/-- The unit of a graph, if the graph is accepted and all its tensors can be
settled. -/
def assemble (g : Graph) (o : Options) : Traced GraphFault CodeUnit :=
  match g.output with
  | .error fault => ⟨[], .error fault⟩
  | .ok output =>
    let settled := settle g.verdicts
    match settled.outcome with
    | .error fault => ⟨assemblingEvent g o :: settled.events, .error fault⟩
    | .ok buffers =>
      ⟨assemblingEvent g o :: settled.events ++ routineEvents g.routines,
        .ok (moduleUnit g o output buffers)⟩

/-- Why no module is generated. -/
inductive GenerationFault where
  /-- The graph has no unit. -/
  | graph (fault : GraphFault)
  /-- The unit has no text. -/
  | layout (fault : MarginFault)
deriving DecidableEq

/-- The text of the module for a graph. -/
def generate (g : Graph) (o : Options) : Traced GenerationFault String :=
  let assembled := assemble g o
  match assembled.outcome with
  | .error fault => ⟨assembled.events, .error (.graph fault)⟩
  | .ok unit =>
    match unit.render with
    | .error fault => ⟨assembled.events, .error (.layout fault)⟩
    | .ok text => ⟨assembled.events ++ [.generated g.name text.utf8ByteSize], .ok text⟩

end Chronograph
