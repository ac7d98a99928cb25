import Chronograph.Graph.Tensor
import Chronograph.Json.Reader
import Chronograph.Json.Value

/-!
# Descriptions of graphs

A graph as a JSON text describes it: operators by a template of their body,
constants by JSON numbers, everything else as it is.  Only the name of the
graph must be there.  A description is written with all its fields, in order
(`Description.toJson`), and read with any of them missing, in any order or as
a list (`Description.format`).
-/

namespace Chronograph

open Json (RecordFormat Reader Value)

/-- An operator with the template of its body. -/
structure OperatorDescription where
  name : String
  body : String
deriving DecidableEq

/-- A constant whose elements are still JSON numbers. -/
structure ConstantDescription where
  name : String
  type : ElementType
  shape : Shape
  data : List Json.Number
deriving DecidableEq

/-- A description of a graph. -/
structure Description where
  name : String
  sourceFile : String := ""
  parseTime : String := ""
  operators : List OperatorDescription := []
  constants : List ConstantDescription := []
  intermediates : List Tensor := []
  inputs : List Tensor := []
  outputs : List String := []
  routines : List String := []
deriving DecidableEq

/-! ## Reading -/

/-- An element type in JSON. -/
def ElementType.read : Reader ElementType :=
  Json.readVariant (ElementType.all.map fun t => (t.name, t))

/-- A shape in JSON. -/
def Shape.read : Reader Shape := Json.readList Json.readWord

/-- The fields of an input or intermediate tensor in JSON. -/
def Tensor.format : RecordFormat Tensor where
  name := "TensorInfo"
  start := { name := "", type := .float, shape := [] }
  fields := [
    .of "name" true Json.readText fun t v => { t with name := v },
    .of "dtype" true ElementType.read fun t v => { t with type := v },
    .of "shape" true Shape.read fun t v => { t with shape := v }]

/-- The fields of an operator in JSON. -/
def OperatorDescription.format : RecordFormat OperatorDescription where
  name := "OperatorDescription"
  start := { name := "", body := "" }
  fields := [
    .of "name" true Json.readText fun o v => { o with name := v },
    .of "body" true Json.readText fun o v => { o with body := v }]

/-- The fields of a constant in JSON. -/
def ConstantDescription.format : RecordFormat ConstantDescription where
  name := "ConstantDescription"
  start := { name := "", type := .float, shape := [], data := [] }
  fields := [
    .of "name" true Json.readText fun c v => { c with name := v },
    .of "dtype" true ElementType.read fun c v => { c with type := v },
    .of "shape" true Shape.read fun c v => { c with shape := v },
    .of "data" true (Json.readList Json.readNumber) fun c v => { c with data := v }]

namespace Description

/-- The fields of a description in JSON. -/
def format : RecordFormat Description where
  name := "GraphDescription"
  start := { name := "" }
  fields := [
    .of "name" true Json.readText fun d v => { d with name := v },
    .of "source_file" false Json.readText fun d v => { d with sourceFile := v },
    .of "parse_time" false Json.readText fun d v => { d with parseTime := v },
    .of "operators" false (Json.readList OperatorDescription.format.read)
      fun d v => { d with operators := v },
    .of "initialized" false (Json.readList ConstantDescription.format.read)
      fun d v => { d with constants := v },
    .of "intermediates" false (Json.readList Tensor.format.read)
      fun d v => { d with intermediates := v },
    .of "inputs" false (Json.readList Tensor.format.read) fun d v => { d with inputs := v },
    .of "outputs" false (Json.readList Json.readText) fun d v => { d with outputs := v },
    .of "blas_routines" false (Json.readList Json.readText)
      fun d v => { d with routines := v }]

/-- The description that a JSON text holds. -/
def ofJson (text : String) : Except Json.Fault Description := Json.readWhole format.read text

end Description

/-! ## Writing -/

/-- A shape as JSON. -/
def Shape.toJson (shape : Shape) : Value := .list (shape.map fun n => .number (.natural n))

/-- A tensor as JSON. -/
def Tensor.toJson (t : Tensor) : Value :=
  .object [("name", .text t.name), ("dtype", .text t.type.name), ("shape", t.shape.toJson)]

/-- An operator as JSON. -/
def OperatorDescription.toJson (o : OperatorDescription) : Value :=
  .object [("name", .text o.name), ("body", .text o.body)]

/-- A constant as JSON. -/
def ConstantDescription.toJson (c : ConstantDescription) : Value :=
  .object [("name", .text c.name), ("dtype", .text c.type.name), ("shape", c.shape.toJson),
    ("data", .list (c.data.map Value.number))]

/-- A description as JSON. -/
def Description.toJson (d : Description) : Value :=
  .object [("name", .text d.name), ("source_file", .text d.sourceFile),
    ("parse_time", .text d.parseTime),
    ("operators", .list (d.operators.map OperatorDescription.toJson)),
    ("initialized", .list (d.constants.map ConstantDescription.toJson)),
    ("intermediates", .list (d.intermediates.map Tensor.toJson)),
    ("inputs", .list (d.inputs.map Tensor.toJson)),
    ("outputs", .list (d.outputs.map Value.text)),
    ("blas_routines", .list (d.routines.map Value.text))]

/-! ## Equality -/

/-- Whether two constants agree, their numbers in kind and value. -/
def ConstantDescription.same (a b : ConstantDescription) : Bool :=
  a.name == b.name && a.type == b.type && a.shape == b.shape
    && a.data.length == b.data.length && (a.data.zip b.data).all fun (m, n) => m.same n

/-- Whether two descriptions agree, their numbers in kind and value. -/
def Description.same (a b : Description) : Bool :=
  { a with constants := [] } == { b with constants := [] }
    && a.constants.length == b.constants.length
    && (a.constants.zip b.constants).all fun (c, d) => c.same d

/-- Whether a description is read back from its own text. -/
def Description.roundTrips (d : Description) : Bool :=
  match Description.ofJson d.toJson.toCompact with
  | .ok read => d.same read
  | .error _ => false

end Chronograph
