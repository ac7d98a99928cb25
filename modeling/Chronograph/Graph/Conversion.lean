import Chronograph.Graph.Basic
import Chronograph.Graph.Description

/-!
# Graphs from descriptions

The JSON numbers of a constant become elements of its type.  An integer type
takes the whole numbers in its range, and of floats only those that are whole
and small enough to be exact; a float type takes every number, and rounds it to
its own width.  The first number that its constant cannot take, in the order of
the description, is the fault of the description.

The tables of the graph are then filled in the order of the description, so
that a later tensor takes the place of an earlier one of its name.
-/

namespace Chronograph

/-- Why a description gives no graph. -/
inductive DescriptionFault where
  /-- The text is no description. -/
  | malformed (fault : Json.Fault)
  /-- A number of a constant is no element of its type. -/
  | unrepresentable (constant : String) (value : Json.Number) (type : ElementType)

/-- The message of a fault. -/
def DescriptionFault.message : DescriptionFault → String
  | malformed fault => "invalid graph description: " ++ fault.message
  | unrepresentable constant value type =>
    "invalid graph description: constant '" ++ constant ++ "' value "
      ++ String.ofList value.text ++ " is not representable as " ++ type.name

/-- The two bytes of a word of sixteen bits, the lower first. -/
def lowFirst (bits : BitVec 16) : List UInt8 :=
  [UInt8.ofNat (bits.toNat % 256), UInt8.ofNat (bits.toNat / 256)]

namespace ConstantDescription

/-- The whole number that is meant by a number of a constant, if it lies
between two bounds. -/
def integerIn (c : ConstantDescription) (low high : Int) (value : Json.Number) :
    Except DescriptionFault Int :=
  match value.wholeValue? with
  | some v => if low ≤ v ∧ v ≤ high then .ok v else .error (.unrepresentable c.name value c.type)
  | none => .error (.unrepresentable c.name value c.type)

/-- The elements of a constant. -/
def elements (c : ConstantDescription) : Except DescriptionFault TensorData :=
  match c.type with
  | .float => .ok (.float (c.data.map fun n => narrowToSingle n.toFloat))
  | .double => .ok (.double (c.data.map Json.Number.toFloat))
  | .int32 => do
    let values ← c.data.mapM (c.integerIn Int32.minValue.toInt Int32.maxValue.toInt)
    return .int32 (values.map Int32.ofInt)
  | .int64 => do
    let values ← c.data.mapM (c.integerIn Int64.minValue.toInt Int64.maxValue.toInt)
    return .int64 (values.map Int64.ofInt)
  | .int8 => do
    let values ← c.data.mapM (c.integerIn Int8.minValue.toInt Int8.maxValue.toInt)
    return .raw .int8 (values.map fun v => (Int8.ofInt v).toUInt8)
  | .uint8 => do
    let values ← c.data.mapM (c.integerIn 0 255)
    return .raw .uint8 (values.map fun v => UInt8.ofNat v.toNat)
  | .bool => .ok (.raw .bool (c.data.map fun n => if n.toFloat == 0 then 0 else 1))
  | .float16 => .ok (.raw .float16 (c.data.flatMap fun n => lowFirst (halfBits n.toFloat)))

end ConstantDescription

/-- The constant that is described. -/
def ConstantDescription.toConstant (c : ConstantDescription) : Except DescriptionFault Constant :=
  return { name := c.name, shape := c.shape, data := ← c.elements }

namespace Graph

/-- The graph that is described. -/
def ofDescription (d : Description) : Except DescriptionFault Graph := do
  let base : Graph := { name := d.name, sourceFile := d.sourceFile, parseTime := d.parseTime }
  let constants ← d.constants.mapM ConstantDescription.toConstant
  let g := d.operators.foldl (fun g o => g.addOperator (.ofTemplate o.name o.body)) base
  let g := constants.foldl addConstant g
  let g := d.intermediates.foldl addIntermediate g
  let g := d.inputs.foldl addInput g
  let g := d.outputs.foldl addOutput g
  return d.routines.foldl requireRoutine g

/-- The graph that a JSON text describes. -/
def ofJson (text : String) : Except DescriptionFault Graph :=
  match Description.ofJson text with
  | .ok d => ofDescription d
  | .error fault => .error (.malformed fault)

end Graph

end Chronograph
