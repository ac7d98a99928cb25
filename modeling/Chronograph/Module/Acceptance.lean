import Chronograph.Graph.Basic

/-!
# Acceptance of graphs

The emitted routine returns one tensor, copied from the buffer that it is
computed in.  So a graph is accepted only if it names exactly one output, which
is one of its intermediate tensors, of a type that is declared, and with at
least one element.  `Graph.output` gives that tensor or the first reason why
there is none.
-/

namespace Chronograph

/-- Why no unit is put together for a graph. -/
inductive GraphFault where
  | outputCount (count : Nat)
  | outputNotFound (name : String)
  | outputType (name : String) (type : ElementType)
  | emptyOutput (name : String)
  | constantSize (name : String) (expected : UInt64) (actual : Nat)
  | shapeOverflow (name : String)
deriving DecidableEq

/-- The message of a fault. -/
def GraphFault.message : GraphFault → String
  | outputCount count =>
    "exactly one output tensor is supported, graph declares " ++ count.repr
  | outputNotFound name =>
    "output tensor '" ++ name ++ "' not found among intermediate tensors"
  | outputType name type =>
    "output tensor '" ++ name ++ "' has unsupported element type " ++ type.name
  | emptyOutput name => "output tensor '" ++ name ++ "' has no elements"
  | constantSize name expected actual =>
    "constant tensor '" ++ name ++ "' holds " ++ actual.repr
      ++ " values but its shape requires " ++ expected.toNat.repr
  | shapeOverflow name =>
    "tensor '" ++ name ++ "' shape overflows the addressable element count"

/-- The number of elements of a tensor of some name and shape. -/
def countElements (name : String) (shape : Shape) : Except GraphFault UInt64 :=
  match shape.elementCount with
  | some n => .ok n
  | none => .error (.shapeOverflow name)

/-- The tensor that the emitted routine returns. -/
def Graph.output (g : Graph) : Except GraphFault Tensor := do
  match g.outputs with
  | [name] =>
    match g.intermediate? name with
    | none => .error (.outputNotFound name)
    | some t =>
      if t.type.codeType?.isNone then .error (.outputType name t.type)
      else if (← countElements name t.shape) = 0 then .error (.emptyOutput name)
      else return t
  | outputs => .error (.outputCount outputs.length)

end Chronograph
