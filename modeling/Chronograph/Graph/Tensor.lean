import Chronograph.Graph.ElementType

/-!
# Tensors

A tensor is a name, an element type and a shape; a constant also has its
elements, flattened in row-major order.  The number of elements that a shape
stands for is the product of its dimensions, taken from the left in 64 bits:
the first product that does not fit makes the shape one that cannot be
addressed, whatever follows it.
-/

namespace Chronograph

/-- The elements of a constant.  Element types that are never declared keep
their bytes. -/
inductive TensorData where
  | float (values : List Float32)
  | double (values : List Float)
  | int32 (values : List Int32)
  | int64 (values : List Int64)
  | raw (type : ElementType) (bytes : List UInt8)
deriving DecidableEq

namespace TensorData

/-- The element type of the data. -/
def elementType : TensorData → ElementType
  | float _ => .float
  | double _ => .double
  | int32 _ => .int32
  | int64 _ => .int64
  | raw type _ => type

/-- The number of elements; bytes that do not fill one more element are not
counted. -/
def length : TensorData → Nat
  | float values => values.length
  | double values => values.length
  | int32 values => values.length
  | int64 values => values.length
  | raw type bytes => bytes.length / type.byteSize

def isEmpty (data : TensorData) : Bool := data.length == 0

end TensorData

/-- The dimensions of a tensor, outermost first. -/
abbrev Shape := List UInt64

/-- A product, if it fits in 64 bits. -/
def checkedMul (a b : UInt64) : Option UInt64 :=
  if a.toNat * b.toNat < UInt64.size then some (a * b) else none

/-- The number of elements of a shape, multiplied up from the left; a shape of
no dimensions holds one. -/
def Shape.elementCount (shape : Shape) : Option UInt64 := shape.foldlM checkedMul 1

/-- Name, element type and shape of an input or intermediate tensor. -/
structure Tensor where
  name : String
  type : ElementType
  shape : Shape
deriving DecidableEq

/-- A tensor with its elements. -/
structure Constant where
  name : String
  shape : Shape
  data : TensorData
deriving DecidableEq

/-- The element type of a constant is that of its data. -/
def Constant.type (c : Constant) : ElementType := c.data.elementType

end Chronograph
