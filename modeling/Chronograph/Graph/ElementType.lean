/-!
# Element types

The element types a graph may give its tensors, their names, their sizes, and
the type each has in the emitted code.  Only four of the eight have one: a
tensor of another type is read and kept, but never declared.
-/

namespace Chronograph

/-- The element type of a tensor. -/
inductive ElementType where
  | float | double | int32 | int64 | int8 | uint8 | bool | float16
deriving DecidableEq, Repr

namespace ElementType

/-- All element types, in the order in which messages list them. -/
def all : List ElementType := [float, double, int32, int64, int8, uint8, bool, float16]

/-- The name of an element type in descriptions and messages. -/
def name : ElementType → String
  | float => "float"
  | double => "double"
  | int32 => "int32"
  | int64 => "int64"
  | int8 => "int8"
  | uint8 => "uint8"
  | bool => "bool"
  | float16 => "float16"

/-- The bytes that one element takes. -/
def byteSize : ElementType → Nat
  | double | int64 => 8
  | float | int32 => 4
  | float16 => 2
  | int8 | uint8 | bool => 1

/-- The type of the emitted code, for the element types that are declared. -/
def codeType? : ElementType → Option String
  | float => some "float"
  | double => some "double"
  | int32 => some "int32_t"
  | int64 => some "int64_t"
  | int8 | uint8 | bool | float16 => none

/-- The types whose name in the emitted code comes from the header `cstdint`. -/
def isFixedWidth : ElementType → Bool
  | int32 | int64 => true
  | _ => false

theorem mem_all (t : ElementType) : t ∈ all := by cases t <;> decide

theorem byteSize_pos (t : ElementType) : 0 < t.byteSize := by cases t <;> decide

/-- No two element types share a name. -/
theorem name_injective {s t : ElementType} (h : s.name = t.name) : s = t := by
  revert h; cases s <;> cases t <;> decide

end ElementType

end Chronograph
