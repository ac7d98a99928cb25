import Chronograph.Decimal.Notation
import Chronograph.Graph.Tensor

/-!
# Literals of the emitted code

How one element of a constant is spelled.  A finite float is its shortest
decimal in positional notation, however long, with the suffix of its type; of
two shortest decimals that are equally near the larger is taken.  NaN and the
infinities are macros of the header `cmath`.  The least integer of a type has no
literal of its own, because the minus sign is not part of a literal, and is
spelled as an expression.
-/

namespace Chronograph

open Float.Model (Format UnpackedFloat)

/-- The literal of a float, without suffix for the macros. -/
def floatLiteral (format : Format) (suffix : List Char) : UnpackedFloat → List Char
  | .notANumber => "NAN".toList
  | .infinity s => signText s ++ "INFINITY".toList
  | .zero s => signText s ++ "0.0".toList ++ suffix
  | .finite s m e _ => signText s ++ (shortest format .up m e).positional ++ suffix

def float32Literal (x : Float32) : List Char := floatLiteral .binary32 ['f'] x.toModel.unpack

def float64Literal (x : Float) : List Char := floatLiteral .binary64 [] x.toModel.unpack

/-- The decimal text of an integer. -/
def intText (n : Int) : List Char :=
  if n < 0 then '-' :: digitsOf n.natAbs else digitsOf n.natAbs

def int32Literal (x : Int32) : List Char :=
  if x = Int32.minValue then "(-2147483647 - 1)".toList else intText x.toInt

def int64Literal (x : Int64) : List Char :=
  if x = Int64.minValue then "(-9223372036854775807LL - 1)".toList
  else intText x.toInt ++ "LL".toList

/-- The literals of a constant's elements; data of undeclared types has none. -/
def TensorData.literals : TensorData → List (List Char)
  | .float values => values.map float32Literal
  | .double values => values.map float64Literal
  | .int32 values => values.map int32Literal
  | .int64 values => values.map int64Literal
  | .raw .. => []

/-- Whether the literals of the data need the header `cmath`. -/
def TensorData.hasNonFinite : TensorData → Bool
  | .float values => values.any fun x => !x.isFinite
  | .double values => values.any fun x => !x.isFinite
  | _ => false

/-- A braced initializer. -/
def braced (literals : List (List Char)) : String :=
  String.ofList ('{' :: [',', ' '].intercalate literals ++ ['}'])

end Chronograph
