import Chronograph.Binary.Exact
import Chronograph.Decimal.Notation

/-!
# JSON numbers

A number read from JSON keeps its kind.  A literal without fraction and
exponent is a whole number as long as it fits in 64 bits; every other literal,
and minus zero, is a float.  Numbers are written in the same kinds, so a whole
float always shows a point or an exponent.

* `Number.wholeValue?` — the whole number that a JSON number stands for without
  doubt: floats count up to `2 ^ 53`, beyond which neighbours are lost;
* `floatText` — floats between `10 ^ -5` and `10 ^ 16` are written in positional
  notation, all others with an exponent, and what is not finite as `null`.
-/

namespace Chronograph.Json

open Float.Model (UnpackedFloat)

/-- A JSON number: not negative and whole, negative and whole, or a float. -/
inductive Number where
  | natural (n : UInt64)
  | negative (n : Int64)
  | float (x : Float)
deriving DecidableEq

/-- A finite float as JSON. -/
def decimalText (d : Decimal) : List Char :=
  if -5 ≤ d.leadingExponent ∧ d.leadingExponent < 16 then d.positional else d.scientific

/-- A float as JSON, which has neither NaN nor infinities. -/
def floatText (x : Float) : List Char :=
  match x.toModel.unpack with
  | .notANumber | .infinity _ => "null".toList
  | .zero s => signText s ++ decimalText ⟨0, 0⟩
  | .finite s m e _ => signText s ++ decimalText (shortest .binary64 .even m e)

namespace Number

/-- A number as JSON. -/
def text : Number → List Char
  | natural n => digitsOf n.toNat
  | negative n => (if n < 0 then ['-'] else []) ++ digitsOf n.toInt.natAbs
  | float x => floatText x

/-- The nearest float. -/
def toFloat : Number → Float
  | natural n => n.toFloat
  | negative n => -(UInt64.ofNat n.toInt.natAbs).toFloat
  | float x => x

/-- The largest magnitude up to which every whole number is a float. -/
def exactLimit : Nat := Nat.pow 2 53

/-- The whole number that a JSON number stands for without doubt. -/
def wholeValue? : Number → Option Int
  | natural n => some n.toNat
  | negative n => some n.toInt
  | float x =>
    (Chronograph.wholeValue? x.toModel.unpack).filter fun v => v.natAbs ≤ exactLimit

/-- Equality of kind and value; zeros of either sign are equal. -/
def same : Number → Number → Bool
  | natural a, natural b => a == b
  | negative a, negative b => a == b
  | float x, float y => x == y
  | _, _ => false

end Number

end Chronograph.Json
