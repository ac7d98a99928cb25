/-!
# Exact values of floats

A finite float is a sign, a mantissa and a power of two.  Two questions are
answered on that exact value: which whole number it is, if it is one, and which
float of a narrower format is nearest to it.  Narrowing rounds a half to the
even mantissa and goes to infinity when the value is too large for the format;
so does the way back, from a whole number to the nearest float.
-/

namespace Chronograph

open Float.Model (Format UnpackedFloat)

/-- The format of half-width floats: ten bits of mantissa, five of exponent. -/
abbrev binary16 : Format where
  mantissaBitsWithoutImplicit := 10
  exponentBits := 5

/-- The whole number that a float is, if it is one. -/
def wholeValue? : UnpackedFloat → Option Int
  | .zero _ => some 0
  | .finite s m (.ofNat k) _ => some (s.apply ((m * Nat.pow 2 k : Nat) : Int))
  | .finite s m (.negSucc k) _ =>
    let unit := Nat.pow 2 (k + 1)
    if m % unit = 0 then some (s.apply ((m / unit : Nat) : Int)) else none
  | _ => none

/-- The float nearest to a whole number. -/
def nearestFloat (n : Nat) : Float := .ofModel (.ofNat n)

/-- The nearest float of a format; infinities and NaN stay what they are. -/
def narrowTo (format : Format) : UnpackedFloat → UnpackedFloat
  | .finite s m e _ => UnpackedFloat.round format s m e
  | special => special

/-- The nearest single-width float. -/
def narrowToSingle (x : Float) : Float32 :=
  .ofModel (Float32.Model.pack (narrowTo .binary32 x.toModel.unpack))

/-- The bits of the nearest half-width float. -/
def halfBits (x : Float) : BitVec 16 :=
  UnpackedFloat.pack binary16 (narrowTo binary16 x.toModel.unpack)

end Chronograph
