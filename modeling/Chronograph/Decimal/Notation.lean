import Chronograph.Decimal.Shortest

/-!
# Written decimals

How a decimal is spelled.  In positional notation there is always a digit on
each side of the point, so that a whole number ends in `.0`; in exponent
notation the point stands behind the first digit, unless that is the only one,
and the exponent has a sign.  `fixedPlaces` writes a binary value with a given
number of places, and rounds its exact value, a half to the even neighbour.
-/

namespace Chronograph

open Float.Model (UnpackedFloat)
open Float.Model.UnpackedFloat (Sign)

/-- The decimal digits of a number. -/
def digitsOf (n : Nat) : List Char := Nat.toDigits 10 n

/-- A minus sign for the negative. -/
def signText : Sign → List Char
  | .negative => ['-']
  | .positive => []

/-- Digits with a point before the last `places` of them, and zeros in front so
that at least one digit stands before the point. -/
def pointed (places : Nat) (digits : List Char) : List Char :=
  let padded := List.replicate (places + 1 - digits.length) '0' ++ digits
  padded.take (padded.length - places) ++ '.' :: padded.drop (padded.length - places)

/-- A decimal in positional notation. -/
def Decimal.positional (d : Decimal) : List Char :=
  match d.exponent with
  | .ofNat k => digitsOf d.digits ++ List.replicate k '0' ++ ['.', '0']
  | .negSucc k => pointed (k + 1) (digitsOf d.digits)

/-- The exponent of a decimal's first digit. -/
def Decimal.leadingExponent (d : Decimal) : Int :=
  d.exponent + ((digitsOf d.digits).length - 1 : Nat)

/-- A decimal in exponent notation. -/
def Decimal.scientific (d : Decimal) : List Char :=
  let mantissa := match digitsOf d.digits with
    | first :: next :: rest => first :: '.' :: next :: rest
    | short => short
  let e := d.leadingExponent
  mantissa ++ 'e' :: (if e < 0 then '-' else '+') :: digitsOf e.natAbs

/-- A quotient rounded to the nearest whole number, a half to the even one. -/
def roundedQuotient (num den : Nat) : Nat :=
  let q := num / den
  match compare (2 * (num % den)) den with
  | .lt => q
  | .gt => q + 1
  | .eq => q + q % 2

/-- The value `m * 2 ^ e` with a number of places after the point. -/
def fixedPlaces (places m : Nat) (e : Int) : List Char :=
  pointed places <| digitsOf <|
    roundedQuotient (m * Nat.pow 2 e.toNat * Nat.pow 10 places) (Nat.pow 2 (-e).toNat)

/-- A float with a number of places after the point, as tables show it. -/
def placesText (places : Nat) : UnpackedFloat → List Char
  | .notANumber => "NaN".toList
  | .infinity s => signText s ++ "inf".toList
  | .zero s => signText s ++ fixedPlaces places 0 0
  | .finite s m e _ => signText s ++ fixedPlaces places m e

end Chronograph
