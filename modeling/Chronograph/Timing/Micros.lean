import Chronograph.Binary.Exact

/-!
# Microseconds

The time of an operator is a float.  Sums of such times may be undefined, as
infinity and minus infinity have no sum, and a summary has to place what comes
of it: a time that was recorded as NaN ranks above all numbers, an undefined
sum below them.  So an undefined sum is kept apart from the floats.

* `Micros.add` — the sum, in the arithmetic of floats;
* `Micros.rank` — the total order in which summaries list times: minus infinity
  below the numbers, minus zero just below zero.
-/

namespace Chronograph

/-- A time in microseconds. -/
inductive Micros where
  | number (x : Float)
  /-- What is left of a sum of infinities of both signs. -/
  | undefined
deriving DecidableEq

namespace Micros

/-- A whole number of microseconds, as a clock gives it. -/
def ofNat (n : Nat) : Micros := number (nearestFloat n)

/-- Where a total begins. -/
def zero : Micros := number 0.0

/-- The float of a time; an undefined one is NaN. -/
def toFloat : Micros → Float
  | number x => x
  | undefined => Float.ofBits 0x7FF8000000000000

/-- The sum of two times.  Of two times that are no numbers the first decides. -/
def add : Micros → Micros → Micros
  | undefined, _ => undefined
  | number x, undefined => if x.isNaN then number x else undefined
  | number x, number y =>
    let sum := x + y
    if sum.isNaN && !x.isNaN && !y.isNaN then undefined else number sum

/-- A total over a positive number of runs. -/
def dividedBy : Micros → Nat → Micros
  | undefined, _ => undefined
  | number x, n => number (x / nearestFloat n)

/-- The place of some bits in the total order of floats: the bits of negative
floats count downwards. -/
def bitRank (bits : UInt64) : Int :=
  if bits < 0x8000000000000000 then bits.toNat
  else -((bits.toNat - 0x8000000000000000 : Nat) : Int) - 1

/-- The place of a time in the total order of floats. -/
def rank : Micros → Int
  | number x => bitRank x.toBits
  | undefined => bitRank 0xFFF8000000000000

end Micros

end Chronograph
