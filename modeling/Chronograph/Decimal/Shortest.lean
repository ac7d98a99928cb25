/-!
# Shortest decimals

A binary value stands for all reals that round to it: an interval from halfway
to the value below to halfway to the value above, whose ends belong to it when
the mantissa is even.  The shortest decimal of the value is the one with the
fewest digits in that interval, and of those the nearest to the value.

Everything is computed in whole numbers.  A value `m * 2 ^ e`, and both ends
of its interval, times a power of ten are whole (`Bracket.ofBinary`).  A
decimal of few digits is then a multiple of a large power of ten, and of all
multiples only the two next to the value can be the one looked for: the largest
power of ten with such a multiple inside the interval gives the digits.  The
search cannot fail, because the value itself is a multiple of one.
-/

namespace Chronograph

open Float.Model (Format)

/-- A whole number times a power of ten. -/
structure Decimal where
  digits : Nat
  exponent : Int
deriving DecidableEq, Repr

/-- Which of two decimals wins that are equally near to a value. -/
inductive TieRule where
  /-- The larger one. -/
  | up
  /-- The one whose last digit is even. -/
  | even
deriving DecidableEq, Repr

/-- A positive value and the interval of the reals that round to it, all times
`10 ^ scale`; the ends belong to a closed interval. -/
structure Bracket where
  scale : Nat
  low : Nat
  value : Nat
  high : Nat
  closed : Bool
deriving Repr

namespace Bracket

/-- The bracket of `m * 2 ^ e` in a binary format.  Below a power of two the
values lie twice as close, unless the exponent is the least. -/
def ofBinary (format : Format) (m : Nat) (e : Int) : Bracket :=
  let quarter := e - 2
  let scale := (-quarter).toNat
  let factor := Nat.pow 2 quarter.toNat * Nat.pow 5 scale
  let narrow := m == Nat.pow 2 format.mantissaBitsWithoutImplicit && format.minExponent < e
  { scale
    low := (4 * m - if narrow then 1 else 2) * factor
    value := 4 * m * factor
    high := (4 * m + 2) * factor
    closed := m % 2 == 0 }

/-- Whether a number over `10 ^ scale` rounds to the value. -/
def contains (b : Bracket) (n : Nat) : Bool :=
  if b.closed then b.low ≤ n && n ≤ b.high else b.low < n && n < b.high

/-- Of the multiple of `grid` below the value and the next one, the nearer. -/
def nearer (tie : TieRule) (b : Bracket) (grid below : Nat) : Nat :=
  let above := below + grid
  match compare (2 * b.value) (below + above) with
  | .lt => below
  | .gt => above
  | .eq =>
    match tie with
    | .up => above
    | .even => if below / grid % 2 == 0 then below else above

/-- The multiple of `grid` next to the value that rounds to it, the nearer one
if both do. -/
def onGrid (tie : TieRule) (b : Bracket) (grid : Nat) : Option Nat :=
  let below := b.value / grid * grid
  let above := below + grid
  match b.contains below, b.contains above with
  | true, true => some (b.nearer tie grid below)
  | true, false => some below
  | false, true => some above
  | false, false => none

/-- The number found on the coarsest of the grids `10 ^ p, …, 10, 1`. -/
def search (tie : TieRule) (b : Bracket) : Nat → Nat
  | 0 => b.value
  | p + 1 =>
    match b.onGrid tie (Nat.pow 10 (p + 1)) with
    | some n => n
    | none => search tie b p

end Bracket

/-- The decimal `n * 10 ^ e` without final zeros, of which it has at most as
many as the first argument says. -/
def Decimal.strip : Nat → Nat → Int → Decimal
  | 0, n, e => ⟨n, e⟩
  | k + 1, n, e => if n % 10 = 0 then Decimal.strip k (n / 10) (e + 1) else ⟨n, e⟩

/-- The shortest decimal of the value `m * 2 ^ e` of a binary format, where `m`
is positive. -/
def shortest (format : Format) (tie : TieRule) (m : Nat) (e : Int) : Decimal :=
  let b := Bracket.ofBinary format m e
  let places := (Nat.toDigits 10 b.value).length
  Decimal.strip places (b.search tie (places - 1)) (-(b.scale : Int))

end Chronograph
