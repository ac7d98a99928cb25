import Chronograph.Proofs.Decimal.Notation
import Chronograph.Proofs.Json.Powers

/-!
# Numbers as they are written

A JSON number as a text: a sign, digits, a fraction and an exponent.  The text
has an exact value, whatever a reader makes of it (`Numeral.value`).
-/

namespace Chronograph.Json

/-- A JSON number as it is written. -/
structure Numeral where
  negative : Bool
  whole : List Char
  fraction : List Char
  /-- The exponent, if one is written. -/
  exponent : Option Int
deriving DecidableEq, Repr

namespace Numeral

/-- All digits as one number. -/
def digits (n : Numeral) : ℕ := digitsValue (n.whole ++ n.fraction)

/-- The power of ten that the last digit stands for. -/
def power (n : Numeral) : ℤ := n.exponent.getD 0 - n.fraction.length

/-- The exact value without the sign. -/
def magnitude (n : Numeral) : ℚ := n.digits * 10 ^ n.power

/-- The exact value. -/
def value (n : Numeral) : ℚ := if n.negative then -n.magnitude else n.magnitude

/-- Written with neither a fraction nor an exponent. -/
def Plain (n : Numeral) : Prop := n.fraction = [] ∧ n.exponent = none

/-- The whole numbers `V` that are written with a fraction or an exponent and
are accepted as another number: `2 ^ 53 + 1` without superfluous places; a
number between `2 ^ 52` and `2 ^ 53` with superfluous places, of which at most
three are kept, if they move it too far; and what is not zero, with an exponent
that is not counted because it is too small. -/
def MisreadAs (n : Numeral) (V : ℕ) : Prop :=
  ¬n.Plain ∧
    (V = 2 ^ 53 + 1 ∧ n.power = 0 ∨
      n.power < 0 ∧ Blurred V (min (-n.power).toNat 3) ∨
      V ≠ 0 ∧ ∃ e, n.exponent = some e ∧ e ≤ -2 ^ 31)

/-- A whole number `w` is what becomes of a numeral: its exact value, unless that
is misread. -/
def ReadAs (n : Numeral) (w : ℤ) : Prop :=
  ∀ v : ℤ, n.value = v → (w = v ↔ ¬n.MisreadAs v.natAbs)

theorem magnitude_nonneg (n : Numeral) : 0 ≤ n.magnitude := by
  unfold magnitude
  positivity

/-- It is enough to look at the value without the sign. -/
theorem readAs_of_magnitude {n : Numeral} {w : ℤ}
    (h : ∀ V : ℕ, n.magnitude = V → (w = signedInt n.negative V ↔ ¬n.MisreadAs V)) :
    n.ReadAs w := by
  intro v hv
  have hnonneg := n.magnitude_nonneg
  have hmagnitude : n.magnitude = (v.natAbs : ℕ) ∧ signedInt n.negative v.natAbs = v := by
    unfold value at hv
    unfold signedInt
    cases hnegative : n.negative with
    | false =>
        rw [hnegative, if_neg Bool.false_ne_true] at hv
        rw [hv] at hnonneg
        have habs : (v.natAbs : ℤ) = v := Int.natAbs_of_nonneg (by exact_mod_cast hnonneg)
        exact ⟨by rw [hv, ← habs]; rfl, habs⟩
    | true =>
        rw [hnegative, if_pos rfl] at hv
        have hneg : n.magnitude = ((-v : ℤ) : ℚ) := by
          rw [Int.cast_neg, ← hv, neg_neg]
        rw [hneg] at hnonneg
        have habs : (v.natAbs : ℤ) = -v := by
          have : (0 : ℤ) ≤ -v := by exact_mod_cast hnonneg
          omega
        refine ⟨by rw [hneg, ← habs]; rfl, ?_⟩
        rw [if_pos rfl, habs, neg_neg]
  have hread := h v.natAbs hmagnitude.1
  rwa [hmagnitude.2] at hread

end Numeral

/-! ## Reading the text -/

/-- Digits, of which the first is a zero only if it is the only one. -/
def numeralWhole : Reader (List Char) := fun s =>
  let ds := s.takeWhile Char.isDigit
  if ds = [] ∨ ds.head? = some '0' ∧ ds ≠ ['0'] then .error .invalidNumber
  else .ok (ds, s.dropWhile Char.isDigit)

theorem numeralWhole_zero {s : List Char} (h : s.takeWhile Char.isDigit = []) :
    numeralWhole ('0' :: s) = .ok (['0'], s) := by
  have hrest : s.dropWhile Char.isDigit = s := by
    have happend := List.takeWhile_append_dropWhile (p := Char.isDigit) (l := s)
    rwa [h, List.nil_append] at happend
  unfold numeralWhole
  rw [List.takeWhile_cons_of_pos rfl, List.dropWhile_cons_of_pos rfl, h, hrest]
  rfl

theorem numeralWhole_of_ne {s : List Char} (h : s.takeWhile Char.isDigit ≠ [])
    (hzero : ∀ r, s ≠ '0' :: r) :
    numeralWhole s = .ok (s.takeWhile Char.isDigit, s.dropWhile Char.isDigit) := by
  unfold numeralWhole
  apply if_neg
  rintro (hnil | ⟨hhead, -⟩)
  · exact h hnil
  · cases s with
    | nil => exact h rfl
    | cons c s =>
        by_cases hc : c.isDigit = true
        · rw [List.takeWhile_cons_of_pos hc, List.head?_cons] at hhead
          cases hhead
          exact hzero s rfl
        · rw [List.takeWhile_cons_of_neg hc] at hhead
          cases hhead

/-- A fraction, if one is there. -/
def numeralFraction : Reader (List Char)
  | '.' :: s =>
    if s.takeWhile Char.isDigit = [] then .error .invalidNumber
    else .ok (s.takeWhile Char.isDigit, s.dropWhile Char.isDigit)
  | s => .ok ([], s)

theorem numeralFraction_of_ne {s : List Char} (h : ∀ r, s ≠ '.' :: r) :
    numeralFraction s = .ok ([], s) := by
  unfold numeralFraction
  split
  · exact absurd rfl (h _)
  · rfl

/-- The digits of an exponent with its sign. -/
def exponentDigits (down : Bool) : Reader (Option Int) := fun s =>
  if s.takeWhile Char.isDigit = [] then .error .invalidNumber
  else .ok (some (signedInt down (digitsValue (s.takeWhile Char.isDigit))),
    s.dropWhile Char.isDigit)

/-- An exponent, from behind its `e`. -/
def signedExponent : Reader (Option Int)
  | '+' :: s => exponentDigits false s
  | '-' :: s => exponentDigits true s
  | s => exponentDigits false s

theorem signedExponent_of_ne {s : List Char} (hplus : ∀ r, s ≠ '+' :: r)
    (hminus : ∀ r, s ≠ '-' :: r) : signedExponent s = exponentDigits false s := by
  unfold signedExponent
  split
  · exact absurd rfl (hplus _)
  · exact absurd rfl (hminus _)
  · rfl

/-- An exponent, if one is there. -/
def numeralExponent : Reader (Option Int)
  | 'e' :: s => signedExponent s
  | 'E' :: s => signedExponent s
  | s => .ok (none, s)

theorem numeralExponent_of_ne {s : List Char} (hlower : ∀ r, s ≠ 'e' :: r)
    (hupper : ∀ r, s ≠ 'E' :: r) : numeralExponent s = .ok (none, s) := by
  unfold numeralExponent
  split
  · exact absurd rfl (hlower _)
  · exact absurd rfl (hupper _)
  · rfl

/-- A number, from behind its minus sign if it has one. -/
def numeralFrom (negative : Bool) : Reader Numeral := fun s => do
  let (whole, s) ← numeralWhole s
  let (fraction, s) ← numeralFraction s
  let (exponent, s) ← numeralExponent s
  return ({ negative, whole, fraction, exponent }, s)

/-- A number. -/
def readNumeral : Reader Numeral := fun s =>
  match skipSpace s with
  | '-' :: r => numeralFrom true r
  | r => numeralFrom false r

end Chronograph.Json
