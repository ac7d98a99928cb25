import Chronograph.Proofs.Binary.Narrowing

/-!
# The order of floats

Two floats are compared by their exponents and then by their mantissas.  For
values in canonical form that is the order of the rationals that they are
(`compare_exactValue?`), because a value with a larger exponent has all bits of
a mantissa.

For the same reason it is the order of their bits.  The bits of a positive float,
read as a whole number, count upwards from zero to infinity and then NaN; those
of a negative one count downwards from minus zero.  So every float has a place in
one row (`bitPlace`), in which the two zeros are neighbours and all other numbers
stand as they compare (`bitPlace_lt_iff`).

The two zeros compare as equal, and only the one with a minus sign is neutral for
sums (`zero_add_eq_self_iff`).
-/

namespace Chronograph

open Float.Model (Format UnpackedFloat)
open Float.Model.UnpackedFloat

/-! ## Two zeros -/

theorem eq_negative_zero_iff {x : Float} : x = -0.0 ↔ x.toModel.unpack = .zero .negative := by
  have hzero : (-0.0 : Float).toModel.unpack = .zero .negative := rfl
  constructor
  · intro h
    rw [h, hzero]
  · intro h
    exact float_eq_of_unpack_eq (h.trans hzero.symm)

theorem eq_zero_iff {x : Float} : x = 0.0 ↔ x.toModel.unpack = .zero .positive := by
  have hzero : (0.0 : Float).toModel.unpack = .zero .positive := rfl
  constructor
  · intro h
    rw [h, hzero]
  · intro h
    exact float_eq_of_unpack_eq (h.trans hzero.symm)

/-- **Zero adds nothing**, but to minus zero. -/
theorem zero_add_eq_self_iff {x : Float} : 0.0 + x = x ↔ x ≠ -0.0 := by
  rw [Ne, eq_negative_zero_iff]
  have hzero : (0.0 : Float).toModel.unpack = .zero .positive := rfl
  constructor
  · intro hsum hx
    have hadd : 0.0 + x = 0.0 := by
      refine add_eq_of_unpack ?_
      rw [hx, hzero]
      rfl
    rw [← hsum, hadd, hzero] at hx
    cases hx
  · intro hx
    refine add_eq_of_unpack ?_
    rw [hzero]
    cases h : x.toModel.unpack with
    | notANumber => rfl
    | infinity s => rfl
    | zero s =>
        cases s with
        | negative => exact absurd h hx
        | positive => rfl
    | finite s m e hm => rfl

/-! ## Comparing values -/

/-- Of two values in canonical form the one with the smaller exponent is smaller,
and with the same exponent the one with the smaller mantissa. -/
theorem Canonical.lt_iff {F : Format} {m n : ℕ} {e f : ℤ} (hm : Canonical F m e)
    (hn : Canonical F n f) : (m : ℚ) * 2 ^ e < n * 2 ^ f ↔ e < f ∨ e = f ∧ m < n := by
  have hbelow {m n : ℕ} {e f : ℤ} (hm : Canonical F m e) (hn : Canonical F n f) (hef : e < f) :
      (m : ℚ) * 2 ^ e < n * 2 ^ f := by
    have hleast := hm.least
    have hbinade := hn.unitExponent.normal.resolve_left (by omega)
    calc (m : ℚ) * 2 ^ e < 2 ^ (e + F.mantissaBits) := hm.unitExponent.lt
      _ ≤ 2 ^ (f + F.mantissaBits - 1) := zpow_le_zpow_right₀ (by norm_num) (by omega)
      _ ≤ n * 2 ^ f := hbinade
  rcases lt_trichotomy e f with hef | hef | hef
  · exact iff_of_true (hbelow hm hn hef) (.inl hef)
  · subst hef
    rw [mul_lt_mul_iff_left₀ (two_zpow_pos e), Nat.cast_lt]
    simp
  · refine iff_of_false (hbelow hn hm hef).not_gt ?_
    omega

/-- Exponents and then mantissas are compared as whatever has that order. -/
theorem then_compare_eq {α : Type} [LinearOrder α] {m n : ℕ} {e f : ℤ} {x y : α}
    (hlt : x < y ↔ e < f ∨ e = f ∧ m < n) (hgt : y < x ↔ f < e ∨ f = e ∧ n < m) :
    (compare e f).then (compare m n) = compare x y := by
  rcases lt_trichotomy x y with h | h | h
  · rw [compare_lt_iff_lt.mpr h]
    rcases hlt.mp h with hef | ⟨hef, hmn⟩
    · rw [compare_lt_iff_lt.mpr hef]
      rfl
    · rw [compare_eq_iff_eq.mpr hef, compare_lt_iff_lt.mpr hmn]
      rfl
  · have hef : e = f := by
      have := hlt.not.mp h.not_lt
      have := hgt.not.mp h.not_gt
      omega
    have hmn : m = n := by
      have := hlt.not.mp h.not_lt
      have := hgt.not.mp h.not_gt
      omega
    rw [compare_eq_iff_eq.mpr h, compare_eq_iff_eq.mpr hef, compare_eq_iff_eq.mpr hmn]
    rfl
  · rw [compare_gt_iff_gt.mpr h]
    rcases hgt.mp h with hef | ⟨hef, hmn⟩
    · rw [compare_gt_iff_gt.mpr hef]
      rfl
    · rw [compare_eq_iff_eq.mpr hef.symm, compare_gt_iff_gt.mpr hmn]
      rfl

/-- The other way round they are compared as what has the opposite order. -/
theorem swap_then_compare_eq {α : Type} [LinearOrder α] {m n : ℕ} {e f : ℤ} {x y : α}
    (hlt : x < y ↔ f < e ∨ f = e ∧ n < m) (hgt : y < x ↔ e < f ∨ e = f ∧ m < n) :
    ((compare e f).then (compare m n)).swap = compare x y := by
  rw [then_compare_eq hgt hlt, ← cmp_eq_compare, cmp_swap, cmp_eq_compare]

/-- **Finite floats are compared by their values.** -/
theorem compare_exactValue? {F : Format} {u v : UnpackedFloat} {a b : ℚ} (hu : IsCanonical F u)
    (hv : IsCanonical F v) (ha : exactValue? u = some a) (hb : exactValue? v = some b) :
    u.compare v = some (compare a b) := by
  have hpos (m : ℕ) (e : ℤ) (h : 0 < m) : (0 : ℚ) < m * 2 ^ e :=
    mul_pos (by exact_mod_cast h) (two_zpow_pos e)
  cases u with
  | notANumber => cases ha
  | infinity s => cases ha
  | zero s =>
      cases ha
      cases v with
      | notANumber => cases hb
      | infinity t => cases hb
      | zero t =>
          cases hb
          rfl
      | finite t n f hn =>
          cases hb
          have := hpos n f hn
          cases t with
          | positive => exact congrArg some (compare_lt_iff_lt.mpr this).symm
          | negative => exact congrArg some (compare_gt_iff_gt.mpr (neg_lt_zero.mpr this)).symm
  | finite s m e hm =>
      cases ha
      have hmpos := hpos m e hm
      cases v with
      | notANumber => cases hb
      | infinity t => cases hb
      | zero t =>
          cases hb
          cases s with
          | positive => exact congrArg some (compare_gt_iff_gt.mpr hmpos).symm
          | negative => exact congrArg some (compare_lt_iff_lt.mpr (neg_lt_zero.mpr hmpos)).symm
      | finite t n f hn =>
          cases hb
          have hnpos := hpos n f hn
          have hacross : -((m : ℚ) * 2 ^ e) < n * 2 ^ f := by linarith
          have hacross' : -((n : ℚ) * 2 ^ f) < m * 2 ^ e := by linarith
          cases s <;> cases t
          · exact congrArg some (swap_then_compare_eq
              (neg_lt_neg_iff.trans (hv.lt_iff hu)) (neg_lt_neg_iff.trans (hu.lt_iff hv)))
          · exact congrArg some (compare_lt_iff_lt.mpr hacross).symm
          · exact congrArg some (compare_gt_iff_gt.mpr hacross').symm
          · exact congrArg some (then_compare_eq (hu.lt_iff hv) (hv.lt_iff hu))

theorem float_lt_iff_unpack {x y : Float} :
    x < y ↔ x.toModel.unpack.lt y.toModel.unpack = true := by
  show decide (x.toModel.unpack.lt y.toModel.unpack = true) = true ↔ _
  rw [decide_eq_true_iff]

theorem float_lt_iff {x y : Float} {a b : ℚ} (hx : exactValue? x.toModel.unpack = some a)
    (hy : exactValue? y.toModel.unpack = some b) : x < y ↔ a < b := by
  rw [float_lt_iff_unpack, UnpackedFloat.lt,
    compare_exactValue? (isCanonical_float x) (isCanonical_float y) hx hy, beq_iff_eq,
    Option.some_inj, compare_lt_iff_lt]

theorem float_le_iff {x y : Float} {a b : ℚ} (hx : exactValue? x.toModel.unpack = some a)
    (hy : exactValue? y.toModel.unpack = some b) : x ≤ y ↔ a ≤ b := by
  show decide (x.toModel.unpack.le y.toModel.unpack = true) = true ↔ a ≤ b
  rw [decide_eq_true_iff, UnpackedFloat.le,
    compare_exactValue? (isCanonical_float x) (isCanonical_float y) hx hy, Option.any_some,
    Ordering.isLE_iff_ne_gt, ← compare_le_iff_le]

/-! ## The order of bits -/

theorem eq_of_toBits_eq {x y : Float} (h : x.toBits = y.toBits) : x = y := by
  obtain ⟨⟨bits, hvalid⟩⟩ := x
  obtain ⟨⟨other, hother⟩⟩ := y
  cases h
  rfl

/-- A place among the bits of floats, on the side of a sign. -/
def signedPlace : Sign → ℤ → ℤ
  | .positive, place => place
  | .negative, place => -place - 1

/-- The place of a value in canonical form among the positive ones. -/
def magnitudePlace (m : ℕ) (e : ℤ) : ℤ := (e + 1074) * 2 ^ 52 + m

/-- The place of a float among the bits of floats. -/
def bitPlace : UnpackedFloat → ℤ
  | .notANumber => 0x7FF8000000000000
  | .infinity s => signedPlace s 0x7FF0000000000000
  | .zero s => signedPlace s 0
  | .finite s m e _ => signedPlace s (magnitudePlace m e)

theorem magnitudePlace_lt_iff {m n : ℕ} {e f : ℤ} (hm : Canonical .binary64 m e)
    (hn : Canonical .binary64 n f) :
    magnitudePlace m e < magnitudePlace n f ↔ e < f ∨ e = f ∧ m < n := by
  have hmlt : m < 2 ^ 53 := hm.lt
  have hnlt : n < 2 ^ 53 := hn.lt
  have hmnormal : e = -1074 ∨ 2 ^ 52 ≤ m := hm.normal
  have hnnormal : f = -1074 ∨ 2 ^ 52 ≤ n := hn.normal
  have hmleast : -1074 ≤ e := hm.least
  have hnleast : -1074 ≤ f := hn.least
  unfold magnitudePlace
  omega

/-- The places of values lie behind that of zero and before that of infinity. -/
theorem magnitudePlace_bounds {m : ℕ} {e : ℤ} (hm : Canonical .binary64 m e)
    (hfits : FitsExponent .binary64 e) :
    0 < magnitudePlace m e ∧ magnitudePlace m e < 0x7FF0000000000000 := by
  have hpos := hm.pos
  have hlt : m < 2 ^ 53 := hm.lt
  have hleast : -1074 ≤ e := hm.least
  have hfits : e + 1023 + 52 + 1 < 2 ^ 11 := hfits
  unfold magnitudePlace
  omega

/-- The parts of packed bits, read as one number. -/
theorem toNat_packComponents (F : Format) (s : Sign) (e : BitVec F.exponentBits)
    (m : BitVec F.mantissaBitsWithoutImplicit) :
    (packComponents F s e m).toNat =
      (s.toBitVec.toNat * 2 ^ F.exponentBits + e.toNat) * 2 ^ F.mantissaBitsWithoutImplicit
        + m.toNat := by
  unfold packComponents
  rw [BitVec.toNat_append, ← Nat.shiftLeft_add_eq_or_of_lt m.isLt, BitVec.toNat_append,
    ← Nat.shiftLeft_add_eq_or_of_lt e.isLt, Nat.shiftLeft_eq, Nat.shiftLeft_eq]

/-- A float that is zero, special, or a value of the format. -/
def InFormat (F : Format) : UnpackedFloat → Prop
  | .finite _ m e _ => Canonical F m e ∧ FitsExponent F e
  | _ => True

theorem inFormat_float (x : Float) : InFormat .binary64 x.toModel.unpack := by
  cases h : x.toModel.unpack with
  | finite s m e hm => exact canonical_of_unpack (F := .binary64) (by decide) h
  | _ => trivial

/-- All numbers stand before NaN. -/
theorem bitPlace_lt_notANumber {u : UnpackedFloat} (hu : InFormat .binary64 u)
    (hnan : u.isNaN = false) : bitPlace u < bitPlace .notANumber := by
  cases u with
  | notANumber => cases hnan
  | infinity s => cases s <;> decide
  | zero s => cases s <;> decide
  | finite s m e hm =>
      have := magnitudePlace_bounds hu.1 hu.2
      cases s <;> simp only [bitPlace, signedPlace] <;> omega

/-- No float stands before minus infinity. -/
theorem le_bitPlace {u : UnpackedFloat} (hu : InFormat .binary64 u) :
    -0x7FF0000000000000 - 1 ≤ bitPlace u := by
  cases u with
  | notANumber => decide
  | infinity s => cases s <;> decide
  | zero s => cases s <;> decide
  | finite s m e hm =>
      have := magnitudePlace_bounds hu.1 hu.2
      cases s <;> simp only [bitPlace, signedPlace] <;> omega

/-- Numbers are in the order of their places, but for the two zeros, of which none is
less than the other. -/
theorem bitPlace_lt_iff_of_numbers {u v : UnpackedFloat} (hu : InFormat .binary64 u)
    (hv : InFormat .binary64 v) (hnan : u.isNaN = false) (hnan' : v.isNaN = false) :
    bitPlace u < bitPlace v ↔ u.lt v = true ∨ u = .zero .negative ∧ v = .zero .positive := by
  cases u with
  | notANumber => cases hnan
  | infinity s =>
      cases v with
      | notANumber => cases hnan'
      | infinity t => cases s <;> cases t <;> simp [bitPlace, signedPlace] <;> decide
      | zero t => cases s <;> cases t <;> simp [bitPlace, signedPlace] <;> decide
      | finite t n f hn =>
          have := magnitudePlace_bounds hv.1 hv.2
          cases s <;> cases t <;>
            simp [bitPlace, signedPlace, UnpackedFloat.lt, UnpackedFloat.compare] <;> omega
  | zero s =>
      cases v with
      | notANumber => cases hnan'
      | infinity t => cases s <;> cases t <;> simp [bitPlace, signedPlace] <;> decide
      | zero t => cases s <;> cases t <;> simp [bitPlace, signedPlace] <;> decide
      | finite t n f hn =>
          have := magnitudePlace_bounds hv.1 hv.2
          cases s <;> cases t <;>
            simp [bitPlace, signedPlace, UnpackedFloat.lt, UnpackedFloat.compare] <;> omega
  | finite s m e hm =>
      have hbounds := magnitudePlace_bounds hu.1 hu.2
      cases v with
      | notANumber => cases hnan'
      | infinity t =>
          cases s <;> cases t <;>
            simp [bitPlace, signedPlace, UnpackedFloat.lt, UnpackedFloat.compare] <;> omega
      | zero t =>
          cases s <;> cases t <;>
            simp [bitPlace, signedPlace, UnpackedFloat.lt, UnpackedFloat.compare] <;> omega
      | finite t n f hn =>
          have hbounds' := magnitudePlace_bounds hv.1 hv.2
          have hlt := magnitudePlace_lt_iff hu.1 hv.1
          have hgt := magnitudePlace_lt_iff hv.1 hu.1
          cases s <;> cases t
          · have hcompare : ((compare e f).then (compare m n)).swap =
                compare (-magnitudePlace m e - 1) (-magnitudePlace n f - 1) :=
              swap_then_compare_eq (by omega) (by omega)
            simp [bitPlace, signedPlace, UnpackedFloat.lt, UnpackedFloat.compare, hcompare,
              compare_lt_iff_lt]
          · simp [bitPlace, signedPlace, UnpackedFloat.lt, UnpackedFloat.compare]
            omega
          · simp [bitPlace, signedPlace, UnpackedFloat.lt, UnpackedFloat.compare]
            omega
          · simp [bitPlace, signedPlace, UnpackedFloat.lt, UnpackedFloat.compare,
              then_compare_eq hlt hgt, compare_lt_iff_lt]

theorem eq_notANumber {u : UnpackedFloat} (h : u.isNaN = true) : u = .notANumber := by
  cases u with
  | notANumber => rfl
  | _ => cases h

/-- **The row of all floats**: numbers as they compare, minus zero before zero, and
NaN at the end. -/
theorem bitPlace_lt_iff {u v : UnpackedFloat} (hu : InFormat .binary64 u)
    (hv : InFormat .binary64 v) :
    bitPlace u < bitPlace v ↔ u.isNaN = false ∧
      (v.isNaN = true ∨ u.lt v = true ∨ u = .zero .negative ∧ v = .zero .positive) := by
  cases hnan : u.isNaN with
  | true =>
      obtain rfl := eq_notANumber hnan
      refine iff_of_false (not_lt.mpr ?_) (fun h => Bool.noConfusion h.1)
      cases hnan' : v.isNaN with
      | true => exact (congrArg bitPlace (eq_notANumber hnan')).le
      | false => exact (bitPlace_lt_notANumber hv hnan').le
  | false =>
      cases hnan' : v.isNaN with
      | true =>
          obtain rfl := eq_notANumber hnan'
          exact iff_of_true (bitPlace_lt_notANumber hu hnan) ⟨rfl, .inl rfl⟩
      | false =>
          rw [bitPlace_lt_iff_of_numbers hu hv hnan hnan']
          simp

end Chronograph
