import Chronograph.Proofs.Binary.Rounded

/-!
# Sums of floats

A sum is the exact sum of the values, rounded (`isRounded_add`).  Rounding gives
one result only, and the nearest value that the format has (`RoundsTo.unique`,
`RoundsTo.nearest`); and a value stands in one float only (`HasValue.unique`),
so that results are equal bit for bit when their values are.

Whole numbers up to `2 ^ 53` are values, so that as long as a sum of them does
not pass that bound nothing is lost by adding (`nearestFloat_add`).  Each sum is
then the float of the exact sum, in whatever order the numbers come.
-/

namespace Chronograph

open Float.Model (Format UnpackedFloat)
open Float.Model.UnpackedFloat

/-! ## Rounding gives one result, the nearest -/

/-- A rational has one unit. -/
theorem UnitExponent.unique {F : Format} {x : ℚ} {e f : ℤ} (he : UnitExponent F x e)
    (hf : UnitExponent F x f) : e = f := by
  have hbound {e f : ℤ} (he : UnitExponent F x e) (hf : UnitExponent F x f) : f ≤ e := by
    have hleast := he.least
    cases hf.normal with
    | inl hmin => omega
    | inr hbinade =>
        have := two_zpow_lt.mp (lt_of_le_of_lt hbinade he.lt)
        omega
  exact le_antisymm (hbound hf he) (hbound he hf)

theorem RoundsTo.unique {F : Format} {x v w : ℚ} (hv : RoundsTo F x v) (hw : RoundsTo F x w) :
    v = w := by
  obtain ⟨e, m, hunit, hm, rfl⟩ := hv
  obtain ⟨f, n, hunit', hn, rfl⟩ := hw
  have he : e = f := hunit.unique hunit'
  subst he
  rw [hm.unique hn]

/-- No whole number is nearer than the nearest. -/
theorem NearestEven.nearest {y : ℚ} {m : ℕ} (h : NearestEven y m) (n : ℕ) :
    |y - m| ≤ |y - n| := by
  have hhalf : |y - m| ≤ 1 / 2 := by
    cases h with
    | inl hlt => exact hlt.le
    | inr htie => exact htie.1.le
  by_cases hmn : m = n
  · rw [hmn]
  · have hfar : (1 : ℚ) ≤ |(m : ℚ) - n| := by
      have : (1 : ℤ) ≤ |(m : ℤ) - n| := Int.one_le_abs (by omega)
      exact_mod_cast this
    have hsplit : |(m : ℚ) - n| ≤ |y - m| + |y - n| := by
      rw [abs_sub_comm y m]
      exact abs_sub_le _ _ _
    linarith

/-- **Rounding gives the nearest value of a format.** -/
theorem RoundsTo.nearest {F : Format} {x v b : ℚ} (h : RoundsTo F x v) (hb : Representable F b) :
    |x - v| ≤ |x - b| := by
  obtain ⟨e, m, hunit, hm, rfl⟩ := h
  obtain ⟨n, f, hn, hf, rfl⟩ := hb
  have he := two_zpow_pos e
  have hscale (k : ℕ) : |x - k * 2 ^ e| = |x / 2 ^ e - k| * 2 ^ e := by
    rw [← abs_of_pos he, ← abs_mul, abs_of_pos he, sub_mul, div_mul_cancel₀ _ he.ne']
  have hmultiple (k : ℕ) : |x - m * 2 ^ e| ≤ |x - k * 2 ^ e| := by
    rw [hscale, hscale]
    exact mul_le_mul_of_nonneg_right (hm.nearest k) he.le
  by_cases hfe : e ≤ f
  · rw [natCast_mul_zpow hfe]
    exact hmultiple _
  · -- a value in a finer unit lies behind the least value of the binade
    have hbinade := hunit.binade_le (by omega)
    have hbehind := Representable.le_binade hn (by omega : f < e)
    calc |x - m * 2 ^ e| ≤ |x - ((2 ^ (F.mantissaBits - 1) : ℕ) : ℚ) * 2 ^ e| := hmultiple _
      _ = x - ((2 ^ (F.mantissaBits - 1) : ℕ) : ℚ) * 2 ^ e := abs_of_nonneg (by linarith)
      _ ≤ x - n * 2 ^ f := by linarith
      _ = |x - n * 2 ^ f| := (abs_of_nonneg (by linarith)).symm

/-- Rounding adds at most one part in `2 ^ 53`. -/
theorem RoundsTo.le_mul {x v : ℚ} (h : RoundsTo .binary64 x v) (hx : 1 ≤ x) :
    v ≤ x * (1 + 1 / 2 ^ 53) := by
  obtain ⟨e, m, hunit, hm, rfl⟩ := h
  have he := two_zpow_pos e
  have hleast : -1074 < e := by
    have hmin := hunit.least
    rw [minExponent_binary64] at hmin
    refine lt_of_le_of_ne hmin ?_
    intro heq
    have hlt := lt_of_le_of_lt hx hunit.lt
    rw [← zpow_zero (2 : ℚ), two_zpow_lt] at hlt
    have : (Format.binary64.mantissaBits : ℤ) = 53 := rfl
    omega
  have hbinade := hunit.double_le hleast
  rw [two_zpow_add] at hbinade
  have hhalf : (m : ℚ) ≤ x / 2 ^ e + 1 / 2 := by
    have hdist : |x / 2 ^ e - m| ≤ 1 / 2 := by
      cases hm with
      | inl hlt => exact hlt.le
      | inr htie => exact htie.1.le
    have := (abs_le.mp hdist).1
    linarith
  calc (m : ℚ) * 2 ^ e ≤ (x / 2 ^ e + 1 / 2) * 2 ^ e := mul_le_mul_of_nonneg_right hhalf he.le
    _ = x + 2 ^ (52 : ℤ) * 2 ^ e / 2 ^ 53 := by
        rw [add_mul, div_mul_cancel₀ _ he.ne']
        norm_num
        ring
    _ ≤ x + x / 2 ^ 53 := by
        have := div_le_div_of_nonneg_right hbinade (by norm_num : (0 : ℚ) ≤ 2 ^ 53)
        linarith
    _ = x * (1 + 1 / 2 ^ 53) := by ring

/-- A rational of a value's interval is rounded to the value. -/
theorem InInterval.roundsTo {F : Format} {m : ℕ} {e : ℤ} {x : ℚ} (hc : Canonical F m e)
    (h : InInterval F m e x) : RoundsTo F x (m * 2 ^ e) := by
  obtain ⟨f, n, hunit, hn, hcarried⟩ := h.rounds hc
  have hpositive := hcarried .positive
  have hne : n ≠ 0 := by
    intro hzero
    rw [hzero, carried_zero] at hpositive
    cases hpositive
  obtain ⟨m', e', hm', -, hvalue, hcarried'⟩ := carried_canonical hunit hn hne
  rw [hcarried' .positive] at hpositive
  cases hpositive
  exact ⟨f, n, hunit, hn, hvalue⟩

/-! ## Floats of one value -/

theorem Canonical.unitExponent {F : Format} {m : ℕ} {e : ℤ} (h : Canonical F m e) :
    UnitExponent F (m * 2 ^ e) e := by
  have he := two_zpow_pos e
  have hp := mantissaBits_pos F
  refine ⟨h.least, ?_, h.normal.imp id ?_⟩
  · rw [add_comm, two_zpow_add, zpow_natCast]
    exact mul_lt_mul_of_pos_right (by exact_mod_cast h.lt) he
  · intro hlong
    have hpow : (2 : ℚ) ^ (e + F.mantissaBits - 1) = 2 ^ (F.mantissaBits - 1) * 2 ^ e := by
      rw [← zpow_natCast, ← two_zpow_add]
      congr 1
      omega
    rw [hpow]
    exact mul_le_mul_of_nonneg_right (by exact_mod_cast hlong) he.le

/-- A value has one canonical form. -/
theorem Canonical.unique {F : Format} {m n : ℕ} {e f : ℤ} (hm : Canonical F m e)
    (hn : Canonical F n f) (h : (m : ℚ) * 2 ^ e = n * 2 ^ f) : m = n ∧ e = f := by
  have hunit := hn.unitExponent
  rw [← h] at hunit
  have hef : e = f := hm.unitExponent.unique hunit
  subst hef
  have := mul_right_cancel₀ (two_zpow_pos e).ne' h
  exact ⟨by exact_mod_cast this, rfl⟩

theorem float_eq_of_unpack_eq {x y : Float} (h : x.toModel.unpack = y.toModel.unpack) : x = y := by
  have hmodel : x.toModel = y.toModel := by rw [← float_pack_unpack x.toModel, h, float_pack_unpack]
  obtain ⟨model⟩ := x
  obtain ⟨other⟩ := y
  exact congrArg Float.ofModel hmodel

/-- **A value stands in one float only.** -/
theorem HasValue.unique {x y : Float} {v : ℚ} (hx : HasValue x v) (hy : HasValue y v) : x = y := by
  refine float_eq_of_unpack_eq ?_
  cases hx.nonneg.eq_or_lt with
  | inl hzero =>
      subst hzero
      rw [hx.zero, hy.zero]
  | inr hpos =>
      obtain ⟨m, e, hm, hunpack, rfl, hc⟩ := hx.finite hpos
      obtain ⟨n, f, hn, hunpack', hvalue, hc'⟩ := hy.finite hpos
      obtain ⟨rfl, rfl⟩ := hc.unique hc' hvalue
      rw [hunpack, hunpack']

theorem HasValue.representable {x : Float} {v : ℚ} (h : HasValue x v) :
    Representable .binary64 v := by
  cases h.nonneg.eq_or_lt with
  | inl hzero =>
      subst hzero
      exact ⟨0, 0, Nat.zero_le _, by decide, by simp⟩
  | inr hpos =>
      obtain ⟨m, e, -, -, rfl, hc⟩ := h.finite hpos
      exact ⟨m, e, hc.lt.le, hc.least, rfl⟩

theorem HasValue.isRounded {x : Float} {v : ℚ} (h : HasValue x v) : IsRounded x v := by
  obtain ⟨e, he⟩ := exists_unitExponent .binary64 v
  obtain ⟨m, hm⟩ := exists_nearestEven (div_nonneg h.nonneg (two_zpow_pos e).le)
  have hself : RoundsTo .binary64 v (m * 2 ^ e) := ⟨e, m, he, hm, rfl⟩
  rw [hself.eq_of_representable h.representable] at hself
  exact ⟨v, hself, .inl h⟩

theorem HasValue.isNaN {x : Float} {v : ℚ} (h : HasValue x v) : x.isNaN = false := by
  show x.toModel.unpack.isNaN = false
  cases h with
  | inl hzero => rw [hzero.1]; rfl
  | inr hfinite =>
      obtain ⟨m, e, hm, hx, -⟩ := hfinite
      rw [hx]
      rfl

theorem HasValue.isInf {x : Float} {v : ℚ} (h : HasValue x v) : x.isInf = false := by
  show x.toModel.unpack.isInf = false
  cases h with
  | inl hzero => rw [hzero.1]; rfl
  | inr hfinite =>
      obtain ⟨m, e, hm, hx, -⟩ := hfinite
      rw [hx]
      rfl

/-! ## Adding -/

/-- A sum is the float whose unpacked form adding gives. -/
theorem add_eq_of_unpack {x y z : Float}
    (h : UnpackedFloat.add .binary64 x.toModel.unpack y.toModel.unpack = z.toModel.unpack) :
    x + y = z := by
  show Float.ofModel (.pack (UnpackedFloat.add .binary64 x.toModel.unpack y.toModel.unpack)) = z
  rw [h, float_pack_unpack]

/-- The mantissa of a sum: both mantissas with the smaller exponent, added. -/
def sumMantissa (m : ℕ) (e : ℤ) (n : ℕ) (f : ℤ) : ℕ :=
  m <<< (e - min e f).toNat + n <<< (f - min e f).toNat

theorem sumMantissa_value (m : ℕ) (e : ℤ) (n : ℕ) (f : ℤ) :
    (sumMantissa m e n f : ℚ) * 2 ^ (min e f) = m * 2 ^ e + n * 2 ^ f := by
  rw [natCast_mul_zpow (min_le_left e f), natCast_mul_zpow (min_le_right e f), sumMantissa,
    Nat.shiftLeft_eq, Nat.shiftLeft_eq]
  push_cast
  ring

theorem sumMantissa_pos {m : ℕ} {e : ℤ} (hm : 0 < m) (n : ℕ) (f : ℤ) :
    0 < sumMantissa m e n f := by
  rw [sumMantissa, Nat.shiftLeft_eq]
  exact Nat.add_pos_left (Nat.mul_pos hm (Nat.two_pow_pos _)) _

/-- The mantissas of two positive numbers are added, and the sum is rounded. -/
theorem add_positive {F : Format} {m n : ℕ} {e f : ℤ} (hm : 0 < m) (hn : 0 < n) :
    UnpackedFloat.add F (.finite .positive m e hm) (.finite .positive n f hn) =
      UnpackedFloat.round F .positive (sumMantissa m e n f) (min e f) := by
  have hpos := sumMantissa_pos (e := e) hm n f
  have hcompare : compare (sumMantissa m e n f : ℤ) 0 = .gt := compare_gt_iff_gt.mpr (by omega)
  have hsum : ((m <<< (e - min e f).toNat : ℕ) : ℤ) + (n <<< (f - min e f).toNat : ℕ) =
      sumMantissa m e n f := by
    unfold sumMantissa
    push_cast
    rfl
  show UnpackedFloat.normalize F
    (((m <<< (e - min e f).toNat : ℕ) : ℤ) + (n <<< (f - min e f).toNat : ℕ))
    (min e f) .positive = _
  rw [hsum]
  unfold UnpackedFloat.normalize
  rw [hcompare]
  rfl

/-- **A sum is the sum of the values, rounded.** -/
theorem isRounded_add {x y : Float} {a b : ℚ} (hx : HasValue x a) (hy : HasValue y b) :
    IsRounded (x + y) (a + b) := by
  cases hx.nonneg.eq_or_lt with
  | inl hzero =>
      subst hzero
      have hsum : x + y = y := by
        refine add_eq_of_unpack ?_
        rw [hx.zero]
        cases hy with
        | inl hy => rw [hy.1]; rfl
        | inr hy =>
            obtain ⟨n, f, hn, hunpack, -⟩ := hy
            rw [hunpack]
            rfl
      rw [hsum, zero_add]
      exact hy.isRounded
  | inr hpos =>
      obtain ⟨m, e, hm, hunpack, rfl, -⟩ := hx.finite hpos
      cases hy.nonneg.eq_or_lt with
      | inl hzero =>
          subst hzero
          have hsum : x + y = x := by
            refine add_eq_of_unpack ?_
            rw [hunpack, hy.zero]
            rfl
          rw [hsum, add_zero]
          exact hx.isRounded
      | inr hpos' =>
          obtain ⟨n, f, hn, hunpack', rfl, -⟩ := hy.finite hpos'
          have hM := sumMantissa_pos (e := e) hm n f
          rw [← sumMantissa_value]
          obtain ⟨E, hE⟩ :=
            exists_unitExponent .binary64 ((sumMantissa m e n f : ℚ) * 2 ^ (min e f))
          obtain ⟨k, hk⟩ := exists_nearestEven
            (div_nonneg (mul_nonneg (Nat.cast_nonneg _) (two_zpow_pos _).le) (two_zpow_pos E).le)
          have hadd : UnpackedFloat.add .binary64 x.toModel.unpack y.toModel.unpack =
              carried .binary64 .positive k E := by
            rw [hunpack, hunpack', add_positive, round_eq hM hE hk]
          have hpack := isRounded_pack hE hk
          rw [← hadd] at hpack
          exact hpack

/-! ## Whole numbers -/

/-- What a whole number of 53 bits is rounded to is that number. -/
theorem IsRounded.hasValue_natCast {x : Float} {n : ℕ} (hx : IsRounded x n) (h : n ≤ 2 ^ 53) :
    HasValue x n := by
  have hbound : ((2 ^ 53 : ℕ) : ℚ) < 2 ^ (1024 : ℤ) := by
    rw [Nat.cast_pow, ← zpow_natCast]
    exact zpow_lt_zpow_right₀ (by norm_num) (by norm_num)
  obtain ⟨v, hv, hvalue⟩ := hx.hasValue (representable_of_le le_rfl) hbound (by exact_mod_cast h)
  rwa [hv.eq_of_representable (representable_of_le h)] at hvalue

theorem hasValue_nearestFloat {n : ℕ} (h : n ≤ 2 ^ 53) : HasValue (nearestFloat n) n :=
  (isRounded_nearestFloat n).hasValue_natCast h

/-- **Whole numbers are added exactly** up to `2 ^ 53`. -/
theorem nearestFloat_add {x : Float} {m n : ℕ} (hx : HasValue x n) (h : m + n ≤ 2 ^ 53) :
    nearestFloat m + x = nearestFloat (m + n) := by
  have hsum : IsRounded (nearestFloat m + x) ((m + n : ℕ) : ℚ) := by
    rw [Nat.cast_add]
    exact isRounded_add (hasValue_nearestFloat (by omega)) hx
  exact (hsum.hasValue_natCast h).unique (hasValue_nearestFloat h)

/-- Minus zero adds nothing to a whole number. -/
theorem nearestFloat_add_negative_zero {x : Float} {m : ℕ} (hx : x.toModel.unpack = .zero .negative)
    (h : m ≤ 2 ^ 53) : nearestFloat m + x = nearestFloat m := by
  refine add_eq_of_unpack ?_
  rw [hx]
  cases hasValue_nearestFloat h with
  | inl hzero => rw [hzero.1]; rfl
  | inr hfinite =>
      obtain ⟨n, e, hn, hunpack, -⟩ := hfinite
      rw [hunpack]
      rfl

end Chronograph
