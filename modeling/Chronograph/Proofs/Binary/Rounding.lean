import Mathlib
import Chronograph.Binary.Exact

/-!
# Correct rounding

Every operation on floats computes a mantissa, an exponent and where the exact
result lies above that mantissa, and leaves the rest to `roundWithAccuracy`.
What that gives is stated here over the rationals, once for all formats.

* `UnitExponent F x e` — a nonnegative rational `x` is rounded to a multiple of
  `2 ^ e` in the format `F`: the exponent is the least of the format, or the
  quotient has all the bits of a mantissa.
* `NearestEven y n` — `n` is the whole number nearest to `y`, the even one of
  two.
* `roundWithAccuracy_eq` — **the result is the nearest multiple of the unit.**
  All that is asked of the caller is that the exponent is not larger than the
  unit's and that the accuracy describes the exact result.

The operations follow: `div_eq`, `mul_eq`, `round_eq`, and for the numbers of a
program text `ofScientific_eq`.
-/

namespace Chronograph

open Float.Model (Format UnpackedFloat totalExponent)
open Float.Model.UnpackedFloat

/-! ## Nearest whole numbers -/

/-- A whole number is the nearest one, and of two the even one. -/
def NearestEven (y : ℚ) (n : ℕ) : Prop :=
  |y - n| < 1 / 2 ∨ |y - n| = 1 / 2 ∧ n % 2 = 0

theorem nearestEven_natCast (n : ℕ) : NearestEven n n := by
  left
  simp

/-- No other whole number is nearest to the same rational. -/
theorem NearestEven.unique {y : ℚ} {m n : ℕ} (hm : NearestEven y m) (hn : NearestEven y n) :
    m = n := by
  have hdist : |(m : ℚ) - n| ≤ |y - m| + |y - n| := by
    rw [abs_sub_comm y m]
    exact abs_sub_le _ _ _
  have hcast : |(m : ℚ) - n| = (((m : ℤ) - n).natAbs : ℚ) := by
    rw [Nat.cast_natAbs]
    push_cast
    rfl
  rw [hcast] at hdist
  have hle : |y - m| ≤ 1 / 2 ∧ |y - n| ≤ 1 / 2 := by
    constructor
    · rcases hm with h | h <;> linarith [h]
    · rcases hn with h | h <;> linarith [h]
  have hone : ((m : ℤ) - n).natAbs ≤ 1 := by
    have : (((m : ℤ) - n).natAbs : ℚ) ≤ 1 := by linarith
    exact_mod_cast this
  by_contra hne
  have heq : ((m : ℤ) - n).natAbs = 1 := by omega
  rw [heq] at hdist
  -- at distance one both are ties, and both cannot be even
  rcases hm with hm | ⟨-, hm⟩
  · norm_num at hdist; linarith [hle.2]
  · rcases hn with hn | ⟨-, hn⟩
    · norm_num at hdist; linarith [hle.1]
    · omega

/-- A rational between two bounds has its nearest whole number between them. -/
theorem NearestEven.le_of_le {y : ℚ} {n b : ℕ} (h : NearestEven y n) (hy : y ≤ b) : n ≤ b := by
  by_contra hlt
  have hb : (b : ℚ) + 1 ≤ n := by exact_mod_cast Nat.lt_of_not_le hlt
  have hfar : |y - n| ≤ 1 / 2 := by rcases h with h | h <;> linarith [h]
  have := (abs_le.mp hfar).1
  linarith

theorem NearestEven.ge_of_ge {y : ℚ} {n b : ℕ} (h : NearestEven y n) (hy : (b : ℚ) ≤ y) :
    b ≤ n := by
  by_contra hlt
  have hb : (n : ℚ) + 1 ≤ b := by exact_mod_cast Nat.lt_of_not_le hlt
  have hfar : |y - n| ≤ 1 / 2 := by rcases h with h | h <;> linarith [h]
  have := (abs_le.mp hfar).2
  linarith

/-! ## Mantissas with residual bits -/

/-- An extended mantissa describes a rational: its mantissa is the integral
part, and the bits tell where the rest lies in the unit. -/
def Represents (em : ExtendedMantissa) (y : ℚ) : Prop :=
  match em.roundBit, em.stickyBit with
  | false, false => y = em.mantissa
  | false, true => (em.mantissa : ℚ) < y ∧ y < em.mantissa + 1 / 2
  | true, false => y = em.mantissa + 1 / 2
  | true, true => (em.mantissa : ℚ) + 1 / 2 < y ∧ y < em.mantissa + 1

theorem Represents.bounds {em : ExtendedMantissa} {y : ℚ} (h : Represents em y) :
    (em.mantissa : ℚ) ≤ y ∧ y < em.mantissa + 1 := by
  obtain ⟨m, r, s⟩ := em
  cases r <;> cases s <;> simp only [Represents] at h <;> constructor <;> linarith

/-- A shift by one place halves what is represented. -/
theorem Represents.shiftRightOne {em : ExtendedMantissa} {y : ℚ} (h : Represents em y) :
    Represents em.shiftRightOne (y / 2) := by
  obtain ⟨m, r, s⟩ := em
  obtain ⟨k, hk⟩ : ∃ k, m = 2 * k ∨ m = 2 * k + 1 := ⟨m / 2, by omega⟩
  rcases hk with rfl | rfl
  · have hhalf : 2 * k / 2 = k := by omega
    have hbit : (2 * k % 2 != 0) = false := by simp
    cases r <;> cases s <;>
      simp only [Represents, ExtendedMantissa.shiftRightOne, hhalf, hbit, Bool.or_false,
        Bool.or_true] at h ⊢ <;>
      push_cast at h ⊢ <;> (try constructor) <;> linarith
  · have hhalf : (2 * k + 1) / 2 = k := by omega
    have hbit : ((2 * k + 1) % 2 != 0) = true := by simp
    cases r <;> cases s <;>
      simp only [Represents, ExtendedMantissa.shiftRightOne, hhalf, hbit, Bool.or_false,
        Bool.or_true] at h ⊢ <;>
      push_cast at h ⊢ <;> (try constructor) <;> linarith

theorem Represents.shiftRight {em : ExtendedMantissa} {y : ℚ} (h : Represents em y) (k : ℕ) :
    Represents (em >>> k) (y / 2 ^ k) := by
  induction k with
  | zero =>
      rw [pow_zero, div_one]
      exact h
  | succ k ih =>
      have := ih.shiftRightOne
      rw [div_div, ← pow_succ] at this
      exact this

/-- The residual bits are enough to round. -/
theorem Represents.roundedMantissa {em : ExtendedMantissa} {y : ℚ} (h : Represents em y) :
    NearestEven y em.roundedMantissa := by
  obtain ⟨m, r, s⟩ := em
  cases r <;> cases s <;> simp only [Represents] at h <;>
    simp only [NearestEven, ExtendedMantissa.roundedMantissa, ExtendedMantissa.accuracy,
      Accuracy.roundToNearestEven]
  · left
    rw [h]
    simp
  · left
    rw [abs_lt]
    constructor <;> linarith
  · right
    rcases Nat.mod_two_eq_zero_or_one m with hpar | hpar
    · rw [h, hpar]
      refine ⟨?_, hpar⟩
      norm_num
    · rw [h, hpar]
      refine ⟨?_, by omega⟩
      push_cast
      norm_num
  · left
    rw [abs_lt]
    push_cast
    constructor <;> linarith

/-! ## Units -/

/-- A nonnegative rational is rounded to a multiple of `2 ^ e` in a format. -/
structure UnitExponent (F : Format) (x : ℚ) (e : ℤ) : Prop where
  least : F.minExponent ≤ e
  lt : x < 2 ^ (e + F.mantissaBits)
  normal : e = F.minExponent ∨ (2 : ℚ) ^ (e + F.mantissaBits - 1) ≤ x

/-- A mantissa of a format, as small as the unit allows. -/
structure Canonical (F : Format) (m : ℕ) (e : ℤ) : Prop where
  pos : 0 < m
  lt : m < 2 ^ F.mantissaBits
  least : F.minExponent ≤ e
  normal : e = F.minExponent ∨ 2 ^ (F.mantissaBits - 1) ≤ m

@[simp] theorem mantissaBits_pos (F : Format) : 0 < F.mantissaBits := by
  unfold Format.mantissaBits
  omega

/-- The float `m * 2 ^ e`, where `m` may be one bit too long by a carry. -/
def carried (F : Format) (s : Sign) (m : ℕ) (e : ℤ) : UnpackedFloat :=
  if h : m = 0 then .zero s
  else if m = 2 ^ F.mantissaBits then
    .finite s (2 ^ (F.mantissaBits - 1)) (e + 1) (Nat.two_pow_pos _)
  else .finite s m e (Nat.pos_of_ne_zero h)

theorem two_zpow_pos (e : ℤ) : (0 : ℚ) < 2 ^ e := zpow_pos (by norm_num) e

theorem two_zpow_lt {a b : ℤ} : (2 : ℚ) ^ a < 2 ^ b ↔ a < b :=
  zpow_lt_zpow_iff_right₀ (by norm_num)

theorem two_zpow_add (a b : ℤ) : (2 : ℚ) ^ (a + b) = 2 ^ a * 2 ^ b :=
  zpow_add₀ (by norm_num) a b

/-- A natural number lies between two powers of two. -/
theorem log2_bounds {m : ℕ} (h : m ≠ 0) :
    (2 : ℚ) ^ (m.log2 : ℤ) ≤ m ∧ (m : ℚ) + 1 ≤ 2 ^ ((m.log2 : ℤ) + 1) := by
  have hlow := Nat.log2_self_le h
  have hhigh := Nat.lt_log2_self (n := m)
  constructor
  · rw [zpow_natCast]
    exact_mod_cast hlow
  · have : (2 : ℚ) ^ ((m.log2 : ℤ) + 1) = ((2 ^ (m.log2 + 1) : ℕ) : ℚ) := by
      push_cast
      exact_mod_cast rfl
    rw [this]
    exact_mod_cast hhigh

/-- The target exponent of a truncated mantissa is the unit's exponent. -/
theorem UnitExponent.targetExponent_eq {F : Format} {x : ℚ} {e E : ℤ} {M : ℕ}
    (h : UnitExponent F x e) (hE : E ≤ e) (hlow : (M : ℚ) * 2 ^ E ≤ x)
    (hhigh : x < (M + 1) * 2 ^ E) :
    F.targetExponent (totalExponent M E) = e := by
  have hp := mantissaBits_pos F
  have hleast := h.least
  unfold Format.targetExponent totalExponent
  by_cases hM : M = 0
  · -- what is below one unit of the accumulator is rounded to the least exponent
    subst hM
    have he : e = F.minExponent := by
      rcases h.normal with he | hx
      · exact he
      · have : (2 : ℚ) ^ (e + F.mantissaBits - 1) < 2 ^ E := by
          refine lt_of_le_of_lt hx ?_
          simpa using hhigh
        rw [two_zpow_lt] at this
        omega
    have hlog : (0 : ℕ).log2 = 0 := by decide
    rw [hlog]
    omega
  · obtain ⟨hpow, hpow'⟩ := log2_bounds hM
    have hx : (2 : ℚ) ^ ((M.log2 : ℤ) + E) ≤ x := by
      rw [two_zpow_add]
      exact le_trans (mul_le_mul_of_nonneg_right hpow (two_zpow_pos E).le) hlow
    have hx' : x < (2 : ℚ) ^ ((M.log2 : ℤ) + 1 + E) := by
      rw [two_zpow_add]
      exact lt_of_lt_of_le hhigh (mul_le_mul_of_nonneg_right hpow' (two_zpow_pos E).le)
    have hup : (M.log2 : ℤ) + E < e + F.mantissaBits :=
      two_zpow_lt.mp (lt_of_le_of_lt hx h.lt)
    rcases h.normal with he | hnormal
    · omega
    · have := two_zpow_lt.mp (lt_of_le_of_lt hnormal hx')
      omega

/-- A rational has at most one bit too many in its unit. -/
theorem UnitExponent.nearest_le {F : Format} {x : ℚ} {e : ℤ} {m : ℕ} (h : UnitExponent F x e)
    (hm : NearestEven (x / 2 ^ e) m) : m ≤ 2 ^ F.mantissaBits := by
  refine hm.le_of_le ?_
  rw [div_le_iff₀ (two_zpow_pos e)]
  have := h.lt.le
  rw [add_comm, two_zpow_add, zpow_natCast] at this
  exact_mod_cast this

/-- A rational has at least all the bits of its unit, above the least exponent. -/
theorem UnitExponent.binade_le {F : Format} {x : ℚ} {e : ℤ} (h : UnitExponent F x e)
    (hne : e ≠ F.minExponent) : ((2 ^ (F.mantissaBits - 1) : ℕ) : ℚ) * 2 ^ e ≤ x := by
  have hp := mantissaBits_pos F
  rcases h.normal with h | h
  · exact absurd h hne
  · have hpow : (2 : ℚ) ^ (e + F.mantissaBits - 1) = 2 ^ (F.mantissaBits - 1) * 2 ^ e := by
      rw [← zpow_natCast, ← two_zpow_add]
      congr 1
      omega
    rw [hpow] at h
    exact_mod_cast h

/-! ## Rounding -/

/-- A mantissa that is not too long for its exponent is left as it is. -/
theorem shiftToTargetExponent_of_lt {F : Format} {m : ℕ} {e : ℤ} (hm : m < 2 ^ F.mantissaBits)
    (he : F.minExponent ≤ e) :
    shiftToTargetExponent F m e .exact = (⟨m, false, false⟩, e) := by
  have hp := mantissaBits_pos F
  have hlog : m.log2 + 1 ≤ F.mantissaBits := by
    by_cases h : m = 0
    · subst h
      have : (0 : ℕ).log2 = 0 := by decide
      omega
    · exact (Nat.log2_lt h).mpr hm
  have hshift : (F.targetExponent (totalExponent m e) - e).toNat = 0 := by
    unfold Format.targetExponent totalExponent
    omega
  unfold shiftToTargetExponent shiftToExponent
  simp only [hshift]
  exact Prod.ext rfl (by simp)

/-- A mantissa that a carry made one bit too long loses that bit, which is zero. -/
theorem shiftToTargetExponent_of_eq {F : Format} {e : ℤ} (he : F.minExponent ≤ e) :
    shiftToTargetExponent F (2 ^ F.mantissaBits) e .exact
      = (⟨2 ^ (F.mantissaBits - 1), false, false⟩, e + 1) := by
  have hp := mantissaBits_pos F
  have hshift : (F.targetExponent (totalExponent (2 ^ F.mantissaBits) e) - e).toNat = 1 := by
    unfold Format.targetExponent totalExponent
    rw [Nat.log2_two_pow]
    omega
  have hpow : 2 ^ F.mantissaBits = 2 * 2 ^ (F.mantissaBits - 1) := by
    rw [← Nat.pow_succ']
    congr 1
    omega
  unfold shiftToTargetExponent shiftToExponent
  simp only [hshift]
  refine Prod.ext ?_ (by simp)
  show ExtendedMantissa.shiftRightOne ⟨2 ^ F.mantissaBits, false, false⟩ = _
  rw [hpow]
  simp [ExtendedMantissa.shiftRightOne]

/-- **Rounding gives the nearest multiple of the unit**, whatever the exponent
that was computed with, as long as it is not above the unit's. -/
theorem roundWithAccuracy_eq {F : Format} {x : ℚ} {e E : ℤ} {m M : ℕ} {acc : Accuracy}
    (s : Sign) (hunit : UnitExponent F x e) (hm : NearestEven (x / 2 ^ e) m) (hE : E ≤ e)
    (hacc : Represents (.ofMantissaAndAccuracy M acc) (x / 2 ^ E)) :
    roundWithAccuracy F s M E acc = carried F s m e := by
  have hmant : (ExtendedMantissa.ofMantissaAndAccuracy M acc).mantissa = M := by
    rcases acc with _ | o
    · rfl
    · cases o <;> rfl
  have hbounds := hacc.bounds
  rw [hmant, le_div_iff₀ (two_zpow_pos E), div_lt_iff₀ (two_zpow_pos E)] at hbounds
  have htarget := hunit.targetExponent_eq hE hbounds.1 hbounds.2
  obtain ⟨k, hk⟩ : ∃ k : ℕ, e = E + k := ⟨(e - E).toNat, by omega⟩
  have hfirst : shiftToTargetExponent F M E acc
      = (ExtendedMantissa.ofMantissaAndAccuracy M acc >>> k, e) := by
    unfold shiftToTargetExponent shiftToExponent
    simp only [htarget, hk]
    have : (E + k - E).toNat = k := by omega
    rw [this]
  have hshifted : Represents (ExtendedMantissa.ofMantissaAndAccuracy M acc >>> k) (x / 2 ^ e) := by
    have := hacc.shiftRight k
    rwa [div_div, ← zpow_natCast, ← two_zpow_add, ← hk] at this
  have hround : (ExtendedMantissa.ofMantissaAndAccuracy M acc >>> k).roundedMantissa = m :=
    hshifted.roundedMantissa.unique hm
  have hmle := hunit.nearest_le hm
  unfold roundWithAccuracy carried
  simp only [hfirst, hround]
  by_cases hcarry : m = 2 ^ F.mantissaBits
  · have hne : m ≠ 0 := by
      rw [hcarry]
      exact Nat.pos_iff_ne_zero.mp (Nat.two_pow_pos _)
    rw [dif_neg hne, if_pos hcarry]
    subst hcarry
    have hsecond := shiftToTargetExponent_of_eq hunit.least
    have hne' : (2 ^ (F.mantissaBits - 1) : ℕ) ≠ 0 := Nat.pos_iff_ne_zero.mp (Nat.two_pow_pos _)
    simp only [hsecond, hne', ↓reduceDIte]
  · have hsecond := shiftToTargetExponent_of_lt (lt_of_le_of_ne hmle hcarry) hunit.least
    simp only [hsecond, if_neg hcarry]

/-! ## Operations -/

/-- A quotient is the integral part with the accuracy of the remainder. -/
theorem represents_accuracyOfFraction (a : ℕ) {b : ℕ} (hb : 0 < b) :
    Represents (.ofMantissaAndAccuracy (a / b) (accuracyOfFraction (a % b) b)) ((a : ℚ) / b) := by
  have hb' : (0 : ℚ) < b := by exact_mod_cast hb
  have hsplit : (a : ℚ) = b * (a / b : ℕ) + (a % b : ℕ) := by
    exact_mod_cast (Nat.div_add_mod a b).symm
  have hval : (a : ℚ) / b = (a / b : ℕ) + ((a % b : ℕ) : ℚ) / b := by
    rw [hsplit]
    field_simp
  have hrem : ((a % b : ℕ) : ℚ) < b := by exact_mod_cast Nat.mod_lt a hb
  rw [hval]
  generalize a % b = r at *
  unfold accuracyOfFraction
  by_cases hr : r = 0
  · rw [if_pos hr, hr]
    simp [Represents, ExtendedMantissa.ofMantissaAndAccuracy]
  · have hr' : (0 : ℚ) < r := by exact_mod_cast Nat.pos_of_ne_zero hr
    have hpos : 0 < (r : ℚ) / b := div_pos hr' hb'
    have hone : (r : ℚ) / b < 1 := (div_lt_one hb').mpr hrem
    rw [if_neg hr]
    rcases hcmp : compare (2 * r) b with _ | _ | _
    · have hlt : (2 : ℚ) * r < b := by exact_mod_cast Nat.compare_eq_lt.mp hcmp
      have : (r : ℚ) / b < 1 / 2 := by rw [div_lt_iff₀ hb']; linarith
      simp only [Represents, ExtendedMantissa.ofMantissaAndAccuracy]
      constructor <;> linarith
    · have heq : (2 : ℚ) * r = b := by exact_mod_cast Nat.compare_eq_eq.mp hcmp
      have : (r : ℚ) / b = 1 / 2 := by rw [div_eq_iff hb'.ne']; linarith
      simp only [Represents, ExtendedMantissa.ofMantissaAndAccuracy]
      linarith
    · have hgt : (b : ℚ) < 2 * r := by exact_mod_cast Nat.compare_eq_gt.mp hcmp
      have : 1 / 2 < (r : ℚ) / b := by rw [lt_div_iff₀ hb']; linarith
      simp only [Represents, ExtendedMantissa.ofMantissaAndAccuracy]
      constructor <;> linarith

/-- The quotient of two finite floats is the exact quotient, rounded once. -/
theorem div_eq {F : Format} (s₁ s₂ : Sign) {m₁ m₂ : ℕ} {e₁ e₂ : ℤ} (h₁ : 0 < m₁) (h₂ : 0 < m₂)
    {e : ℤ} {m : ℕ} (hunit : UnitExponent F (m₁ * 2 ^ e₁ / (m₂ * 2 ^ e₂)) e)
    (hm : NearestEven (m₁ * 2 ^ e₁ / (m₂ * 2 ^ e₂) / 2 ^ e) m) :
    UnpackedFloat.div F (.finite s₁ m₁ e₁ h₁) (.finite s₂ m₂ e₂ h₂) = carried F (s₁ / s₂) m e := by
  have hm₂ : (0 : ℚ) < m₂ := by exact_mod_cast h₂
  obtain ⟨hlow₁, -⟩ := log2_bounds (Nat.pos_iff_ne_zero.mp h₁)
  obtain ⟨-, hhigh₂⟩ := log2_bounds (Nat.pos_iff_ne_zero.mp h₂)
  -- the quotient has at least the difference of the lengths, less one bit
  have hlog : (m₁.log2 : ℤ) + e₁ - (m₂.log2 + 1 + e₂) < e + F.mantissaBits := by
    refine two_zpow_lt.mp (lt_of_le_of_lt ?_ hunit.lt)
    rw [zpow_sub₀ (by norm_num), two_zpow_add, two_zpow_add _ e₂]
    have hden : (0 : ℚ) < m₂ * 2 ^ e₂ := mul_pos hm₂ (two_zpow_pos e₂)
    refine div_le_div₀ (mul_pos (by exact_mod_cast h₁) (two_zpow_pos e₁)).le ?_ hden ?_
    · exact mul_le_mul_of_nonneg_right hlow₁ (two_zpow_pos e₁).le
    · refine mul_le_mul_of_nonneg_right ?_ (two_zpow_pos e₂).le
      linarith
  obtain ⟨T, hT⟩ : ∃ T, T = min (e₁ - e₂)
      (F.targetExponent (totalExponent m₁ e₁ - totalExponent m₂ e₂)) := ⟨_, rfl⟩
  have hTe : T ≤ e := by
    have := hunit.least
    unfold Format.targetExponent totalExponent at hT
    omega
  obtain ⟨k, hk⟩ : ∃ k : ℕ, e₁ - e₂ = T + k := ⟨(e₁ - e₂ - T).toNat, by omega⟩
  have hshift : (e₁ - e₂ - T).toNat = k := by omega
  have hvalue : ((m₁ * 2 ^ k : ℕ) : ℚ) / m₂ = m₁ * 2 ^ e₁ / (m₂ * 2 ^ e₂) / 2 ^ T := by
    have he₁ : (2 : ℚ) ^ e₁ = 2 ^ T * 2 ^ (k : ℤ) * 2 ^ e₂ := by
      rw [← two_zpow_add, ← two_zpow_add]
      congr 1
      omega
    have := (two_zpow_pos e₂).ne'
    have := (two_zpow_pos T).ne'
    rw [he₁, zpow_natCast]
    push_cast
    field_simp
  have hacc := represents_accuracyOfFraction (m₁ * 2 ^ k) h₂
  rw [hvalue] at hacc
  unfold UnpackedFloat.div divCore
  simp only [← hT, hshift, Nat.shiftLeft_eq]
  exact roundWithAccuracy_eq _ hunit hm hTe hacc

/-- A value that is already a multiple of a fine enough unit is rounded exactly
once. -/
theorem roundWithAccuracy_exact {F : Format} {e E : ℤ} {m M : ℕ} (s : Sign)
    (hunit : UnitExponent F (M * 2 ^ E) e) (hm : NearestEven (M * 2 ^ E / 2 ^ e) m) (hE : E ≤ e) :
    roundWithAccuracy F s M E .exact = carried F s m e := by
  refine roundWithAccuracy_eq s hunit hm hE ?_
  rw [mul_div_cancel_right₀ _ (two_zpow_pos E).ne']
  simp [Represents, ExtendedMantissa.ofMantissaAndAccuracy]

/-- The product of two finite floats is the exact product, rounded once, when
one of the mantissas has all its bits. -/
theorem mul_eq {F : Format} (s₁ s₂ : Sign) {m₁ m₂ : ℕ} {e₁ e₂ : ℤ} (h₁ : 0 < m₁) (h₂ : 0 < m₂)
    {e : ℤ} {m : ℕ} (hlong : 2 ^ (F.mantissaBits - 1) ≤ m₁ * m₂)
    (hunit : UnitExponent F (m₁ * 2 ^ e₁ * (m₂ * 2 ^ e₂)) e)
    (hm : NearestEven (m₁ * 2 ^ e₁ * (m₂ * 2 ^ e₂) / 2 ^ e) m) :
    UnpackedFloat.mul F (.finite s₁ m₁ e₁ h₁) (.finite s₂ m₂ e₂ h₂) = carried F (s₁ * s₂) m e := by
  have hvalue : (m₁ * 2 ^ e₁ * (m₂ * 2 ^ e₂) : ℚ) = ((m₁ * m₂ : ℕ) : ℚ) * 2 ^ (e₁ + e₂) := by
    rw [two_zpow_add]
    push_cast
    ring
  rw [hvalue] at hunit hm
  have hp := mantissaBits_pos F
  have hE : e₁ + e₂ ≤ e := by
    have hx : (2 : ℚ) ^ ((F.mantissaBits : ℤ) - 1 + (e₁ + e₂)) < 2 ^ (e + F.mantissaBits) := by
      refine lt_of_le_of_lt ?_ hunit.lt
      rw [two_zpow_add]
      refine mul_le_mul_of_nonneg_right ?_ (two_zpow_pos _).le
      have : ((F.mantissaBits : ℤ) - 1) = ((F.mantissaBits - 1 : ℕ) : ℤ) := by omega
      rw [this, zpow_natCast]
      exact_mod_cast hlong
    have := two_zpow_lt.mp hx
    omega
  exact roundWithAccuracy_exact _ hunit hm hE

/-- A value `m * 2 ^ e` is rounded to a format, from whatever exponent. -/
theorem round_eq {F : Format} {s : Sign} {M : ℕ} {E e : ℤ} {m : ℕ} (hM : 0 < M)
    (hunit : UnitExponent F (M * 2 ^ E) e) (hm : NearestEven (M * 2 ^ E / 2 ^ e) m) :
    UnpackedFloat.round F s M E = carried F s m e := by
  obtain ⟨hpow, -⟩ := log2_bounds (Nat.pos_iff_ne_zero.mp hM)
  have htarget : F.targetExponent (totalExponent M E) ≤ e := by
    have hx : (2 : ℚ) ^ ((M.log2 : ℤ) + E) < 2 ^ (e + F.mantissaBits) := by
      refine lt_of_le_of_lt ?_ hunit.lt
      rw [two_zpow_add]
      exact mul_le_mul_of_nonneg_right hpow (two_zpow_pos E).le
    have := two_zpow_lt.mp hx
    have := hunit.least
    unfold Format.targetExponent totalExponent
    omega
  obtain ⟨k, hk⟩ : ∃ k, k = (E - F.targetExponent (totalExponent M E)).toNat := ⟨_, rfl⟩
  have hvalue : (M : ℚ) * 2 ^ E = ((M * 2 ^ k : ℕ) : ℚ) * 2 ^ (E - k) := by
    rw [zpow_sub₀ (by norm_num), zpow_natCast]
    push_cast
    have : (2 : ℚ) ^ k ≠ 0 := by positivity
    field_simp
  rw [hvalue] at hunit hm
  unfold UnpackedFloat.round decreaseExponent
  simp only [← hk, Nat.shiftLeft_eq]
  exact roundWithAccuracy_exact s hunit hm (by omega)

/-! ## Rounding intervals -/

/-- How far the interval of a value reaches down, in quarters of its unit: below
a power of two the values lie twice as close, unless the exponent is the least. -/
def quartersBelow (F : Format) (m : ℕ) (e : ℤ) : ℕ :=
  if m = 2 ^ F.mantissaBitsWithoutImplicit ∧ F.minExponent < e then 1 else 2

/-- A rational lies between the halfway points around `m * 2 ^ e`, which belong
to the interval of an even mantissa. -/
def InInterval (F : Format) (m : ℕ) (e : ℤ) (x : ℚ) : Prop :=
  if m % 2 = 0 then
    ((4 * m - quartersBelow F m e : ℕ) : ℚ) * 2 ^ (e - 2) ≤ x ∧ x ≤ (4 * m + 2 : ℕ) * 2 ^ (e - 2)
  else
    ((4 * m - quartersBelow F m e : ℕ) : ℚ) * 2 ^ (e - 2) < x ∧ x < (4 * m + 2 : ℕ) * 2 ^ (e - 2)

/-- The interval in units of the value. -/
theorem InInterval.quotient {F : Format} {m : ℕ} {e : ℤ} {x : ℚ} (hpos : 0 < m)
    (h : InInterval F m e x) :
    (m - (quartersBelow F m e : ℚ) / 4 ≤ x / 2 ^ e ∧ x / 2 ^ e ≤ m + 1 / 2) ∧
      (m % 2 = 1 → m - (quartersBelow F m e : ℚ) / 4 < x / 2 ^ e ∧ x / 2 ^ e < m + 1 / 2) := by
  have hcast : ((4 * m - quartersBelow F m e : ℕ) : ℚ) = 4 * m - quartersBelow F m e := by
    have : quartersBelow F m e ≤ 4 * m := by
      unfold quartersBelow
      split <;> omega
    push_cast [Nat.cast_sub this]
    ring
  have hpow : (2 : ℚ) ^ (e - 2) = 2 ^ e / 4 := by
    rw [zpow_sub₀ (by norm_num)]
    norm_num
  have he := two_zpow_pos e
  unfold InInterval at h
  rw [hcast, hpow] at h
  push_cast at h
  rw [le_div_iff₀ he, div_le_iff₀ he, lt_div_iff₀ he, div_lt_iff₀ he]
  by_cases hpar : m % 2 = 0
  · rw [if_pos hpar] at h
    refine ⟨⟨by linarith [h.1], by linarith [h.2]⟩, ?_⟩
    intro hodd
    omega
  · rw [if_neg hpar] at h
    refine ⟨⟨by linarith [h.1], by linarith [h.2]⟩, ?_⟩
    intro _
    exact ⟨by linarith [h.1], by linarith [h.2]⟩

/-- A rational within half a unit is nearest to the mantissa, and the ends are
when it is even. -/
theorem nearestEven_of_within {y : ℚ} {m : ℕ} (hlow : m - 1 / 2 ≤ y) (hhigh : y ≤ m + 1 / 2)
    (hodd : m % 2 = 1 → m - 1 / 2 < y ∧ y < m + 1 / 2) : NearestEven y m := by
  rcases Nat.mod_two_eq_zero_or_one m with hpar | hpar
  · have hle : |y - m| ≤ 1 / 2 := abs_le.mpr ⟨by linarith, by linarith⟩
    rcases lt_or_eq_of_le hle with hlt | heq
    · exact .inl hlt
    · exact .inr ⟨heq, hpar⟩
  · obtain ⟨hlow', hhigh'⟩ := hodd hpar
    exact .inl (abs_lt.mpr ⟨by linarith, by linarith⟩)

/-- A rational in the value's own unit is rounded to its mantissa. -/
theorem InInterval.nearestEven {F : Format} {m : ℕ} {e : ℤ} {x : ℚ} (hpos : 0 < m)
    (h : InInterval F m e x) : NearestEven (x / 2 ^ e) m := by
  obtain ⟨⟨hlow, hhigh⟩, hodd⟩ := h.quotient hpos
  have hquarters : (quartersBelow F m e : ℚ) ≤ 2 := by
    unfold quartersBelow
    split <;> norm_num
  refine nearestEven_of_within (by linarith) hhigh ?_
  intro hpar
  obtain ⟨hlow', hhigh'⟩ := hodd hpar
  exact ⟨by linarith, hhigh'⟩

/-- Below the value's own unit there is only the interval of a power of two. -/
theorem InInterval.eq_two_pow {F : Format} {m : ℕ} {e : ℤ} {x : ℚ} (hc : Canonical F m e)
    (h : InInterval F m e x) (hleast : e ≠ F.minExponent)
    (hbelow : x < 2 ^ (F.mantissaBits - 1) * 2 ^ e) :
    m = 2 ^ (F.mantissaBits - 1) ∧ quartersBelow F m e = 1 := by
  obtain ⟨⟨hlow, -⟩, -⟩ := h.quotient hc.pos
  have hlong : 2 ^ (F.mantissaBits - 1) ≤ m := by
    rcases hc.normal with h | h
    · exact absurd h hleast
    · exact h
  rw [← div_lt_iff₀ (two_zpow_pos e)] at hbelow
  have hquarters : (quartersBelow F m e : ℚ) ≤ 2 := by
    unfold quartersBelow
    split <;> norm_num
  have hm : m = 2 ^ (F.mantissaBits - 1) := by
    refine le_antisymm ?_ hlong
    by_contra hgt
    have : (2 : ℚ) ^ (F.mantissaBits - 1) + 1 ≤ m := by exact_mod_cast Nat.lt_of_not_le hgt
    linarith
  refine ⟨hm, ?_⟩
  unfold quartersBelow
  rw [if_pos]
  refine ⟨?_, lt_of_le_of_ne hc.least (Ne.symm hleast)⟩
  rw [hm, Format.mantissaBits, Nat.add_sub_cancel_left]

/-- **Every rational of a value's interval is rounded to the value.**  Below a
power of two it is the carry that gets there. -/
theorem InInterval.rounds {F : Format} {m : ℕ} {e : ℤ} {x : ℚ} (hc : Canonical F m e)
    (h : InInterval F m e x) :
    ∃ e' m', UnitExponent F x e' ∧ NearestEven (x / 2 ^ e') m' ∧
      ∀ s, carried F s m' e' = .finite s m e hc.pos := by
  have he := two_zpow_pos e
  have hp := mantissaBits_pos F
  have hpow : (2 : ℚ) ^ (e + F.mantissaBits - 1) = 2 ^ (F.mantissaBits - 1) * 2 ^ e := by
    rw [← zpow_natCast, ← two_zpow_add]
    congr 1
    omega
  have htwo : (2 : ℚ) * 2 ^ (F.mantissaBits - 1) = 2 ^ F.mantissaBits := by
    rw [← pow_succ']
    congr 1
    omega
  by_cases hnormal : e = F.minExponent ∨ (2 : ℚ) ^ (e + F.mantissaBits - 1) ≤ x
  · have hlt : x < 2 ^ (e + F.mantissaBits) := by
      have hhigh := (h.quotient hc.pos).1.2
      have hmq : (m : ℚ) + 1 ≤ 2 ^ F.mantissaBits := by exact_mod_cast hc.lt
      rw [add_comm, two_zpow_add, zpow_natCast, ← div_lt_iff₀ he]
      linarith
    refine ⟨e, m, ⟨hc.least, hlt, hnormal⟩, h.nearestEven hc.pos, ?_⟩
    intro s
    unfold carried
    rw [dif_neg (Nat.pos_iff_ne_zero.mp hc.pos), if_neg (Nat.ne_of_lt hc.lt)]
  · -- the rational has a finer unit, in which it is rounded up to the power of two
    push Not at hnormal
    obtain ⟨hleast, hbelow⟩ := hnormal
    have hlt : F.minExponent < e := lt_of_le_of_ne hc.least (Ne.symm hleast)
    obtain ⟨hm, hone⟩ := h.eq_two_pow hc hleast (hpow ▸ hbelow)
    obtain ⟨⟨hlow, -⟩, -⟩ := h.quotient hc.pos
    have hmq : (m : ℚ) = 2 ^ (F.mantissaBits - 1) := by exact_mod_cast hm
    rw [hone, hmq] at hlow
    push_cast at hlow
    have hy : x / 2 ^ e < 2 ^ (F.mantissaBits - 1) := by
      rw [div_lt_iff₀ he, ← hpow]
      exact hbelow
    have hfine : x / 2 ^ (e - 1) = 2 * (x / 2 ^ e) := by
      rw [zpow_sub₀ (by norm_num), zpow_one]
      field_simp
    have hunit : UnitExponent F x (e - 1) := by
      refine ⟨by omega, ?_, .inr ?_⟩
      · have : e - 1 + F.mantissaBits = e + F.mantissaBits - 1 := by ring
        rw [this]
        exact hbelow
      · have hhalf : (1 : ℚ) ≤ 2 ^ (F.mantissaBits - 1) := one_le_pow₀ (by norm_num)
        have : (2 : ℚ) ^ (e - 1 + F.mantissaBits - 1) = 2 ^ (F.mantissaBits - 1) / 2 * 2 ^ e := by
          have : e - 1 + F.mantissaBits - 1 = e + F.mantissaBits - 1 - 1 := by ring
          rw [this, zpow_sub₀ (by norm_num), hpow, zpow_one]
          ring
        rw [this, ← le_div_iff₀ he]
        linarith
    have hcarry : NearestEven (x / 2 ^ (e - 1)) (2 ^ F.mantissaBits) := by
      have heven : 2 ^ F.mantissaBits % 2 = 0 := by
        rw [← Nat.sub_add_cancel hp, Nat.pow_succ, Nat.mul_mod_left]
      refine nearestEven_of_within ?_ ?_ (by omega)
      · rw [hfine]
        push_cast
        linarith
      · rw [hfine]
        push_cast
        linarith
    refine ⟨e - 1, 2 ^ F.mantissaBits, hunit, hcarry, ?_⟩
    intro s
    unfold carried
    rw [dif_neg (Nat.pos_iff_ne_zero.mp (Nat.two_pow_pos _)), if_pos rfl]
    congr 1
    · exact hm.symm
    · omega

/-! ## Decimals of a program text -/

/-- Core reads a decimal with places after the point as the exact quotient,
rounded once; its check against huge powers of ten does not interfere with
decimals above a bound. -/
theorem ofScientific_eq {F : Format} {d places : ℕ} {e : ℤ} {m : ℕ} (hd : 0 < d)
    (hplaces : 0 < places) (hsafe : places ≤ 2 ^ F.exponentBits + d.log2)
    (hunit : UnitExponent F (d / 10 ^ places) e)
    (hm : NearestEven ((d : ℚ) / 10 ^ places / 2 ^ e) m) :
    UnpackedFloat.ofScientific F d (-(places : ℤ)) = carried F .positive m e := by
  have hvalue : (d : ℚ) / 10 ^ places
      = (d : ℚ) * 2 ^ (0 : ℤ) / (((10 ^ places : ℕ) : ℚ) * 2 ^ (0 : ℤ)) := by
    push_cast
    simp
  rw [hvalue] at hunit hm
  have hpow : (0 : ℤ) < 2 ^ F.exponentBits := by positivity
  have hsafe' : (places : ℤ) ≤ 2 ^ F.exponentBits + d.log2 := by exact_mod_cast hsafe
  have htoNat : (- -(places : ℤ)).toNat = places := by omega
  unfold UnpackedFloat.ofScientific
  rw [dif_neg (Nat.pos_iff_ne_zero.mp hd), if_neg (by omega), if_neg (by omega),
    if_neg (by omega)]
  simp only [htoNat]
  exact div_eq _ _ _ _ hunit hm

/-- Core reads a whole decimal as the exact product, rounded once. -/
theorem ofScientific_whole_eq {F : Format} {d k : ℕ} {e : ℤ} {m : ℕ} (hd : 0 < d)
    (hk : k ≤ 2 ^ F.exponentBits) (hunit : UnitExponent F (d * 10 ^ k) e)
    (hm : NearestEven ((d : ℚ) * 10 ^ k / 2 ^ e) m) :
    UnpackedFloat.ofScientific F d k = carried F .positive m e := by
  have hp := mantissaBits_pos F
  have hvalue : (d : ℚ) * 10 ^ k = ((d <<< F.mantissaBits : ℕ) : ℚ) * 2 ^ (-(F.mantissaBits : ℤ))
      * (((10 ^ k : ℕ) : ℚ) * 2 ^ (0 : ℤ)) := by
    have : (2 : ℚ) ^ F.mantissaBits ≠ 0 := by positivity
    rw [Nat.shiftLeft_eq, zpow_neg, zpow_natCast, zpow_zero]
    push_cast
    field_simp
  rw [hvalue] at hunit hm
  have hk' : (k : ℤ) ≤ 2 ^ F.exponentBits := by exact_mod_cast hk
  have hlong : 2 ^ (F.mantissaBits - 1) ≤ d <<< F.mantissaBits * 10 ^ k := by
    have h₁ : 2 ^ (F.mantissaBits - 1) ≤ 2 ^ F.mantissaBits :=
      Nat.pow_le_pow_right (by omega) (by omega)
    rw [Nat.shiftLeft_eq, Nat.mul_right_comm]
    exact le_trans h₁ (Nat.le_mul_of_pos_left _ (Nat.mul_pos hd (Nat.pow_pos (by omega))))
  unfold UnpackedFloat.ofScientific
  rw [dif_neg (Nat.pos_iff_ne_zero.mp hd), if_neg (by omega), if_neg (by omega),
    if_pos (by omega)]
  exact mul_eq _ _ _ _ hlong hunit hm

end Chronograph
