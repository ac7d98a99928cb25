import Chronograph.Json.Lexeme
import Chronograph.Proofs.Binary.DoubleRounding

/-!
# Floats of a significand and a power of ten

A number with a fraction or an exponent is read as a significand of 64 bits
that is rounded to a float, times or over a power of ten that is itself a float.
The powers up to the twenty-second are exact (`powerOfTen_value`), so there are
two roundings at most (`floatOfParts_times`, `floatOfParts_over`).
-/

namespace Chronograph.Json

open Float.Model (Format UnpackedFloat)
open Float.Model.UnpackedFloat (Sign)

/-! ## Powers of ten -/

theorem small_powers : ∀ k < 23, (powerOfTen k).toModel = Float.Model.ofNat (10 ^ k) := by
  decide +kernel

/-- The greatest double-width float. -/
theorem representable_greatest : Representable .binary64 ((2 ^ 53 - 1 : ℕ) * 2 ^ (971 : ℤ)) :=
  ⟨2 ^ 53 - 1, 971, by decide, by decide, rfl⟩

theorem greatest_lt : (((2 ^ 53 - 1 : ℕ) : ℚ) * 2 ^ (971 : ℤ)) < 2 ^ (1024 : ℤ) := by
  have hsplit : (1024 : ℤ) = 53 + 971 := by norm_num
  rw [hsplit, two_zpow_add]
  exact mul_lt_mul_of_pos_right (by norm_num) (two_zpow_pos 971)

/-- The powers of ten up to the largest of the steps are below it. -/
theorem ten_pow_le_greatest {k : ℕ} (hk : k ≤ 308) :
    (10 : ℚ) ^ k ≤ (2 ^ 53 - 1 : ℕ) * 2 ^ (971 : ℤ) := by
  have hlast : 10 ^ 308 ≤ (2 ^ 53 - 1) * 2 ^ 971 := by decide +kernel
  have hpow : (2 : ℚ) ^ (971 : ℤ) = ((2 ^ 971 : ℕ) : ℚ) := by
    rw [Nat.cast_pow]
    exact zpow_natCast 2 971
  rw [hpow]
  calc (10 : ℚ) ^ k ≤ 10 ^ 308 := pow_le_pow_right₀ (by norm_num) hk
    _ = ((10 ^ 308 : ℕ) : ℚ) := by rw [Nat.cast_pow]; rfl
    _ ≤ (((2 ^ 53 - 1) * 2 ^ 971 : ℕ) : ℚ) := Nat.cast_le.mpr hlast
    _ = _ := Nat.cast_mul _ _

/-- The power of ten of the table, and those beyond it, are rounded correctly. -/
theorem isRounded_powerOfTen {k : ℕ} (hk : k ≤ 308) : IsRounded (powerOfTen k) (10 ^ k) := by
  by_cases h : k ≤ 22
  · have hmodel : powerOfTen k = nearestFloat (10 ^ k) :=
      congrArg Float.ofModel (small_powers k (by omega))
    have := isRounded_nearestFloat (10 ^ k)
    rw [hmodel]
    exact_mod_cast this
  · have hslow : powerOfTen k = .ofModel (.ofScientific 1 k) := by
      unfold powerOfTen Float.ofScientific
      rw [dif_neg fun hfast => h hfast.2]
      rfl
    have := isRounded_ofScientific (d := 1) (by omega) (by omega : k ≤ 2048)
    rw [Nat.cast_one, one_mul] at this
    rw [hslow]
    exact this

/-- **The powers of ten**: exact up to the twenty-second, and from there on at
least as large. -/
theorem powerOfTen_value {k : ℕ} (hk : k ≤ 308) :
    ∃ p, HasValue (powerOfTen k) p ∧ 0 < p ∧ (k ≤ 22 → p = 10 ^ k) ∧ (22 < k → 10 ^ 22 ≤ p) := by
  obtain ⟨p, hround, hp⟩ := (isRounded_powerOfTen hk).hasValue representable_greatest greatest_lt
    (ten_pow_le_greatest hk)
  refine ⟨p, hp, ?_, ?_, ?_⟩
  · have hone := hround.ge_of_ge (representable_ten_pow (Nat.zero_le 22))
      (pow_le_pow_right₀ (by norm_num) (Nat.zero_le k))
    rw [pow_zero] at hone
    linarith
  · intro h
    exact hround.eq_of_representable (representable_ten_pow h)
  · intro h
    refine hround.ge_of_ge (representable_ten_pow le_rfl) ?_
    exact pow_le_pow_right₀ (by norm_num) (by omega)

/-! ## Significands over and times powers of ten -/

/-- A significand is rounded before anything else. -/
theorem significand_value {s : ℕ} (hs : s < significandLimit) :
    ∃ v, RoundsTo .binary64 s v ∧ HasValue s.toUInt64.toFloat v := by
  have hs' : s < 2 ^ 64 := hs
  have hword : s.toUInt64.toNat = s := by
    show (UInt64.ofNat s).toNat = s
    exact UInt64.toNat_ofNat_of_lt hs
  have hround := isRounded_toFloat s.toUInt64
  rw [hword] at hround
  have hbound := representable_two_zpow (by norm_num : -1074 ≤ (64 : ℤ))
  refine hround.hasValue hbound (two_zpow_lt.mpr (by norm_num)) ?_
  exact_mod_cast hs'.le

/-- Zero over powers of ten is zero. -/
theorem overPowerOfTen_zero (steps : ℕ) {x : Float} (hx : HasValue x 0) (k : ℕ) :
    HasValue (overPowerOfTen steps x k) 0 := by
  induction steps generalizing x k with
  | zero => exact hx
  | succ steps ih =>
      have hdiv : ∀ j ≤ 308, HasValue (x / powerOfTen j) 0 := by
        intro j hj
        obtain ⟨p, hp, hpos, -⟩ := powerOfTen_value hj
        have hround := isRounded_div hx hp hpos
        rw [zero_div] at hround
        have hzero : Representable .binary64 0 := by exact_mod_cast representable_of_le (Nat.zero_le _)
        obtain ⟨v, hv, hvalue⟩ := hround.hasValue hzero (two_zpow_pos _) le_rfl
        rwa [hv.eq_of_representable hzero] at hvalue
      unfold overPowerOfTen
      split
      · exact hdiv k ‹_›
      · split
        · exact hx
        · exact ih (hdiv 308 le_rfl) (k - 308)

/-- A positive float is not equal to zero. -/
theorem beq_zero_of_pos {x : Float} {v : ℚ} (hx : HasValue x v) (hv : 0 < v) : (x == 0) = false := by
  obtain ⟨m, e, hm, hx, -, -⟩ := hx.finite hv
  have hzero : (0 : Float).toModel.unpack = .zero .positive := rfl
  show (x.toModel.unpack).beq (0 : Float).toModel.unpack = false
  rw [hx, hzero]
  rfl

theorem beq_zero_of_zero {x : Float} (hx : HasValue x 0) : (x == 0) = true := by
  have hzero : (0 : Float).toModel.unpack = .zero .positive := rfl
  show (x.toModel.unpack).beq (0 : Float).toModel.unpack = true
  rw [hx.zero, hzero]
  rfl

/-- **The float of a significand times a power of ten**: the significand is
rounded, and so is its product with the power, which is exact up to the
twenty-second. -/
theorem floatOfParts_times {negative : Bool} {s k : ℕ} {x : Float} (hs : s < significandLimit)
    (hpos : 0 < s) (h : floatOfParts negative s (.ofNat k) = .ok x) :
    ∃ y v₀ p v, RoundsTo .binary64 s v₀ ∧ (k ≤ 22 → p = 10 ^ k) ∧ (22 < k → 10 ^ 22 ≤ p) ∧
      RoundsTo .binary64 (v₀ * p) v ∧ HasValue y v ∧ x = signed negative y := by
  obtain ⟨v₀, hv₀, hx₀⟩ := significand_value hs
  have hone := hv₀.one_le hpos
  unfold floatOfParts at h
  dsimp only at h
  by_cases hk : k ≤ 308
  · obtain ⟨p, hp, hppos, hsmall, hlarge⟩ := powerOfTen_value hk
    have hppos : 0 < p := by
      by_cases h : k ≤ 22
      · rw [hsmall h]
        positivity
      · exact lt_of_lt_of_le (by positivity) (hlarge (by omega))
    rw [if_pos hk] at h
    obtain ⟨v, hv, hy⟩ := isRounded_mul hx₀ hp (.inl hone) hppos
    by_cases hinf : (s.toUInt64.toFloat * powerOfTen k).isInf = true
    · rw [if_pos hinf] at h
      cases h
    · rw [if_neg hinf] at h
      cases h
      refine ⟨_, v₀, p, v, hv₀, hsmall, hlarge, hv, ?_, rfl⟩
      rcases hy with hy | hy
      · exact hy
      · exact absurd hy.1 hinf
  · rw [if_neg hk, beq_zero_of_pos hx₀ (by linarith)] at h
    cases h

/-- **The float of a significand over a power of ten** that is exact. -/
theorem floatOfParts_over {negative : Bool} {s k : ℕ} {x : Float} (hs : s < significandLimit)
    (hk : k + 1 ≤ 22) (h : floatOfParts negative s (.negSucc k) = .ok x) :
    ∃ y v₀ v, RoundsTo .binary64 s v₀ ∧ RoundsTo .binary64 (v₀ / 10 ^ (k + 1)) v ∧
      HasValue y v ∧ x = signed negative y := by
  obtain ⟨v₀, hv₀, hx₀⟩ := significand_value hs
  obtain ⟨p, hp, -, hsmall, -⟩ := powerOfTen_value (k := k + 1) (by omega)
  have hp' := hsmall hk
  subst hp'
  have hbound := representable_two_zpow (by norm_num : -1074 ≤ (64 : ℤ))
  have hs' : (s : ℚ) ≤ 2 ^ (64 : ℤ) := by
    have : s < 2 ^ 64 := hs
    exact_mod_cast this.le
  have hle : v₀ / 10 ^ (k + 1) ≤ 2 ^ (64 : ℤ) :=
    le_trans (div_le_self hx₀.nonneg (one_le_pow₀ (by norm_num))) (hv₀.le_of_le hbound hs')
  obtain ⟨v, hv, hy⟩ := (isRounded_div hx₀ hp (by positivity)).hasValue hbound
    (two_zpow_lt.mpr (by norm_num)) hle
  unfold floatOfParts overPowerOfTen at h
  dsimp only at h
  rw [if_pos (by omega)] at h
  cases h
  exact ⟨_, v₀, v, hv₀, hv, hy, rfl⟩

/-- Zero times and over any power of ten is zero. -/
theorem floatOfParts_zero {negative : Bool} {e : ℤ} {x : Float}
    (h : floatOfParts negative 0 e = .ok x) : ∃ y, HasValue y 0 ∧ x = signed negative y := by
  have hzero : Representable .binary64 0 := by exact_mod_cast representable_of_le (Nat.zero_le _)
  obtain ⟨v₀, hv₀, hx₀⟩ := significand_value (s := 0) (by decide)
  rw [Nat.cast_zero] at hv₀
  rw [hv₀.eq_of_representable hzero] at hx₀
  unfold floatOfParts at h
  rcases e with k | k
  · dsimp only at h
    by_cases hk : k ≤ 308
    · obtain ⟨p, hp, hppos, hsmall, hlarge⟩ := powerOfTen_value hk
      rw [if_pos hk] at h
      have hround := isRounded_mul hx₀ hp (.inr rfl) hppos
      rw [zero_mul] at hround
      obtain ⟨v, hv, hy⟩ := hround.hasValue hzero (two_zpow_pos _) le_rfl
      rw [hv.eq_of_representable hzero] at hy
      by_cases hinf : ((0 : ℕ).toUInt64.toFloat * powerOfTen k).isInf = true
      · rw [if_pos hinf] at h
        cases h
      · rw [if_neg hinf] at h
        cases h
        exact ⟨_, hy, rfl⟩
    · rw [if_neg hk, beq_zero_of_zero hx₀] at h
      cases h
      exact ⟨_, hx₀, rfl⟩
  · cases h
    exact ⟨_, overPowerOfTen_zero _ hx₀ _, rfl⟩

/-! ## Accepted whole numbers -/

/-- The whole number that a float with a sign is accepted as. -/
theorem wholeValue?_float {negative : Bool} {y : Float} {v : ℚ} (hy : HasValue y v) {w : ℤ} :
    (Number.float (signed negative y)).wholeValue? = some w ↔
      ∃ n : ℕ, (n : ℚ) = v ∧ n ≤ 2 ^ 53 ∧ w = signedInt negative n := by
  show (Chronograph.wholeValue? (signed negative y).toModel.unpack).filter _ = some w ↔ _
  rw [Option.filter_eq_some_iff, wholeValue?_signed hy, decide_eq_true_eq]
  constructor
  · rintro ⟨⟨n, hn, rfl⟩, hle⟩
    rw [natAbs_signedInt] at hle
    exact ⟨n, hn, hle, rfl⟩
  · rintro ⟨n, hn, hle, rfl⟩
    refine ⟨⟨n, hn, rfl⟩, ?_⟩
    rw [natAbs_signedInt]
    exact hle

/-- The whole numbers that are accepted as another one, by the power of ten that
they are read with. -/
def MisreadWith (V : ℕ) : ℤ → Prop
  | .ofNat k => V = 2 ^ 53 + 1 ∧ k = 0
  | .negSucc k => Blurred V (k + 1)

theorem not_misreadWith_zero (e : ℤ) : ¬MisreadWith 0 e := by
  cases e with
  | ofNat k => exact fun h => absurd h.1 (by decide)
  | negSucc k => exact fun h => absurd h.1 (by decide)

/-- **An accepted whole number is the one that was written**, but for those that
are misread. -/
theorem floatOfParts_exact_iff {negative : Bool} {s V : ℕ} {e w : ℤ} {x : Float}
    (hs : s < significandLimit) (hV : (s : ℚ) * 10 ^ e = V)
    (h : floatOfParts negative s e = .ok x) (hw : (Number.float x).wholeValue? = some w) :
    w = signedInt negative V ↔ ¬MisreadWith V e := by
  rcases Nat.eq_zero_or_pos s with rfl | hpos
  · have hV0 : V = 0 := by
      rw [Nat.cast_zero, zero_mul] at hV
      exact_mod_cast hV.symm
    obtain ⟨y, hy, rfl⟩ := floatOfParts_zero h
    obtain ⟨n, hn, -, rfl⟩ := (wholeValue?_float hy).mp hw
    have hn0 : n = 0 := by exact_mod_cast hn
    subst hV0 hn0
    constructor
    · intro _
      exact not_misreadWith_zero e
    · intro _
      rfl
  · rcases e with k | k
    · have hV' : V = s * 10 ^ k := by
        rw [Int.ofNat_eq_natCast, zpow_natCast] at hV
        exact_mod_cast hV.symm
      obtain ⟨y, v₀, p, v, hv₀, hsmall, hlarge, hv, hy, rfl⟩ := floatOfParts_times hs hpos h
      obtain ⟨n, hn, hle, rfl⟩ := (wholeValue?_float hy).mp hw
      rw [signedInt_inj]
      exact product_exact_iff hpos hV' hv₀ hsmall hlarge hv hn hle
    · have hV' : s = V * 10 ^ (k + 1) := by
        rw [zpow_negSucc, ← div_eq_mul_inv, div_eq_iff (by positivity)] at hV
        exact_mod_cast hV
      have hVpos : 0 < V := by
        rcases Nat.eq_zero_or_pos V with rfl | hVpos
        · omega
        · exact hVpos
      have hk : k + 1 ≤ 22 := by
        by_contra hgt
        have hpow : 10 ^ 23 ≤ 10 ^ (k + 1) := Nat.pow_le_pow_right (by omega) (by omega)
        have hle : 10 ^ (k + 1) ≤ s := hV' ▸ Nat.le_mul_of_pos_left _ hVpos
        have hs' : s < 2 ^ 64 := hs
        omega
      obtain ⟨y, v₀, v, hv₀, hv, hy, rfl⟩ := floatOfParts_over hs hk h
      obtain ⟨n, hn, hle, rfl⟩ := (wholeValue?_float hy).mp hw
      rw [signedInt_inj]
      exact quotient_exact_iff hs (by omega) hV' hv₀ hv hn hle

/-- A significand that lost digits gives no whole number that is accepted. -/
theorem floatOfParts_large {negative : Bool} {s k : ℕ} {x : Float} (hs : s < significandLimit)
    (hlarge : 10 ^ 18 ≤ s) (h : floatOfParts negative s (.ofNat k) = .ok x) :
    (Number.float x).wholeValue? = none := by
  obtain ⟨y, v₀, p, v, hv₀, hp, hp', hv, hy, rfl⟩ := floatOfParts_times hs (by omega) h
  by_contra hne
  obtain ⟨w, hw⟩ := Option.ne_none_iff_exists'.mp hne
  obtain ⟨n, hn, hle, -⟩ := (wholeValue?_float hy).mp hw
  have := lt_of_large_product hlarge hv₀ hp hp' hv
  rw [← hn] at this
  have : 2 ^ 53 < n := by exact_mod_cast this
  omega

end Chronograph.Json
