import Chronograph.Proofs.Binary.Rounded

/-!
# Which whole numbers survive two roundings

A whole number `V` is written as a significand `s` times or over a power of ten,
`V = s * 10 ^ k` or `s = V * 10 ^ k`, and computed with two roundings: of the
significand, and of the product or quotient.  A result is accepted when it is
whole and not above `2 ^ 53`.  That does not keep out every number that was
changed:

* `2 ^ 53 + 1` itself is rounded to `2 ^ 53`, which is accepted;
* between `2 ^ 52` and `2 ^ 53`, a significand with superfluous places can be
  moved by more than half of the last whole place, and the quotient is then the
  nearest float to a wrong number (`Blurred`).

`product_exact_iff` and `quotient_exact_iff` say that these are all.
-/

namespace Chronograph

open Float.Model (Format)

/-- The unit of a number, which is the power of two that leaves 53 bits. -/
def unitOf (s : ℕ) : ℕ := 2 ^ (s.log2 - 52)

/-- How far a number is from the nearest multiple of its unit. -/
def roundingError (s : ℕ) : ℕ := min (s % unitOf s) (unitOf s - s % unitOf s)

/-- The numbers `V`, written with `k` superfluous places, that are changed by
more than half of their last whole place. -/
def Blurred (V k : ℕ) : Prop :=
  2 ^ 52 ≤ V ∧ V < 2 ^ 53 ∧ 10 ^ k < 2 * roundingError (V * 10 ^ k)

instance (V k : ℕ) : Decidable (Blurred V k) := inferInstanceAs (Decidable (_ ∧ _ ∧ _))

/-! ## One rounding -/

/-- Below `2 ^ 53` nothing moves by more than a half. -/
theorem RoundsTo.near {y v : ℚ} (h : RoundsTo .binary64 y v) (hy : y < 2 ^ 53) :
    |v - y| ≤ 1 / 2 := by
  obtain ⟨e, m, hunit, hm, rfl⟩ := h
  have he := two_zpow_pos e
  have hle : e ≤ 0 := by
    by_contra hgt
    have hbinade := hunit.double_le (by omega)
    have hy' : y < 2 ^ (53 : ℤ) := by exact_mod_cast hy
    have := two_zpow_lt.mp (lt_of_le_of_lt hbinade hy')
    omega
  have hone : (2 : ℚ) ^ e ≤ 1 := zpow_le_one_of_nonpos₀ (by norm_num) hle
  have hdist : |y / 2 ^ e - m| ≤ 1 / 2 := by rcases hm with h | h <;> linarith [h]
  have hscale : (m : ℚ) * 2 ^ e - y = -((y / 2 ^ e - m) * 2 ^ e) := by
    field_simp
    ring
  rw [hscale, abs_neg, abs_mul, abs_of_pos he]
  calc |y / 2 ^ e - m| * 2 ^ e ≤ 1 / 2 * 1 := mul_le_mul hdist hone he.le (by norm_num)
    _ = 1 / 2 := by norm_num

/-- A number is rounded to a nearest multiple of its unit. -/
theorem RoundsTo.multiple {s : ℕ} {v : ℚ} (h : RoundsTo .binary64 s v) :
    ∃ m : ℕ, v = (m * unitOf s : ℕ) ∧
      2 * s ≤ 2 * (m * unitOf s) + unitOf s ∧
      2 * (m * unitOf s) ≤ 2 * s + unitOf s := by
  by_cases hs : s < 2 ^ 53
  · have hlog : s.log2 - 52 = 0 := by
      by_cases hzero : s = 0
      · subst hzero
        rfl
      · have := (Nat.log2_lt hzero).mpr hs
        omega
    unfold unitOf
    rw [hlog, pow_zero]
    refine ⟨s, ?_, by omega, by omega⟩
    rw [mul_one]
    exact h.eq_of_representable (representable_of_le hs.le)
  · obtain ⟨e, m, hunit, hm, rfl⟩ := h
    have hne : s ≠ 0 := by
      rintro rfl
      exact hs (by decide)
    obtain ⟨hlow, hhigh⟩ := log2_bounds hne
    have hlog52 : 52 < s.log2 := by
      by_contra hlt
      have : s < 2 ^ (s.log2 + 1) := Nat.lt_log2_self
      have : 2 ^ (s.log2 + 1) ≤ 2 ^ 53 := Nat.pow_le_pow_right (by omega) (by omega)
      omega
    have hmin := minExponent_binary64
    have hbits : (Format.binary64.mantissaBits : ℤ) = 53 := rfl
    have hupper := two_zpow_lt.mp (lt_of_le_of_lt hlow hunit.lt)
    have hbinade := hunit.double_le (by omega)
    have hlower := two_zpow_lt.mp (lt_of_lt_of_le (lt_of_le_of_lt hbinade (lt_add_one _)) hhigh)
    have he : e = ((s.log2 - 52 : ℕ) : ℤ) := by omega
    subst he
    unfold unitOf
    generalize s.log2 - 52 = j at *
    rw [zpow_natCast] at hm ⊢
    have hj : (0 : ℚ) < 2 ^ j := by positivity
    have hdist : |(s : ℚ) / 2 ^ j - m| ≤ 1 / 2 := by rcases hm with h | h <;> linarith [h]
    obtain ⟨h₁, h₂⟩ := abs_le.mp hdist
    have hs₁ : (m : ℚ) - 1 / 2 ≤ s / 2 ^ j := by linarith
    have hs₂ : (s : ℚ) / 2 ^ j ≤ m + 1 / 2 := by linarith
    rw [le_div_iff₀ hj] at hs₁
    rw [div_le_iff₀ hj] at hs₂
    refine ⟨m, by push_cast; rfl, ?_, ?_⟩
    · have : (2 * s : ℚ) ≤ 2 * (m * 2 ^ j) + 2 ^ j := by linarith
      exact_mod_cast this
    · have : (2 * (m * 2 ^ j) : ℚ) ≤ 2 * s + 2 ^ j := by linarith
      exact_mod_cast this

/-- A number moves by its rounding error. -/
theorem RoundsTo.moved {s : ℕ} {v : ℚ} (h : RoundsTo .binary64 s v) :
    ∃ m : ℕ, v = (m * unitOf s : ℕ) ∧
      (m * unitOf s = s + roundingError s ∨ m * unitOf s + roundingError s = s) := by
  obtain ⟨m, hv, hlow, hhigh⟩ := RoundsTo.multiple h
  refine ⟨m, hv, ?_⟩
  unfold roundingError
  have hunit : 0 < unitOf s := Nat.two_pow_pos _
  generalize unitOf s = unit at *
  have hsplit := Nat.div_add_mod s unit
  have hmod := Nat.mod_lt s hunit
  rw [Nat.mul_comm] at hsplit
  generalize s / unit = q at *
  generalize s % unit = r at *
  have hq : m = q ∨ m = q + 1 ∨ m + 1 = q := by
    by_contra hne
    rcases Nat.lt_or_ge m q with hlt | hge
    · have : (m + 2) * unit ≤ q * unit := Nat.mul_le_mul_right unit (by omega)
      rw [Nat.add_mul] at this
      omega
    · have : (q + 2) * unit ≤ m * unit := Nat.mul_le_mul_right unit (by omega)
      rw [Nat.add_mul] at this
      omega
  rcases hq with rfl | rfl | rfl
  · omega
  · rw [Nat.add_mul] at *
    omega
  · rw [Nat.add_mul] at *
    omega

theorem RoundsTo.representable {F : Format} {x v : ℚ} (h : RoundsTo F x v) :
    Representable F v := by
  obtain ⟨e, m, hunit, hm, rfl⟩ := h
  exact ⟨m, e, hunit.nearest_le hm, hunit.least, rfl⟩

/-! ## Products -/

/-- Above `2 ^ 53` there is no accepted product but the one of `2 ^ 53 + 1`. -/
theorem lt_of_product {s k V : ℕ} {p v₀ v : ℚ} (hs : 0 < s) (hV : V = s * 10 ^ k)
    (hv₀ : RoundsTo .binary64 s v₀) (hsmall : k ≤ 22 → p = 10 ^ k) (hlarge : 22 < k → 10 ^ 22 ≤ p)
    (hv : RoundsTo .binary64 (v₀ * p) v) (hge : 2 ^ 53 + 2 ≤ V) : 2 ^ 53 < v := by
  have hone := hv₀.one_le hs
  have hnext : Representable .binary64 (2 ^ 53 + 2) :=
    ⟨2 ^ 52 + 1, 1, by decide, by decide, by norm_num⟩
  have hproduct : (2 : ℚ) ^ 53 + 2 ≤ v₀ * p := by
    by_cases hk : k ≤ 22
    · have hp := hsmall hk
      rcases Nat.eq_zero_or_pos k with rfl | hkpos
      · rw [hp, pow_zero, mul_one]
        refine hv₀.ge_of_ge hnext ?_
        rw [pow_zero, mul_one] at hV
        rw [← hV]
        exact_mod_cast hge
      · have hten : (10 : ℚ) ≤ p := by
          rw [hp]
          exact le_self_pow₀ (by norm_num) hkpos.ne'
        by_cases hexact : s ≤ 2 ^ 53
        · rw [hv₀.eq_of_representable (representable_of_le hexact), hp]
          rw [hV] at hge
          exact_mod_cast hge
        · have hfloor : (2 : ℚ) ^ 53 ≤ v₀ := by
            have := hv₀.ge_of_ge (representable_of_le (n := 2 ^ 53) le_rfl)
              (by exact_mod_cast (Nat.lt_of_not_le hexact).le)
            exact_mod_cast this
          have := mul_le_mul hfloor hten (by norm_num) (by linarith)
          linarith
    · have := mul_le_mul hone (hlarge (by omega)) (by norm_num) (by linarith)
      linarith
  have := hv.ge_of_ge hnext hproduct
  linarith

/-- **A product is accepted unchanged**, unless it is `2 ^ 53 + 1` itself. -/
theorem product_exact_iff {s k V n : ℕ} {p v₀ v : ℚ} (hs : 0 < s) (hV : V = s * 10 ^ k)
    (hv₀ : RoundsTo .binary64 s v₀) (hsmall : k ≤ 22 → p = 10 ^ k) (hlarge : 22 < k → 10 ^ 22 ≤ p)
    (hv : RoundsTo .binary64 (v₀ * p) v) (hn : (n : ℚ) = v) (hle : n ≤ 2 ^ 53) :
    n = V ↔ ¬(V = 2 ^ 53 + 1 ∧ k = 0) := by
  by_cases hexact : V ≤ 2 ^ 53
  · have hpow : 0 < 10 ^ k := Nat.pow_pos (by omega)
    have hsle : s ≤ V := hV ▸ Nat.le_mul_of_pos_right s hpow
    have hpowle : 10 ^ k ≤ V := hV ▸ Nat.le_mul_of_pos_left _ hs
    have hk : k ≤ 22 := by
      by_contra hgt
      have : 10 ^ 23 ≤ 10 ^ k := Nat.pow_le_pow_right (by omega) (by omega)
      omega
    have hproduct : v₀ * p = (V : ℕ) := by
      rw [hv₀.eq_of_representable (representable_of_le (hsle.trans hexact)), hsmall hk, hV]
      push_cast
      rfl
    rw [hproduct] at hv
    rw [hv.eq_of_representable (representable_of_le hexact)] at hn
    have hnV : n = V := by exact_mod_cast hn
    constructor
    · rintro - ⟨hV', -⟩
      omega
    · intro _
      exact hnV
  · have hne : n ≠ V := by omega
    have hlast : V = 2 ^ 53 + 1 := by
      by_contra hne'
      have := lt_of_product hs hV hv₀ hsmall hlarge hv (by omega)
      rw [← hn] at this
      have : 2 ^ 53 < n := by exact_mod_cast this
      omega
    have hk : k = 0 := by
      by_contra hk
      obtain ⟨j, rfl⟩ := Nat.exists_eq_succ_of_ne_zero hk
      rw [Nat.pow_succ, ← Nat.mul_assoc] at hV
      omega
    constructor
    · intro h
      exact absurd h hne
    · intro h
      exact absurd ⟨hlast, hk⟩ h

/-- A significand that lost digits gives no accepted product. -/
theorem lt_of_large_product {s k : ℕ} {p v₀ v : ℚ} (hs : 10 ^ 18 ≤ s)
    (hv₀ : RoundsTo .binary64 s v₀) (hsmall : k ≤ 22 → p = 10 ^ k) (hlarge : 22 < k → 10 ^ 22 ≤ p)
    (hv : RoundsTo .binary64 (v₀ * p) v) : 2 ^ 53 < v := by
  refine lt_of_product (V := s * 10 ^ k) (by omega) rfl hv₀ hsmall hlarge hv ?_
  have : s ≤ s * 10 ^ k := Nat.le_mul_of_pos_right s (Nat.pow_pos (by omega))
  omega

/-! ## Quotients -/

theorem unitOf_mul_le {s : ℕ} (hs : 2 ^ 52 ≤ s) : unitOf s * 2 ^ 52 ≤ s := by
  have hne : s ≠ 0 := by omega
  have hlog : 52 ≤ s.log2 := (Nat.le_log2 hne).mpr hs
  unfold unitOf
  rw [← Nat.pow_add, Nat.sub_add_cancel hlog]
  exact Nat.log2_self_le hne

/-- The rounding error of a number is small against it. -/
theorem roundingError_le (s : ℕ) : roundingError s * 2 ^ 53 ≤ s := by
  have hunit : 0 < unitOf s := Nat.two_pow_pos _
  have hmod := Nat.mod_lt s hunit
  have htwice : 2 * roundingError s ≤ unitOf s := by
    unfold roundingError
    omega
  by_cases hs : 2 ^ 52 ≤ s
  · calc roundingError s * 2 ^ 53 = 2 * roundingError s * 2 ^ 52 := by ring
      _ ≤ unitOf s * 2 ^ 52 := Nat.mul_le_mul_right _ htwice
      _ ≤ s := unitOf_mul_le hs
  · have hone : unitOf s = 1 := by
      have : s.log2 - 52 = 0 := by
        by_cases hzero : s = 0
        · subst hzero
          rfl
        · have := (Nat.log2_lt hzero).mpr (Nat.lt_of_not_le hs)
          omega
      rw [unitOf, this, Nat.pow_zero]
    have hzero : roundingError s = 0 := by omega
    rw [hzero, Nat.zero_mul]
    exact Nat.zero_le s

/-- A quotient is as far from the whole number as the significand was moved. -/
theorem abs_quotient_sub {s k V : ℕ} {v₀ : ℚ} (hV : s = V * 10 ^ k)
    (hv₀ : RoundsTo .binary64 s v₀) :
    |v₀ / 10 ^ k - V| = (roundingError s : ℚ) / 10 ^ k := by
  obtain ⟨m, rfl, hm⟩ := hv₀.moved
  have hpow : (0 : ℚ) < 10 ^ k := by positivity
  have hsplit : ((m * unitOf s : ℕ) : ℚ) / 10 ^ k - V = (((m * unitOf s : ℕ) : ℚ) - s) / 10 ^ k := by
    rw [hV]
    push_cast
    field_simp
  rw [hsplit, abs_div, abs_of_pos hpow]
  congr 1
  rcases hm with hm | hm
  · rw [hm]
    push_cast
    rw [add_sub_cancel_left, abs_of_nonneg (Nat.cast_nonneg _)]
  · have : ((m * unitOf s : ℕ) : ℚ) - s = -(roundingError s : ℚ) := by
      have : (s : ℚ) = ((m * unitOf s + roundingError s : ℕ) : ℚ) := by rw [hm]
      rw [this]
      push_cast
      ring
    rw [this, abs_neg, abs_of_nonneg (Nat.cast_nonneg _)]

/-- The error of a number with superfluous places is no half of a place. -/
theorem two_mul_roundingError_ne {V k : ℕ} (hV : 2 ^ 52 ≤ V) {v₀ : ℚ}
    (hv₀ : RoundsTo .binary64 (V * 10 ^ k : ℕ) v₀) : 2 * roundingError (V * 10 ^ k) ≠ 10 ^ k := by
  intro htie
  obtain ⟨m, -, hm⟩ := hv₀.moved
  have hten : 10 ^ k = 2 ^ k * 5 ^ k := by rw [← Nat.mul_pow]
  have hnum : 2 ^ k ∣ V * 10 ^ k := Dvd.dvd.mul_left (hten ▸ Nat.dvd_mul_right _ _) V
  have hlog : 52 + k ≤ (V * 10 ^ k).log2 := by
    have hpos : 0 < 10 ^ k := Nat.pow_pos (by omega)
    refine (Nat.le_log2 (Nat.mul_ne_zero (by omega) hpos.ne')).mpr ?_
    rw [Nat.pow_add]
    exact Nat.mul_le_mul hV (Nat.pow_le_pow_left (by omega) k)
  have hunit : 2 ^ k ∣ m * unitOf (V * 10 ^ k) :=
    Dvd.dvd.mul_left (Nat.pow_dvd_pow 2 (by omega)) m
  have herr : 2 ^ k ∣ roundingError (V * 10 ^ k) := by
    rcases hm with hm | hm
    · rw [hm] at hunit
      exact (Nat.dvd_add_right hnum).mp hunit
    · rw [← hm] at hnum
      exact (Nat.dvd_add_right hunit).mp hnum
  obtain ⟨c, hc⟩ := herr
  rw [hc, hten, ← Nat.mul_assoc, Nat.mul_comm 2, Nat.mul_assoc] at htie
  have hodd := Nat.eq_of_mul_eq_mul_left (Nat.two_pow_pos k) htie
  have : 5 ^ k % 2 = 1 := by
    rw [Nat.pow_mod]
    simp
  omega

/-- What is above `2 ^ 53 + 1` is rounded above `2 ^ 53`. -/
theorem RoundsTo.lt_of_lt {y v : ℚ} (h : RoundsTo .binary64 y v) (hy : 2 ^ 53 + 1 < y) :
    2 ^ 53 < v := by
  by_cases hlarge : y < 2 ^ 54
  · obtain ⟨e, m, hunit, hm, rfl⟩ := h
    have he := two_zpow_pos e
    have hbits : (Format.binary64.mantissaBits : ℤ) = 53 := rfl
    have hupper : (2 : ℚ) ^ (53 : ℤ) < 2 ^ (e + 53) := by
      have h₁ : (2 : ℚ) ^ (53 : ℤ) < y := by
        have : (2 : ℚ) ^ (53 : ℤ) = 2 ^ 53 := by exact_mod_cast rfl
        linarith
      have h₂ := hunit.lt
      rw [hbits] at h₂
      linarith
    have hpos := two_zpow_lt.mp hupper
    have hlower := hunit.double_le (by omega)
    have hlarge' : y < (2 : ℚ) ^ (54 : ℤ) := by exact_mod_cast hlarge
    have hle := two_zpow_lt.mp (lt_of_le_of_lt hlower hlarge')
    have hone : e = 1 := by omega
    subst hone
    rw [zpow_one] at hm ⊢
    have hdist : |y / 2 - m| ≤ 1 / 2 := by rcases hm with h | h <;> linarith [h]
    have := (abs_le.mp hdist).2
    linarith
  · have hrep : Representable .binary64 (2 ^ 54) := by
      exact_mod_cast representable_two_zpow (by norm_num : -1074 ≤ (54 : ℤ))
    have := h.ge_of_ge hrep (not_lt.mp hlarge)
    linarith

/-- A number that is rounded up stays above its bound, and so do larger ones. -/
theorem lt_of_rounded_up {s t j : ℕ} {v₀ : ℚ} (hlow : 2 ^ (52 + j) ≤ t) (hhigh : t < 2 ^ (53 + j))
    (hts : t ≤ s) (hup : ∀ m, 2 * t ≤ 2 * (m * 2 ^ j) + 2 ^ j → t < m * 2 ^ j)
    (hv₀ : RoundsTo .binary64 s v₀) : (t : ℚ) < v₀ := by
  by_cases hs : s < 2 ^ (53 + j)
  · have hne : s ≠ 0 := by
      have := Nat.two_pow_pos (52 + j)
      omega
    have hlog : s.log2 = 52 + j := by
      rw [Nat.log2_eq_iff hne]
      exact ⟨hlow.trans hts, by rwa [Nat.add_right_comm]⟩
    obtain ⟨m, hv, hm, -⟩ := hv₀.multiple
    unfold unitOf at hv hm
    rw [hlog, Nat.add_sub_cancel_left] at hv hm
    rw [hv]
    exact_mod_cast hup m (by omega)
  · have hrep : Representable .binary64 (2 ^ (53 + j) : ℕ) := by
      exact_mod_cast representable_two_zpow (by omega : -1074 ≤ ((53 + j : ℕ) : ℤ))
    have := hv₀.ge_of_ge hrep (by exact_mod_cast not_lt.mp hs)
    refine lt_of_lt_of_le ?_ this
    exact_mod_cast hhigh

/-- Above `2 ^ 53` no quotient is accepted. -/
theorem lt_of_quotient {s k V : ℕ} {v₀ v : ℚ} (hs : s < 2 ^ 64) (hk : 0 < k) (hV : s = V * 10 ^ k)
    (hv₀ : RoundsTo .binary64 s v₀) (hv : RoundsTo .binary64 (v₀ / 10 ^ k) v)
    (hge : 2 ^ 53 < V) : 2 ^ 53 < v := by
  have hle : (2 ^ 53 + 1) * 10 ^ k ≤ s := hV ▸ Nat.mul_le_mul_right _ hge
  have hk3 : k ≤ 3 := by
    by_contra hgt
    have : 10 ^ 4 ≤ 10 ^ k := Nat.pow_le_pow_right (by omega) (by omega)
    omega
  have hsignificand : (((2 ^ 53 + 1) * 10 ^ k : ℕ) : ℚ) < v₀ := by
    obtain rfl | rfl | rfl : k = 1 ∨ k = 2 ∨ k = 3 := by omega
    · exact lt_of_rounded_up (j := 4) (by decide) (by decide) hle (by intro m; omega) hv₀
    · exact lt_of_rounded_up (j := 7) (by decide) (by decide) hle (by intro m; omega) hv₀
    · exact lt_of_rounded_up (j := 10) (by decide) (by decide) hle (by intro m; omega) hv₀
  refine RoundsTo.lt_of_lt hv ?_
  have hpow : (0 : ℚ) < 10 ^ k := by positivity
  rw [lt_div_iff₀ hpow]
  exact_mod_cast hsignificand

/-- A quotient that is whole, or below all units of one, is accepted unchanged. -/
theorem quotient_exact_of_small {s k V n : ℕ} {v₀ : ℚ} (hs : s < 2 ^ 64) (hk : 0 < k)
    (hV : s = V * 10 ^ k) (hv₀ : RoundsTo .binary64 s v₀)
    (hv : RoundsTo .binary64 (v₀ / 10 ^ k) n) (hsmall : V < 2 ^ 52 ∨ V = 2 ^ 53) : n = V := by
  have hpow : (0 : ℚ) < 10 ^ k := by positivity
  rcases hsmall with hV52 | hV53
  · have hclose : |v₀ / 10 ^ k - V| ≤ 1 / 2 := by
      have herr : ((roundingError s * 2 ^ 53 : ℕ) : ℚ) ≤ (V * 10 ^ k : ℕ) := by
        rw [← hV]
        exact_mod_cast roundingError_le s
      have hVq : (V : ℚ) ≤ 2 ^ 52 := by exact_mod_cast hV52.le
      have := mul_le_mul_of_nonneg_right hVq hpow.le
      push_cast at herr
      rw [abs_quotient_sub hV hv₀, div_le_iff₀ hpow]
      linarith
    obtain ⟨h₁, h₂⟩ := abs_le.mp hclose
    have hle := hv.le_of_le (representable_half (n := 2 * V + 1) (by omega))
      (by push_cast; linarith)
    have hlt : (n : ℚ) < V + 1 := by
      push_cast at hle
      linarith
    have hlt' : n < V + 1 := by exact_mod_cast hlt
    by_contra hne
    have hbelow : n + 1 ≤ V := by omega
    have hcast : ((2 * V - 1 : ℕ) : ℚ) = 2 * V - 1 := by
      push_cast [Nat.cast_sub (by omega : 1 ≤ 2 * V)]
      ring
    have hge := hv.ge_of_ge (representable_half (n := 2 * V - 1) (by omega))
      (by rw [hcast]; linarith)
    rw [hcast] at hge
    have : (n : ℚ) + 1 ≤ V := by exact_mod_cast hbelow
    linarith
  · have hk3 : k ≤ 22 := by
      by_contra hgt
      have : 10 ^ 23 ≤ 10 ^ k := Nat.pow_le_pow_right (by omega) (by omega)
      rw [hV53] at hV
      omega
    have hexact : Representable .binary64 (s : ℚ) := by
      refine ⟨5 ^ k, (53 + k : ℕ), ?_, ?_, ?_⟩
      · exact le_trans (Nat.pow_le_pow_right (by omega) hk3) (by decide)
      · have hmin := minExponent_binary64
        omega
      · have hten : (10 : ℚ) = 2 * 5 := by norm_num
        rw [hV, hV53, zpow_natCast, pow_add]
        push_cast
        rw [hten, mul_pow]
        ring
    have hquotient : v₀ / 10 ^ k = (V : ℕ) := by
      rw [hv₀.eq_of_representable hexact, hV]
      push_cast
      field_simp
    rw [hquotient] at hv
    have := hv.eq_of_representable (representable_of_le (by omega))
    exact_mod_cast this

/-- **A quotient is accepted unchanged**, unless its significand was moved by
more than half of the last whole place. -/
theorem quotient_exact_iff {s k V n : ℕ} {v₀ v : ℚ} (hs : s < 2 ^ 64) (hk : 0 < k)
    (hV : s = V * 10 ^ k) (hv₀ : RoundsTo .binary64 s v₀)
    (hv : RoundsTo .binary64 (v₀ / 10 ^ k) v) (hn : (n : ℚ) = v) (hle : n ≤ 2 ^ 53) :
    n = V ↔ ¬Blurred V k := by
  have hpow : (0 : ℚ) < 10 ^ k := by positivity
  have habs := abs_quotient_sub hV hv₀
  subst hn
  have hVle : V ≤ 2 ^ 53 := by
    by_contra hgt
    have := lt_of_quotient hs hk hV hv₀ hv (Nat.lt_of_not_le hgt)
    have : 2 ^ 53 < n := by exact_mod_cast this
    omega
  by_cases hhigh : 2 ^ 52 ≤ V ∧ V < 2 ^ 53
  · obtain ⟨hlow, hhigh⟩ := hhigh
    have hhalf : (10 ^ k < 2 * roundingError s) ↔ (1 : ℚ) / 2 < |v₀ / 10 ^ k - V| := by
      rw [habs, div_lt_div_iff₀ (by norm_num) hpow, one_mul]
      constructor
      · intro h
        have : ((10 ^ k : ℕ) : ℚ) < ((2 * roundingError s : ℕ) : ℚ) := by exact_mod_cast h
        push_cast at this
        linarith
      · intro h
        have : ((10 ^ k : ℕ) : ℚ) < ((2 * roundingError s : ℕ) : ℚ) := by
          push_cast
          linarith
        exact_mod_cast this
    have hVq : (V : ℚ) + 1 ≤ 2 ^ 53 := by exact_mod_cast hhigh
    by_cases hblurred : 10 ^ k < 2 * roundingError s
    · have hfar := hhalf.mp hblurred
      have hne : n ≠ V := by
        rintro rfl
        by_cases hy : v₀ / 10 ^ k < 2 ^ 53
        · have hnear := hv.near hy
          rw [abs_sub_comm] at hnear
          linarith
        · have hrep : Representable .binary64 (2 ^ 53) := by
            exact_mod_cast representable_of_le (n := 2 ^ 53) le_rfl
          have := hv.ge_of_ge hrep (not_lt.mp hy)
          linarith
      constructor
      · intro h
        exact absurd h hne
      · intro h
        exact absurd ⟨hlow, hhigh, hV ▸ hblurred⟩ h
    · have hne : 2 * roundingError s ≠ 10 ^ k := by
        rw [hV] at hv₀ ⊢
        exact two_mul_roundingError_ne hlow hv₀
      have hclose : |v₀ / 10 ^ k - V| < 1 / 2 := by
        have : ((2 * roundingError s : ℕ) : ℚ) < ((10 ^ k : ℕ) : ℚ) := by
          exact_mod_cast lt_of_le_of_ne (not_lt.mp hblurred) hne
        push_cast at this
        rw [habs, div_lt_iff₀ hpow]
        linarith
      obtain ⟨h₁, h₂⟩ := abs_lt.mp hclose
      have hnear := hv.near (by linarith)
      obtain ⟨h₃, h₄⟩ := abs_le.mp hnear
      have hnV : n = V := by
        have hlt : (n : ℚ) < V + 1 := by linarith
        have hgt : (V : ℚ) < n + 1 := by linarith
        have hlt' : n < V + 1 := by exact_mod_cast hlt
        have hgt' : V < n + 1 := by exact_mod_cast hgt
        omega
      constructor
      · rintro - ⟨-, -, h⟩
        exact hblurred (hV ▸ h)
      · intro _
        exact hnV
  · have hclear : ¬Blurred V k := fun h => hhigh ⟨h.1, h.2.1⟩
    have hnV : n = V := quotient_exact_of_small hs hk hV hv₀ hv (by omega)
    constructor
    · intro _
      exact hclear
    · intro _
      exact hnV

end Chronograph
