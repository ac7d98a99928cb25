import Chronograph.Proofs.Binary.Narrowing
import Chronograph.Proofs.Decimal.Notation

/-!
# How wide a number with places is

A float with some places after the point is a whole number with a point in it: the
whole number nearest to the value times a power of ten (`nearestEven_roundedQuotient`).
So whether it fits a column depends on how many digits that number has.  It has one
too many as soon as the value is halfway to the least number that does, because a power
of ten is even and wins the tie (`NearestEven.lt_even_iff`).

`length_placesText_le_iff` is the resulting bound on the value, in any column that
holds the shortest of all: a sign, a digit, the point and the places.
-/

namespace Chronograph

open Float.Model (UnpackedFloat)
open Float.Model.UnpackedFloat

/-! ## The digits -/

/-- **A rounded quotient is the nearest whole number**, of two the even one. -/
theorem nearestEven_roundedQuotient (num : ℕ) {den : ℕ} (hden : 0 < den) :
    NearestEven (num / den) (roundedQuotient num den) := by
  have hpos : (0 : ℚ) < den := by exact_mod_cast hden
  have hquotient : (num : ℚ) / den = (num / den : ℕ) + ((num % den : ℕ) : ℚ) / den := by
    have hsplit : (num : ℚ) = (num / den : ℕ) * den + (num % den : ℕ) := by
      exact_mod_cast (Nat.div_add_mod' num den).symm
    rw [hsplit, add_div, mul_div_cancel_right₀ _ hpos.ne']
  have hrest : (0 : ℚ) ≤ ((num % den : ℕ) : ℚ) / den := by positivity
  have hone : ((num % den : ℕ) : ℚ) / den < 1 := by
    rw [div_lt_one hpos]
    exact_mod_cast Nat.mod_lt num hden
  unfold roundedQuotient
  rw [hquotient]
  obtain hcmp | hcmp | hcmp := lt_trichotomy (2 * (num % den)) den
  · rw [compare_lt_iff_lt.mpr hcmp]
    have hhalf : ((num % den : ℕ) : ℚ) / den < 1 / 2 := by
      rw [div_lt_div_iff₀ hpos two_pos]
      exact_mod_cast (by omega : num % den * 2 < 1 * den)
    left
    rw [add_sub_cancel_left, abs_of_nonneg hrest]
    exact hhalf
  · rw [compare_eq_iff_eq.mpr hcmp]
    have hhalf : ((num % den : ℕ) : ℚ) / den = 1 / 2 := by
      rw [div_eq_div_iff hpos.ne' two_ne_zero]
      exact_mod_cast (by omega : num % den * 2 = 1 * den)
    right
    rw [hhalf]
    dsimp only
    rcases Nat.mod_two_eq_zero_or_one (num / den) with heven | hodd
    · rw [heven, Nat.add_zero]
      refine ⟨?_, heven⟩
      rw [add_sub_cancel_left, abs_of_nonneg (by norm_num)]
    · rw [hodd]
      refine ⟨?_, by omega⟩
      push_cast
      rw [add_sub_add_left_eq_sub]
      norm_num
  · rw [compare_gt_iff_gt.mpr hcmp]
    have hhalf : 1 / 2 < ((num % den : ℕ) : ℚ) / den := by
      rw [div_lt_div_iff₀ two_pos hpos]
      exact_mod_cast (by omega : 1 * den < num % den * 2)
    left
    push_cast
    rw [add_sub_add_left_eq_sub, abs_sub_comm, abs_of_nonneg (by linarith)]
    linarith

/-- A rational has its nearest whole number below an even one up to halfway below that. -/
theorem NearestEven.lt_even_iff {y : ℚ} {n b : ℕ} (h : NearestEven y n) (hb : b % 2 = 0) :
    n < b ↔ y < b - 1 / 2 := by
  have hnear : |y - n| ≤ 1 / 2 := by rcases h with h | h <;> linarith [h]
  obtain ⟨hlow, hhigh⟩ := abs_le.mp hnear
  constructor
  · intro hlt
    have hle : (n : ℚ) + 1 ≤ b := by exact_mod_cast hlt
    refine lt_of_le_of_ne (by linarith) ?_
    intro htie
    -- halfway below an even number the nearest one below is odd
    rcases h with h | ⟨-, heven⟩
    · have := (abs_lt.mp h).2
      linarith
    · have hnext : (n : ℚ) + 1 = b := by linarith
      have : n + 1 = b := by exact_mod_cast hnext
      omega
  · intro hy
    have hlt : (n : ℚ) < b := by linarith
    exact_mod_cast hlt

/-- The digits of a number are as many as it takes. -/
theorem length_digitsOf_le_iff {n k : ℕ} (hk : 0 < k) : (digitsOf n).length ≤ k ↔ n < 10 ^ k := by
  constructor
  · intro h
    have hlt := digitsValue_lt (allDigits_digitsOf n)
    rw [digitsValue_digitsOf] at hlt
    exact lt_of_lt_of_le hlt (Nat.pow_le_pow_right (by omega) h)
  · exact Nat.toDigits_length 10 n k hk

/-! ## The text -/

theorem length_pointed (places : ℕ) (digits : List Char) :
    (pointed places digits).length = max (places + 1) digits.length + 1 := by
  unfold pointed
  simp only [List.length_append, List.length_cons, List.length_take, List.length_drop,
    List.length_replicate]
  omega

theorem mem_pointed {places : ℕ} {digits : List Char} {c : Char} (h : c ∈ pointed places digits) :
    c = '0' ∨ c = '.' ∨ c ∈ digits := by
  unfold pointed at h
  rcases List.mem_append.mp h with h | h
  · rcases List.mem_append.mp (List.mem_of_mem_take h) with h | h
    · exact .inl (List.mem_replicate.mp h).2
    · exact .inr (.inr h)
  · rcases List.mem_cons.mp h with rfl | h
    · exact .inr (.inl rfl)
    · rcases List.mem_append.mp (List.mem_of_mem_drop h) with h | h
      · exact .inl (List.mem_replicate.mp h).2
      · exact .inr (.inr h)

/-- No number is written with a line break. -/
theorem newline_not_mem_placesText (places : ℕ) (u : UnpackedFloat) :
    '\n' ∉ placesText places u := by
  have hfixed (s : Sign) (m : ℕ) (e : ℤ) : '\n' ∉ signText s ++ fixedPlaces places m e := by
    intro h
    rcases List.mem_append.mp h with h | h
    · cases s <;> revert h <;> decide
    · rcases mem_pointed h with h | h | h
      · exact absurd h (by decide)
      · exact absurd h (by decide)
      · exact absurd (allDigits_digitsOf _ _ h) (by decide)
  cases u with
  | notANumber =>
      show '\n' ∉ "NaN".toList
      decide
  | infinity s =>
      show '\n' ∉ signText s ++ "inf".toList
      cases s <;> decide
  | zero s => exact hfixed s 0 0
  | finite s m e hm => exact hfixed s m e

/-- A value with places is the nearest whole number of the last place. -/
theorem exists_fixedPlaces_eq (places m : ℕ) (e : ℤ) :
    ∃ n, NearestEven (m * 2 ^ e * 10 ^ places) n ∧
      fixedPlaces places m e = pointed places (digitsOf n) := by
  have hden : 0 < 2 ^ (-e).toNat := Nat.two_pow_pos _
  refine ⟨_, ?_, rfl⟩
  have hnear := nearestEven_roundedQuotient (m * 2 ^ e.toNat * 10 ^ places) hden
  have hsplit : (2 : ℚ) ^ e = 2 ^ e.toNat / 2 ^ (-e).toNat := by
    rw [← zpow_natCast, ← zpow_natCast, ← zpow_sub₀ two_ne_zero]
    exact congrArg _ (by omega)
  have hvalue : (m : ℚ) * 2 ^ e * 10 ^ places =
      ((m * 2 ^ e.toNat * 10 ^ places : ℕ) : ℚ) / ((2 ^ (-e).toNat : ℕ) : ℚ) := by
    push_cast
    rw [hsplit]
    ring
  rw [hvalue]
  exact hnear

/-- How long the digits of a value with places are. -/
theorem length_fixedPlaces_le_iff {places m w : ℕ} {e : ℤ} (hw : places + 2 ≤ w) :
    (fixedPlaces places m e).length ≤ w ↔
      (m : ℚ) * 2 ^ e < (10 ^ (w - 1) - 1 / 2) / 10 ^ places := by
  obtain ⟨n, hn, htext⟩ := exists_fixedPlaces_eq places m e
  have heven : 10 ^ (w - 1) % 2 = 0 := by
    exact Nat.even_iff.mp ((by decide : Even 10).pow_of_ne_zero (by omega))
  rw [htext, length_pointed, lt_div_iff₀ (by positivity)]
  have hdigits : max (places + 1) (digitsOf n).length + 1 ≤ w ↔ (digitsOf n).length ≤ w - 1 := by
    omega
  rw [hdigits, length_digitsOf_le_iff (by omega), hn.lt_even_iff heven]
  push_cast
  exact Iff.rfl

/-- **A number that is not negative fits a column** exactly if it is less than halfway to
the least number with too many digits. -/
theorem length_placesText_le_iff {places w : ℕ} {u : UnpackedFloat} {q : ℚ}
    (hu : exactValue? u = some q) (hq : 0 ≤ q) (hw : places + 3 ≤ w) :
    (placesText places u).length ≤ w ↔ q < (10 ^ (w - 1) - 1 / 2) / 10 ^ places := by
  cases u with
  | notANumber => cases hu
  | infinity s => cases hu
  | zero s =>
      obtain rfl : 0 = q := Option.some.inj hu
      have hsmall : (0 : ℚ) < (10 ^ (w - 1) - 1 / 2) / 10 ^ places := by
        have hone : (1 : ℚ) ≤ 10 ^ (w - 1) := one_le_pow₀ (by norm_num)
        exact div_pos (by linarith) (by positivity)
      have hlength : (fixedPlaces places 0 0).length ≤ w - 1 := by
        rw [length_fixedPlaces_le_iff (by omega), Nat.cast_zero, zero_mul]
        have hone : (1 : ℚ) ≤ 10 ^ (w - 1 - 1) := one_le_pow₀ (by norm_num)
        exact div_pos (by linarith) (by positivity)
      refine iff_of_true ?_ hsmall
      rw [placesText, List.length_append]
      have hsign : (signText s).length ≤ 1 := by cases s <;> decide
      omega
  | finite s m e hm =>
      obtain rfl : withSign s (m * 2 ^ e) = q := Option.some.inj hu
      cases s with
      | negative =>
          have hpos : (0 : ℚ) < m * 2 ^ e := mul_pos (by exact_mod_cast hm) (two_zpow_pos e)
          exact absurd hq (not_le.mpr (neg_neg_of_pos hpos))
      | positive => exact length_fixedPlaces_le_iff (by omega)

end Chronograph
