import Chronograph.Proofs.Json.Significands

/-!
# What written whole numbers are accepted as

If the written value is a whole number, then either the digits that were not
taken are all zeros, or the number is far too large to be accepted
(`Runs.keptOrLarge`).  So the significand and its power of ten have the written
value, and `floatOfParts_exact_iff` says what becomes of them.

`unsignedNumber_reads` puts it together: an accepted number is the written one,
except for those that `Numeral.MisreadAs` lists.
-/

namespace Chronograph.Json

/-! ## Digits that were not taken -/

theorem scale_cancel (s j : ℕ) (e : ℤ) : ((s * 10 ^ j : ℕ) : ℚ) * 10 ^ (e - j) = s * 10 ^ e := by
  have hten : (10 : ℚ) ≠ 0 := by norm_num
  rw [zpow_sub₀ hten, zpow_natCast, Nat.cast_mul, Nat.cast_pow, Nat.cast_ofNat]
  field_simp

/-- The last digits of a whole number are zeros, unless they stand before the
point. -/
theorem last_digits_zero {s j d V : ℕ} {e : ℤ} (hd : d < 10 ^ j)
    (h : ((s * 10 ^ j + d : ℕ) : ℚ) * 10 ^ (e - j) = V) : d = 0 ∨ 1 ≤ e := by
  by_cases he : 1 ≤ e
  · exact .inr he
  · left
    obtain ⟨i, rfl⟩ : ∃ i : ℕ, e = -i := ⟨e.natAbs, by omega⟩
    have hsplit : (V : ℚ) * 10 ^ (i + j) = (s * 10 ^ j + d : ℕ) := by
      rw [← h, mul_assoc, ← zpow_natCast (10 : ℚ) (i + j), ← zpow_add₀ (by norm_num)]
      have hcancel : -(i : ℤ) - j + (i + j : ℕ) = 0 := by omega
      rw [hcancel, zpow_zero, mul_one]
    have hnat : V * 10 ^ (i + j) = s * 10 ^ j + d := by exact_mod_cast hsplit
    have hdvd : 10 ^ j ∣ s * 10 ^ j + d := by
      rw [← hnat, Nat.pow_add, ← Nat.mul_assoc]
      exact Nat.dvd_mul_left _ _
    exact Nat.eq_zero_of_dvd_of_lt ((Nat.dvd_add_right (Nat.dvd_mul_left _ _)).mp hdvd) hd

namespace Runs

variable (r : Runs) {negative : Bool} {exponent : Option ℤ} {V : ℕ}

theorem significand_lt : r.significand < significandLimit := r.fits

theorem significand_eq :
    r.significand = digitsValue r.taken * 10 ^ r.fraction.length + digitsValue r.fraction :=
  digitsValue_append _ _

/-- Where digits are missing, the significand is full. -/
theorem full (h : r.skipped ≠ [] ∨ r.cut ≠ []) : significandLimit ≤ r.significand * 10 + 9 := by
  rcases h with hskipped | hcut
  · have hfull := r.full_of_skipped hskipped
    have hpow : digitsValue r.taken ≤ digitsValue r.taken * 10 ^ r.fraction.length :=
      Nat.le_mul_of_pos_right _ (Nat.pow_pos (by omega))
    have := r.significand_eq
    omega
  · exact r.full_of_cut hcut

/-- Behind skipped digits, at most one digit of the fraction is taken. -/
theorem fraction_length_le (h : r.skipped ≠ []) : r.fraction.length ≤ 1 := by
  by_contra hgt
  have hfull := r.full_of_skipped h
  have hfits := r.significand_lt
  have hpow : digitsValue r.taken * 10 ^ 2 ≤ digitsValue r.taken * 10 ^ r.fraction.length :=
    Nat.mul_le_mul_left _ (Nat.pow_le_pow_right (by omega) (by omega))
  have := r.significand_eq
  unfold significandLimit UInt64.size at hfull hfits
  omega

/-- The power of ten of the last digit, from that of the significand. -/
theorem power_numeral : (r.numeral negative exponent).power
    = r.start + exponent.getD 0 - (r.skipped.length + r.cut.length : ℕ) := by
  unfold Numeral.power numeral start
  rw [List.length_append]
  push_cast
  ring

/-- What is left of a number without its missing digits: its value, or a
significand that is far too large to be accepted. -/
def KeptOrLarge (r : Runs) (exponent : Option ℤ) (V : ℕ) : Prop :=
  (r.significand : ℚ) * 10 ^ (r.start + exponent.getD 0) = V ∨
    10 ^ 18 ≤ r.significand ∧ 0 ≤ r.start + exponent.getD 0

/-- Digits that are cut off the fraction only. -/
theorem keptOrLarge_of_cut (hskipped : r.skipped = [])
    (hV : (r.numeral negative exponent).magnitude = V) : r.KeptOrLarge exponent V := by
  have hcutDigits : AllDigits r.cut :=
    (allDigits_append.mp (allDigits_append.mp r.digits).2).2
  have hvalue : (r.numeral negative exponent).digits
      = r.significand * 10 ^ r.cut.length + digitsValue r.cut := by
    unfold Numeral.digits numeral significand
    rw [hskipped, List.append_nil, ← List.append_assoc, digitsValue_append]
  unfold Numeral.magnitude at hV
  rw [r.power_numeral, hvalue, hskipped, List.length_nil, Nat.zero_add] at hV
  rcases last_digits_zero (digitsValue_lt hcutDigits) hV with hzero | hpos
  · left
    rw [hzero, Nat.add_zero, scale_cancel] at hV
    exact hV
  · by_cases hcut : r.cut = []
    · left
      have hzero : digitsValue [] = 0 := rfl
      rw [hcut, hzero, Nat.add_zero, scale_cancel] at hV
      exact hV
    · right
      have hfull := r.full (.inr hcut)
      unfold significandLimit UInt64.size at hfull
      exact ⟨by omega, by omega⟩

/-- Digits of the integer part that are skipped, and all that were not taken
behind them. -/
theorem keptOrLarge_of_skipped (hskipped : r.skipped ≠ [])
    (hV : (r.numeral negative exponent).magnitude = V) : r.KeptOrLarge exponent V := by
  have hdigits := r.digits
  rw [List.append_assoc, allDigits_append] at hdigits
  have hvalue : (r.numeral negative exponent).digits
      = digitsValue r.taken * 10 ^ (r.skipped ++ (r.fraction ++ r.cut)).length
        + digitsValue (r.skipped ++ (r.fraction ++ r.cut)) := by
    unfold Numeral.digits numeral
    rw [List.append_assoc, digitsValue_append]
  have hpower : r.start + exponent.getD 0 - (r.skipped.length + r.cut.length : ℕ)
      = r.skipped.length + exponent.getD 0
        - ((r.skipped ++ (r.fraction ++ r.cut)).length : ℕ) := by
    unfold start
    rw [List.length_append, List.length_append]
    push_cast
    ring
  unfold Numeral.magnitude at hV
  rw [r.power_numeral, hvalue, hpower] at hV
  rcases last_digits_zero (digitsValue_lt hdigits.2) hV with hzero | hpos
  · left
    rw [hzero, Nat.add_zero, scale_cancel] at hV
    have hfraction : digitsValue r.fraction = 0 := by
      rw [digitsValue_append, digitsValue_append] at hzero
      have hpow : digitsValue r.fraction ≤ digitsValue r.fraction * 10 ^ r.cut.length :=
        Nat.le_mul_of_pos_right _ (Nat.pow_pos (by omega))
      omega
    have hstart : r.start + exponent.getD 0
        = r.skipped.length + exponent.getD 0 - r.fraction.length := by
      unfold start
      ring
    rw [r.significand_eq, hfraction, Nat.add_zero, hstart, scale_cancel]
    exact hV
  · right
    have hfull := r.full (.inl hskipped)
    have hlength := r.fraction_length_le hskipped
    unfold significandLimit UInt64.size at hfull
    refine ⟨by omega, ?_⟩
    unfold start
    omega

/-- **Missing digits are zeros**, or they stand before the point of a large
number. -/
theorem keptOrLarge (hV : (r.numeral negative exponent).magnitude = V) :
    r.KeptOrLarge exponent V := by
  by_cases hskipped : r.skipped = []
  · exact r.keptOrLarge_of_cut hskipped hV
  · exact r.keptOrLarge_of_skipped hskipped hV

end Runs

/-! ## The kept digits -/

/-- What becomes of a significand, seen from the last digit that is written. -/
theorem misreadWith_iff {s V j : ℕ} {e : ℤ} (hs : s < significandLimit)
    (hfull : 0 < j → significandLimit ≤ s * 10 + 9) (hV : (s : ℚ) * 10 ^ e = V) :
    MisreadWith V e ↔
      V = 2 ^ 53 + 1 ∧ e - j = 0 ∨ e - j < 0 ∧ Blurred V (min (-(e - j)).toNat 3) := by
  unfold significandLimit UInt64.size at hs hfull
  rcases e with k | k
  · have hnat : V = s * 10 ^ k := by
      rw [Int.ofNat_eq_natCast, zpow_natCast] at hV
      exact_mod_cast hV.symm
    have hle : s ≤ V := hnat ▸ Nat.le_mul_of_pos_right _ (Nat.pow_pos (by omega))
    rw [Int.ofNat_eq_natCast]
    constructor
    · rintro ⟨rfl, rfl⟩
      exact .inl ⟨rfl, by omega⟩
    · rintro (⟨rfl, hj⟩ | ⟨hj, -, hlt, -⟩)
      · exact ⟨rfl, by omega⟩
      · omega
  · have hnat : s = V * 10 ^ (k + 1) := by
      rw [zpow_negSucc, ← div_eq_mul_inv, div_eq_iff (by positivity)] at hV
      exact_mod_cast hV
    have hplaces : 2 ^ 52 ≤ V → V < 2 ^ 53 → min (-(Int.negSucc k - j)).toNat 3 = k + 1 := by
      intro hlow hhigh
      have hmost : k + 1 ≤ 3 := by
        by_contra hgt
        have hpow : V * 10 ^ 4 ≤ V * 10 ^ (k + 1) :=
          Nat.mul_le_mul_left _ (Nat.pow_le_pow_right (by omega) (by omega))
        omega
      have hleast : 0 < j → 3 ≤ k + 1 := by
        intro hj
        by_contra hlt
        have hpow : V * 10 ^ (k + 1) ≤ V * 10 ^ 2 :=
          Nat.mul_le_mul_left _ (Nat.pow_le_pow_right (by omega) (by omega))
        have := hfull hj
        omega
      omega
    constructor
    · intro h
      refine .inr ⟨by omega, ?_⟩
      rw [hplaces h.1 h.2.1]
      exact h
    · rintro (⟨-, hj⟩ | ⟨-, h⟩)
      · omega
      · rw [hplaces h.1 h.2.1] at h
        exact h

/-- **What is misread** of a significand is what is misread of the numeral. -/
theorem Runs.misreadWith_iff (r : Runs) {negative : Bool} {exponent : Option ℤ} {V : ℕ}
    (hplain : (r.numeral negative exponent).Plain → r.skipped ≠ [])
    (hcounted : ∀ e, exponent = some e → e.natAbs < 2 ^ 31)
    (hV : (r.significand : ℚ) * 10 ^ (r.start + exponent.getD 0) = V) :
    MisreadWith V (r.start + exponent.getD 0) ↔ (r.numeral negative exponent).MisreadAs V := by
  by_cases hnot : (r.numeral negative exponent).Plain
  · obtain ⟨k, hk⟩ := Nat.exists_eq_succ_of_ne_zero (mt List.length_eq_zero_iff.mp (hplain hnot))
    obtain ⟨hfraction, hexponent⟩ := hnot
    have hpower : r.start + exponent.getD 0 = .ofNat (k + 1) := by
      have hnone : r.fraction = [] := (List.append_eq_nil_iff.mp hfraction).1
      have hexponent' : exponent = none := hexponent
      unfold start
      rw [hnone, hexponent', hk]
      rfl
    rw [hpower]
    constructor
    · intro h
      exact absurd h.2 (Nat.succ_ne_zero k)
    · intro h
      exact absurd ⟨hfraction, hexponent⟩ h.1
  · have hfull : 0 < r.skipped.length + r.cut.length →
        significandLimit ≤ r.significand * 10 + 9 := by
      intro hpos
      apply r.full
      by_contra hnone
      rw [not_or, not_not, not_not] at hnone
      rw [hnone.1, hnone.2] at hpos
      exact absurd hpos (by simp)
    have hpower : (r.numeral negative exponent).power = _ := r.power_numeral
    rw [Json.misreadWith_iff r.significand_lt hfull hV, ← hpower]
    unfold Numeral.MisreadAs
    constructor
    · rintro (h | h)
      · exact ⟨hnot, .inl h⟩
      · exact ⟨hnot, .inr (.inl h)⟩
    · rintro ⟨-, h | h | ⟨-, e, he, hsmall⟩⟩
      · exact .inl h
      · exact .inr h
      · have := hcounted e he
        omega

/-- A number with an exponent that is not counted becomes a zero. -/
theorem Runs.eq_zero_iff_of_uncounted (r : Runs) {negative : Bool} {e : ℤ} {V : ℕ}
    (hlong : 2 ^ 31 ≤ e.natAbs) (hzero : r.significand = 0 ∨ e < 0)
    (hV : (r.numeral negative (some e)).magnitude = V) :
    V = 0 ↔ ¬(r.numeral negative (some e)).MisreadAs V := by
  constructor
  · rintro rfl ⟨-, ⟨h, -⟩ | ⟨-, h, -⟩ | ⟨h, -⟩⟩
    · omega
    · omega
    · exact h rfl
  · intro h
    by_contra hV0
    apply h
    refine ⟨fun hplain => Option.some_ne_none e hplain.2, .inr (.inr ⟨hV0, e, rfl, ?_⟩)⟩
    rcases hzero with hs | hneg
    · exfalso
      rcases r.keptOrLarge hV with hkept | ⟨hlarge, -⟩
      · rw [hs, Nat.cast_zero, zero_mul] at hkept
        exact hV0 (by exact_mod_cast hkept.symm)
      · omega
    · omega

/-! ## Plain numbers -/

/-- A plain number of which nothing was skipped has the value of its digits. -/
theorem Runs.magnitude_of_plain (r : Runs) {negative : Bool} {exponent : Option ℤ}
    (hskipped : r.skipped = []) (hplain : (r.numeral negative exponent).Plain) :
    (r.numeral negative exponent).magnitude = (digitsValue r.taken : ℕ) ∧
      digitsValue r.taken < significandLimit := by
  obtain ⟨hfraction, rfl⟩ : r.fraction ++ r.cut = [] ∧ exponent = none := hplain
  constructor
  · unfold Numeral.magnitude Numeral.digits Numeral.power numeral
    rw [hskipped, hfraction, List.append_nil, List.append_nil, List.length_nil, Option.getD_none,
      Nat.cast_zero, sub_zero, zpow_zero, mul_one]
  · have hfits := r.fits
    rwa [(List.append_eq_nil_iff.mp hfraction).1, List.append_nil] at hfits

/-- A plain number that fits is accepted as it is, if it is accepted. -/
theorem wholeNumber_value {negative : Bool} {n : ℕ} {w : ℤ} (hn : n < significandLimit)
    (hw : (wholeNumber negative n).wholeValue? = some w) : w = signedInt negative n := by
  unfold wholeNumber at hw
  cases negative with
  | false =>
      rw [if_neg Bool.false_ne_true] at hw
      have hword : n.toUInt64.toNat = n := UInt64.toNat_ofNat_of_lt hn
      have hvalue : some ((n.toUInt64.toNat : ℕ) : ℤ) = some w := hw
      rw [hword] at hvalue
      exact (Option.some.inj hvalue).symm
  | true =>
      rw [if_pos rfl] at hw
      by_cases hfloat : n = 0 ∨ Nat.pow 2 63 < n
      · rw [if_pos hfloat] at hw
        have hsigned : (Number.float (signed true n.toUInt64.toFloat)).wholeValue? = some w := hw
        obtain ⟨v, hround, hv⟩ := significand_value hn
        obtain ⟨m, hm, hle, rfl⟩ := (wholeValue?_float hv).mp hsigned
        rcases hfloat with rfl | hlarge
        · have hzero := hround.eq_of_representable (representable_of_le (Nat.zero_le _))
          rw [hzero] at hm
          rw [Nat.cast_injective hm]
        · have hbound := representable_two_zpow (by norm_num : -1074 ≤ (63 : ℤ))
          have hlarge' : 2 ^ 63 ≤ n := Nat.le_of_lt hlarge
          have hge := hround.ge_of_ge hbound (by exact_mod_cast hlarge')
          rw [← hm] at hge
          have : 2 ^ 63 ≤ m := by exact_mod_cast hge
          omega
      · rw [if_neg hfloat] at hw
        rw [not_or] at hfloat
        have hle : n ≤ 2 ^ 63 := Nat.le_of_not_lt hfloat.2
        have hword : (Int64.ofInt (-(n : ℤ))).toInt = -(n : ℤ) :=
          Int64.toInt_ofInt_of_le (by omega) (by omega)
        have hvalue : some (Int64.ofInt (-(n : ℤ))).toInt = some w := hw
        rw [hword] at hvalue
        exact (Option.some.inj hvalue).symm

/-! ## All numbers -/

/-- **An accepted number is the one that was written**, unless that is misread. -/
theorem unsignedNumber_reads {negative : Bool} {s rest : List Char} {n : Number}
    (h : unsignedNumber negative s = .ok (n, rest)) :
    ∃ written, numeralFrom negative s = .ok (written, rest) ∧
      ∀ w, n.wholeValue? = some w → written.ReadAs w := by
  obtain ⟨r, exponent, hread, hn⟩ := unsignedNumber_runs h
  refine ⟨r.numeral negative exponent, hread, ?_⟩
  intro w hw
  apply Numeral.readAs_of_magnitude
  intro V hV
  show w = signedInt negative V ↔ _
  rcases hn with ⟨hplain, hskipped, rfl⟩ | ⟨hplain, houtcome⟩
  · obtain ⟨hvalue, hfits⟩ := r.magnitude_of_plain hskipped hplain
    rw [hvalue] at hV
    rw [← Nat.cast_injective hV]
    constructor
    · intro _ hmisread
      exact hmisread.1 hplain
    · intro _
      exact wholeNumber_value hfits hw
  · rcases houtcome with ⟨x, rfl, hparts, hcounted⟩ | ⟨e, rfl, hlong, hzero, rfl⟩
    · have hkept : (r.significand : ℚ) * 10 ^ (r.start + exponent.getD 0) = V := by
        rcases r.keptOrLarge hV with hkept | ⟨hlarge, hpos⟩
        · exact hkept
        · obtain ⟨k, hk⟩ := Int.eq_ofNat_of_zero_le hpos
          rw [hk] at hparts
          rw [floatOfParts_large r.significand_lt hlarge hparts] at hw
          cases hw
      rw [← r.misreadWith_iff hplain hcounted hkept]
      exact floatOfParts_exact_iff r.significand_lt hkept hparts hw
    · obtain ⟨m, hm, -, rfl⟩ := (wholeValue?_float (.inl ⟨rfl, rfl⟩ : HasValue 0.0 0)).mp hw
      have hm0 : m = 0 := by exact_mod_cast hm
      rw [signedInt_inj, hm0, eq_comm]
      exact r.eq_zero_iff_of_uncounted hlong hzero hV

end Chronograph.Json
