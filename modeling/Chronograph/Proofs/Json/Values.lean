import Chronograph.Json.Reader
import Chronograph.Proofs.Binary.Narrowing
import Chronograph.Proofs.Json.Significands

/-!
# Values of JSON numbers

A JSON number is one rational, whichever kind it is of (`Number.value?`), unless it is
a float that is not finite.  Two conversions start from that value: the whole number
that a number stands for, and the double-width float that is nearest to it.

No text is read as a number without a value (`readNumber_value`): a product with a
power of ten that becomes infinite is refused, and a quotient only gets smaller.
-/

namespace Chronograph.Json

/-! ## Exact values -/

namespace Number

/-- The rational that a JSON number is, if it is finite. -/
def value? : Number → Option ℚ
  | natural n => some n.toNat
  | negative n => some n.toInt
  | float x => exactValue? x.toModel.unpack

/-- A JSON number is a whole number, of which a float is sure up to `2 ^ 53`. -/
def StandsFor (n : Number) (v : ℤ) : Prop :=
  n.value? = some (v : ℚ) ∧ ∀ x, n = .float x → |v| ≤ 2 ^ 53

theorem wholeValue?_eq_some_iff {n : Number} {v : ℤ} :
    n.wholeValue? = some v ↔ n.StandsFor v := by
  cases n with
  | natural k =>
      simp only [wholeValue?, StandsFor, value?, Option.some.injEq, reduceCtorEq, false_implies,
        implies_true, and_true]
      exact_mod_cast Iff.rfl
  | negative k =>
      simp only [wholeValue?, StandsFor, value?, Option.some.injEq, reduceCtorEq, false_implies,
        implies_true, and_true]
      exact_mod_cast Iff.rfl
  | float x =>
      have hlimit : v.natAbs ≤ exactLimit ↔ |v| ≤ 2 ^ 53 := by
        have : exactLimit = 2 ^ 53 := rfl
        rw [this, Int.abs_eq_natAbs]
        omega
      simp [wholeValue?, StandsFor, value?, Option.filter_eq_some_iff,
        Chronograph.wholeValue?_eq_some_iff, hlimit]

/-- A double-width float is nearest to a JSON number.  That of a negative number is the
float nearest to its magnitude, with the sign turned. -/
inductive NearestDouble : Number → Float → Prop
  | natural {n : UInt64} {x : Float} {v : ℚ} (hround : RoundsTo .binary64 n.toNat v)
      (hx : HasValue x v) : NearestDouble (.natural n) x
  | negative {n : Int64} {x : Float} {v : ℚ} (hround : RoundsTo .binary64 n.toInt.natAbs v)
      (hx : HasValue x v) : NearestDouble (.negative n) (-x)
  | float (x : Float) : NearestDouble (.float x) x

theorem nearestDouble_toFloat (n : Number) : n.NearestDouble n.toFloat := by
  cases n with
  | natural k =>
      obtain ⟨v, hround, hvalue⟩ := significand_value k.toNat_lt
      rw [Nat.toUInt64_eq, UInt64.ofNat_toNat] at hvalue
      exact .natural hround hvalue
  | negative k =>
      have hlow := k.le_toInt
      have hhigh := k.toInt_lt
      have hlimit : significandLimit = 2 ^ 64 := rfl
      obtain ⟨v, hround, hvalue⟩ := significand_value (s := k.toInt.natAbs) (by omega)
      exact .negative hround hvalue
  | float x => exact .float x

end Number

theorem Number.NearestDouble.eq_zero_iff {n : Number} {x : Float} (h : n.NearestDouble x) :
    exactValue? x.toModel.unpack = some 0 ↔ n.value? = some 0 := by
  cases h with
  | natural hround hx =>
      rw [hx.hasMagnitude.exactValue?]
      simp only [withSign, Number.value?, Option.some.injEq]
      rw [hround.eq_zero_iff]
      exact_mod_cast Iff.rfl
  | negative hround hx =>
      rw [hx.hasMagnitude_neg.exactValue?]
      simp only [withSign, Number.value?, Option.some.injEq]
      rw [neg_eq_zero, hround.eq_zero_iff, Int.natAbs_eq_zero]
      exact_mod_cast Iff.rfl
  | float x => exact Iff.rfl

/-! ## Numbers that are read -/

/-- Dividing by powers of ten makes no value larger, and so none infinite. -/
theorem overPowerOfTen_value (steps : ℕ) {x : Float} {v : ℚ} (hx : HasValue x v)
    (hv : v ≤ 2 ^ (64 : ℤ)) (k : ℕ) : ∃ w, HasValue (overPowerOfTen steps x k) w := by
  induction steps generalizing x v k with
  | zero => exact ⟨v, hx⟩
  | succ steps ih =>
      have hdiv : ∀ j ≤ 308, ∃ w, HasValue (x / powerOfTen j) w ∧ w ≤ 2 ^ (64 : ℤ) := by
        intro j hj
        obtain ⟨p, hp, hpos, hsmall, hlarge⟩ := powerOfTen_value hj
        have hone : 1 ≤ p := by
          by_cases h : j ≤ 22
          · rw [hsmall h]
            exact one_le_pow₀ (by norm_num)
          · exact le_trans (by norm_num) (hlarge (by omega))
        have hbound := representable_two_zpow (by norm_num : -1074 ≤ (64 : ℤ))
        have hle : v / p ≤ 2 ^ (64 : ℤ) := le_trans (div_le_self hx.nonneg hone) hv
        obtain ⟨w, hround, hw⟩ := (isRounded_div hx hp hpos).hasValue hbound
          (two_zpow_lt.mpr (by norm_num)) hle
        exact ⟨w, hw, hround.le_of_le hbound hle⟩
      unfold overPowerOfTen
      split
      · obtain ⟨w, hw, -⟩ := hdiv k ‹_›
        exact ⟨w, hw⟩
      · split
        · exact ⟨v, hx⟩
        · obtain ⟨w, hw, hle⟩ := hdiv 308 le_rfl
          exact ih hw hle (k - 308)

/-- A float that is made of a significand and a power of ten is finite. -/
theorem floatOfParts_value {negative : Bool} {s : ℕ} {e : ℤ} {x : Float}
    (hs : s < significandLimit) (h : floatOfParts negative s e = .ok x) :
    ∃ y v, HasValue y v ∧ x = signed negative y := by
  by_cases hpos : 0 < s
  · cases e with
    | ofNat k =>
        obtain ⟨y, -, -, v, -, -, -, -, hy, hx⟩ := floatOfParts_times hs hpos h
        exact ⟨y, v, hy, hx⟩
    | negSucc k =>
        obtain ⟨v₀, hround, hx₀⟩ := significand_value hs
        have hs' : (s : ℚ) ≤ 2 ^ (64 : ℤ) := by
          have : s < 2 ^ 64 := hs
          exact_mod_cast this.le
        have hbound := representable_two_zpow (by norm_num : -1074 ≤ (64 : ℤ))
        obtain ⟨w, hw⟩ := overPowerOfTen_value (k + 1) hx₀ (hround.le_of_le hbound hs') (k + 1)
        cases h
        exact ⟨_, w, hw, rfl⟩
  · obtain rfl : s = 0 := by omega
    obtain ⟨y, hy, hx⟩ := floatOfParts_zero h
    exact ⟨y, 0, hy, hx⟩

theorem Number.exists_value_signed {y : Float} {v : ℚ} (h : HasValue y v) (negative : Bool) :
    ∃ q, (Number.float (signed negative y)).value? = some q := by
  cases negative with
  | false => exact ⟨_, h.hasMagnitude.exactValue?⟩
  | true => exact ⟨_, h.hasMagnitude_neg.exactValue?⟩

/-- A whole number that is too large for its kind is a finite float. -/
theorem wholeNumber_exists_value (negative : Bool) {n : ℕ} (hn : n < significandLimit) :
    ∃ q, (wholeNumber negative n).value? = some q := by
  obtain ⟨v, -, hvalue⟩ := significand_value hn
  unfold wholeNumber
  split
  · split
    · exact Number.exists_value_signed hvalue true
    · exact ⟨_, rfl⟩
  · exact ⟨_, rfl⟩

theorem unsignedNumber_value {negative : Bool} {s rest : List Char} {n : Number}
    (h : unsignedNumber negative s = .ok (n, rest)) : ∃ q, n.value? = some q := by
  obtain ⟨r, exponent, -, hn⟩ := unsignedNumber_runs h
  cases hn with
  | inl hwhole =>
      obtain ⟨hplain, hskipped, rfl⟩ := hwhole
      have hfits := r.fits
      rw [(List.append_eq_nil_iff.mp hplain.1).1, List.append_nil] at hfits
      exact wholeNumber_exists_value negative hfits
  | inr hfloat =>
      cases hfloat.2 with
      | inl hparts =>
          obtain ⟨x, rfl, hx, -⟩ := hparts
          obtain ⟨y, v, hy, rfl⟩ := floatOfParts_value r.fits hx
          exact Number.exists_value_signed hy negative
      | inr hlong =>
          obtain ⟨e, -, -, -, rfl⟩ := hlong
          exact Number.exists_value_signed (.inl ⟨rfl, rfl⟩ : HasValue 0.0 0) negative

/-- **Every number that is read has a value.** -/
theorem readNumber_value {s rest : List Char} {n : Number} (h : readNumber s = .ok (n, rest)) :
    ∃ q, n.value? = some q := by
  unfold readNumber readNumberAs at h
  split at h
  · cases h
  · exact unsignedNumber_value h
  · split at h
    · exact unsignedNumber_value h
    · cases h

end Chronograph.Json
