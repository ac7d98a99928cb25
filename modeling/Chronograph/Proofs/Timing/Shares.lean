import Chronograph.Proofs.Binary.Order
import Chronograph.Proofs.Timing.Summary

/-!
# Shares are percentages

If all means of an average are finite and not negative, each of its rows has a share
from zero to a hundred (`sound_summaryRows`), in spite of all rounding: a sum that is
rounded is no less than its summands, because these are floats themselves, and so no
mean is larger than the total (`covers_sumOf`).  A total that is too large for a float
is infinite, and then all shares are zero.
-/

namespace Chronograph

open Float.Model (Format UnpackedFloat)
open Float.Model.UnpackedFloat

/-! ## Finite floats that are not negative -/

/-- A float is finite and this rational, which is not negative. -/
def IsAmount (x : Float) (q : ℚ) : Prop := exactValue? x.toModel.unpack = some q ∧ 0 ≤ q

theorem isAmount_zero : IsAmount 0.0 0 := ⟨rfl, le_rfl⟩

theorem isAmount_negative_zero : IsAmount (-0.0) 0 := ⟨rfl, le_rfl⟩

theorem HasValue.isAmount {x : Float} {q : ℚ} (h : HasValue x q) : IsAmount x q := by
  refine ⟨?_, h.nonneg⟩
  rcases h with ⟨hx, rfl⟩ | ⟨m, e, hm, hx, rfl⟩
  · rw [hx]
    rfl
  · rw [hx]
    rfl

/-- An amount is one of the two zeros, or positive. -/
theorem IsAmount.zero_or_hasValue {x : Float} {q : ℚ} (h : IsAmount x q) :
    (∃ s, x.toModel.unpack = .zero s) ∧ q = 0 ∨ HasValue x q ∧ 0 < q := by
  obtain ⟨hx, hq⟩ := h
  cases hunpack : x.toModel.unpack with
  | notANumber => rw [hunpack] at hx; cases hx
  | infinity s => rw [hunpack] at hx; cases hx
  | zero s =>
      rw [hunpack] at hx
      exact .inl ⟨⟨s, rfl⟩, (Option.some.inj hx).symm⟩
  | finite s m e hm =>
      rw [hunpack] at hx
      obtain rfl : withSign s (m * 2 ^ e) = q := Option.some.inj hx
      have hpos : (0 : ℚ) < m * 2 ^ e := mul_pos (by exact_mod_cast hm) (two_zpow_pos e)
      cases s with
      | negative => exact absurd hq (neg_neg_of_pos hpos).not_ge
      | positive => exact .inr ⟨.inr ⟨m, e, hm, hunpack, rfl⟩, hpos⟩

/-- The amounts are the finite floats that do not compare as negative. -/
theorem exists_isAmount_iff {x : Float} :
    (∃ q, IsAmount x q) ↔ x.isFinite = true ∧ 0.0 ≤ x := by
  constructor
  · rintro ⟨q, hx, hq⟩
    exact ⟨isFinite_iff_exactValue?.mpr ⟨q, hx⟩, (float_le_iff isAmount_zero.1 hx).mpr hq⟩
  · rintro ⟨hfinite, hle⟩
    obtain ⟨q, hx⟩ := isFinite_iff_exactValue?.mp hfinite
    exact ⟨q, hx, (float_le_iff isAmount_zero.1 hx).mp hle⟩

/-! ## Totals -/

/-- A total is at least as large as an amount, or too large for a float. -/
def Covers (total : Float) (q : ℚ) : Prop :=
  total.isInf = true ∨ ∃ v, IsAmount total v ∧ q ≤ v

/-- A sum of amounts covers both of them. -/
theorem IsAmount.covers_add {x y : Float} {a b : ℚ} (hx : IsAmount x a) (hy : IsAmount y b) :
    Covers (x + y) a ∧ Covers (x + y) b := by
  rcases hx.zero_or_hasValue with ⟨⟨s, hzero⟩, rfl⟩ | ⟨hvalue, ha⟩
  · rcases hy.zero_or_hasValue with ⟨⟨t, hzero'⟩, rfl⟩ | ⟨hvalue', hb⟩
    · have hsum : IsAmount (x + y) 0 := by
        refine ⟨?_, le_rfl⟩
        show exactValue? (Float.Model.pack (UnpackedFloat.add .binary64 x.toModel.unpack
          y.toModel.unpack)).unpack = some 0
        rw [hzero, hzero']
        cases s <;> cases t <;> rfl
      exact ⟨.inr ⟨0, hsum, le_rfl⟩, .inr ⟨0, hsum, le_rfl⟩⟩
    · obtain ⟨n, f, hn, hunpack, -⟩ := hvalue'.finite hb
      have hsum : x + y = y := by
        refine add_eq_of_unpack ?_
        rw [hzero, hunpack]
        rfl
      rw [hsum]
      exact ⟨.inr ⟨b, hy, hb.le⟩, .inr ⟨b, hy, le_rfl⟩⟩
  · rcases hy.zero_or_hasValue with ⟨⟨t, hzero⟩, rfl⟩ | ⟨hvalue', hb⟩
    · obtain ⟨m, e, hm, hunpack, -⟩ := hvalue.finite ha
      have hsum : x + y = x := by
        refine add_eq_of_unpack ?_
        rw [hunpack, hzero]
        rfl
      rw [hsum]
      exact ⟨.inr ⟨a, hx, le_rfl⟩, .inr ⟨a, hx, ha.le⟩⟩
    · obtain ⟨v, hv, hsum | ⟨hinf, -⟩⟩ := isRounded_add hvalue hvalue'
      · have hle : a ≤ v := hv.ge_of_ge hvalue.representable (by linarith)
        have hle' : b ≤ v := hv.ge_of_ge hvalue'.representable (by linarith)
        exact ⟨.inr ⟨v, hsum.isAmount, hle⟩, .inr ⟨v, hsum.isAmount, hle'⟩⟩
      · exact ⟨.inl hinf, .inl hinf⟩

theorem exists_infinity {x : Float} (h : x.isInf = true) :
    ∃ s, x.toModel.unpack = .infinity s := by
  change x.toModel.unpack.isInf = true at h
  cases hunpack : x.toModel.unpack with
  | infinity s => exact ⟨s, rfl⟩
  | notANumber => rw [hunpack] at h; cases h
  | zero s => rw [hunpack] at h; cases h
  | finite s m e hm => rw [hunpack] at h; cases h

/-- An infinite total stays infinite. -/
theorem isInf_add {x y : Float} {b : ℚ} (hx : x.isInf = true) (hy : IsAmount y b) :
    (x + y).isInf = true := by
  obtain ⟨s, hinf⟩ := exists_infinity hx
  have hsum : x + y = x := by
    refine add_eq_of_unpack ?_
    rw [hinf]
    rcases hy.zero_or_hasValue with ⟨⟨t, hzero⟩, -⟩ | ⟨hvalue, hb⟩
    · rw [hzero]
      rfl
    · obtain ⟨n, f, hn, hunpack, -⟩ := hvalue.finite hb
      rw [hunpack]
      rfl
  rw [hsum]
  exact hx

/-- A total with one more amount covers that, and what it covered before. -/
theorem Covers.add {total y : Float} {a b : ℚ} (h : Covers total a) (hy : IsAmount y b) :
    Covers (total + y) a ∧ Covers (total + y) b := by
  rcases h with hinf | ⟨v, hv, hle⟩
  · have hsum := isInf_add hinf hy
    exact ⟨.inl hsum, .inl hsum⟩
  · obtain ⟨hsum, hsum'⟩ := hv.covers_add hy
    refine ⟨?_, hsum'⟩
    rcases hsum with hinf | ⟨w, hw, hle'⟩
    · exact .inl hinf
    · exact .inr ⟨w, hw, hle.trans hle'⟩

/-- Adding on, a total covers what it covered and all that is added. -/
theorem Covers.foldl_add {times : List Micros} (htimes : ∀ t ∈ times, ∃ b, IsAmount t.toFloat b)
    {total : Float} {a : ℚ} (h : Covers total a) :
    Covers (times.foldl (fun sum t => sum + t.toFloat) total) a ∧
      ∀ t ∈ times, ∀ b, IsAmount t.toFloat b →
        Covers (times.foldl (fun sum t => sum + t.toFloat) total) b := by
  induction times generalizing total a with
  | nil => exact ⟨h, fun t ht => nomatch ht⟩
  | cons first times ih =>
      obtain ⟨b, hb⟩ := htimes first List.mem_cons_self
      have hrest : ∀ t ∈ times, ∃ b, IsAmount t.toFloat b :=
        fun t ht => htimes t (List.mem_cons_of_mem _ ht)
      obtain ⟨hold, hall⟩ := ih hrest (h.add hb).1
      refine ⟨hold, ?_⟩
      intro t ht c hc
      rcases List.mem_cons.mp ht with rfl | ht
      · exact (ih hrest (h.add hc).2).1
      · exact hall t ht c hc

/-- **A total covers each of its times**, however often it was rounded. -/
theorem covers_sumOf {times : List Micros} (htimes : ∀ t ∈ times, ∃ b, IsAmount t.toFloat b)
    {t : Micros} (ht : t ∈ times) {b : ℚ} (hb : IsAmount t.toFloat b) : Covers (sumOf times) b := by
  have hstart : Covers (-0.0) 0 := .inr ⟨0, isAmount_negative_zero, le_rfl⟩
  exact (hstart.foldl_add htimes).2 t ht b hb

/-! ## Shares -/

theorem float_mul_comm (x y : Float) : x * y = y * x := by
  have hsign (s t : Sign) : s * t = t * s := by cases s <;> cases t <;> rfl
  have hunpacked : UnpackedFloat.mul .binary64 x.toModel.unpack y.toModel.unpack =
      UnpackedFloat.mul .binary64 y.toModel.unpack x.toModel.unpack := by
    cases x.toModel.unpack <;> cases y.toModel.unpack <;>
      simp only [UnpackedFloat.mul, hsign, Nat.mul_comm, Int.add_comm]
  exact congrArg (fun u => Float.ofModel (.pack u)) hunpacked

/-- Small rationals are not too large for a float. -/
theorem lt_two_zpow_top {q : ℚ} (h : q ≤ 100) : q < 2 ^ (1024 : ℤ) :=
  calc q ≤ 2 ^ (7 : ℤ) := h.trans (by norm_num)
    _ < 2 ^ (1024 : ℤ) := two_zpow_lt.mpr (by norm_num)

theorem hasValue_hundred : HasValue 100.0 100 := by
  refine .inr ⟨100 * 2 ^ 46, -46, by norm_num, rfl, ?_⟩
  norm_num [zpow_neg]

/-- A fraction in percent. -/
theorem IsAmount.percent {x : Float} {q : ℚ} (hx : IsAmount x q) (hq : q ≤ 1) :
    ∃ p, IsAmount (x * 100.0) p ∧ p ≤ 100 := by
  rcases hx.zero_or_hasValue with ⟨⟨s, hzero⟩, rfl⟩ | ⟨hvalue, hpos⟩
  · refine ⟨0, ⟨?_, le_rfl⟩, by norm_num⟩
    have hhundred : (100.0 : Float).toModel.unpack =
        .finite .positive (100 * 2 ^ 46) (-46) (by norm_num) := rfl
    show exactValue? (Float.Model.pack (UnpackedFloat.mul .binary64 x.toModel.unpack
      (100.0 : Float).toModel.unpack)).unpack = some 0
    rw [hzero, hhundred]
    cases s <;> rfl
  · have hround := isRounded_mul hasValue_hundred hvalue (.inl (by norm_num)) hpos
    rw [float_mul_comm] at hround
    have hrepresentable : Representable .binary64 100 := hasValue_hundred.representable
    have hle : 100 * q ≤ 100 := by linarith
    obtain ⟨p, hp, hpercent⟩ := hround.hasValue hrepresentable (lt_two_zpow_top le_rfl) hle
    exact ⟨p, hpercent.isAmount, hp.le_of_le hrepresentable hle⟩

/-- A quotient that is one of the zeros is an amount of nothing. -/
theorem isAmount_div_zero {x y : Float} {s : Sign}
    (h : UnpackedFloat.div .binary64 x.toModel.unpack y.toModel.unpack = .zero s) :
    IsAmount (x / y) 0 := by
  refine ⟨?_, le_rfl⟩
  show exactValue? (Float.Model.pack (UnpackedFloat.div .binary64 x.toModel.unpack
    y.toModel.unpack)).unpack = some 0
  rw [h]
  exact congrArg exactValue? (unpack_pack_zero .binary64 s)

/-- An amount is a fraction of a total that covers it, and none of an infinite one. -/
theorem IsAmount.fraction {x total : Float} {q : ℚ} (hx : IsAmount x q) (hcovers : Covers total q)
    (hpos : 0.0 < total) : ∃ p, IsAmount (x / total) p ∧ p ≤ 1 := by
  rcases hcovers with hinf | ⟨v, hv, hle⟩
  · obtain ⟨s, hinf⟩ := exists_infinity hinf
    refine ⟨0, ?_, zero_le_one⟩
    rcases hx.zero_or_hasValue with ⟨⟨t, hzero⟩, -⟩ | ⟨hvalue, hqpos⟩
    · exact isAmount_div_zero (s := t / s) (by rw [hzero, hinf]; rfl)
    · obtain ⟨m, e, hm, hunpack, -⟩ := hvalue.finite hqpos
      exact isAmount_div_zero (s := .positive / s) (by rw [hunpack, hinf]; rfl)
  · have hvpos : 0 < v := (float_lt_iff isAmount_zero.1 hv.1).mp hpos
    obtain ⟨htotal, -⟩ := hv.zero_or_hasValue.resolve_left fun h => hvpos.ne' h.2
    rcases hx.zero_or_hasValue with ⟨⟨t, hzero⟩, -⟩ | ⟨hvalue, -⟩
    · obtain ⟨m, e, hm, hunpack, -⟩ := htotal.finite hvpos
      refine ⟨0, ?_, zero_le_one⟩
      exact isAmount_div_zero (s := t / .positive) (by rw [hzero, hunpack]; rfl)
    · have hround := isRounded_div hvalue htotal hvpos
      have hone : Representable .binary64 1 := by
        simpa using representable_of_le (n := 1) (by norm_num)
      have hle' : q / v ≤ 1 := (div_le_one hvpos).mpr hle
      obtain ⟨p, hp, hfraction⟩ :=
        hround.hasValue hone (lt_two_zpow_top (by norm_num)) hle'
      exact ⟨p, hfraction.isAmount, hp.le_of_le hone hle'⟩

/-- **A share of a total that covers the mean** is a percentage. -/
theorem isAmount_share {mean : Micros} {total : Float} {q : ℚ} (hmean : IsAmount mean.toFloat q)
    (hcovers : Covers total q) : ∃ p, IsAmount (share total mean) p ∧ p ≤ 100 := by
  unfold share
  by_cases hpos : 0.0 < total
  · rw [if_pos hpos]
    obtain ⟨p, hp, hle⟩ := hmean.fraction hcovers hpos
    exact hp.percent hle
  · rw [if_neg hpos]
    exact ⟨0, isAmount_zero, by norm_num⟩

/-! ## Rows -/

/-- A row with a finite mean that is not negative, and a percentage. -/
structure Row.Sound (r : Row) : Prop where
  isFinite : r.mean.toFloat.isFinite = true
  mean_nonneg : 0.0 ≤ r.mean.toFloat
  percent_nonneg : 0.0 ≤ r.percent
  percent_le : r.percent ≤ 100.0

/-- A float that compares as a percentage is finite. -/
theorem isFinite_of_percentage {x : Float} (hlow : 0.0 ≤ x) (hhigh : x ≤ 100.0) :
    x.isFinite = true := by
  have hlow : UnpackedFloat.le (.zero .positive) x.toModel.unpack = true :=
    of_decide_eq_true hlow
  have hhigh : UnpackedFloat.le x.toModel.unpack (100.0 : Float).toModel.unpack = true :=
    of_decide_eq_true hhigh
  show x.toModel.unpack.isFinite = true
  cases hx : x.toModel.unpack with
  | notANumber => rw [hx] at hlow; cases hlow
  | infinity s =>
      cases s with
      | negative => rw [hx] at hlow; cases hlow
      | positive => rw [hx] at hhigh; cases hhigh
  | zero s => rfl
  | finite s m e hm => rfl

theorem Row.sound_iff {r : Row} : r.Sound ↔
    (∃ q, IsAmount r.mean.toFloat q) ∧ ∃ p, IsAmount r.percent p ∧ p ≤ 100 := by
  have hhundred := hasValue_hundred.isAmount
  constructor
  · rintro ⟨hfinite, hmean, hlow, hhigh⟩
    obtain ⟨p, hp⟩ := exists_isAmount_iff.mpr ⟨isFinite_of_percentage hlow hhigh, hlow⟩
    exact ⟨exists_isAmount_iff.mpr ⟨hfinite, hmean⟩, p, hp, (float_le_iff hp.1 hhundred.1).mp hhigh⟩
  · rintro ⟨hmean, p, hp, hle⟩
    obtain ⟨hfinite, hmean⟩ := exists_isAmount_iff.mp hmean
    exact ⟨hfinite, hmean, (exists_isAmount_iff.mp ⟨p, hp⟩).2,
      (float_le_iff hp.1 hhundred.1).mpr hle⟩

/-- **The rows of a summary are sound** if all means are finite and not negative. -/
theorem sound_summaryRows {averages : Run}
    (haverages : ∀ t ∈ averages.values, t.toFloat.isFinite = true ∧ 0.0 ≤ t.toFloat) :
    ∀ r ∈ summaryRows averages, r.Sound := by
  have hamounts : ∀ t ∈ averages.values, ∃ q, IsAmount t.toFloat q :=
    fun t ht => exists_isAmount_iff.mpr (haverages t ht)
  intro r hr
  obtain ⟨e, he, rfl⟩ := List.mem_map.mp ((summaryRows_perm averages).mem_iff.mp hr)
  have hmean : e.2 ∈ averages.values := List.mem_map_of_mem he
  obtain ⟨q, hq⟩ := hamounts e.2 hmean
  exact Row.sound_iff.mpr ⟨⟨q, hq⟩, isAmount_share hq (covers_sumOf hamounts hmean hq)⟩

end Chronograph
