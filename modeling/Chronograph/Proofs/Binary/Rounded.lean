import Chronograph.Binary.Exact
import Chronograph.Proofs.Binary.Packing

/-!
# Rounded values

Floats as the rationals that they are.  `RoundsTo F x v` says that `v` is what
the nonnegative rational `x` is rounded to; there always is such a value, and
rounding never passes a value of the format (`RoundsTo.ge_of_ge` and
`RoundsTo.le_of_le`), which is all that bounds on results need.

`HasValue x v` says that the double-width float `x` is `v` and not negative.
The operations are then rounded operations on rationals: `isRounded_toFloat`,
`isRounded_mul` and `isRounded_div`.
-/

namespace Chronograph

open Float.Model (Format UnpackedFloat totalExponent)
open Float.Model.UnpackedFloat

/-! ## Rounding a rational -/

/-- The value that a nonnegative rational is rounded to. -/
def RoundsTo (F : Format) (x v : ℚ) : Prop :=
  ∃ e m, UnitExponent F x e ∧ NearestEven (x / 2 ^ e) m ∧ v = m * 2 ^ e

/-- Every rational has a nearest whole number. -/
theorem exists_nearestEven {y : ℚ} (hy : 0 ≤ y) : ∃ n, NearestEven y n := by
  have hlow := Nat.floor_le hy
  have hhigh := Nat.lt_floor_add_one y
  generalize ⌊y⌋₊ = n at hlow hhigh
  rcases lt_trichotomy (y - n) (1 / 2) with h | h | h
  · exact ⟨n, .inl (abs_lt.mpr ⟨by linarith, h⟩)⟩
  · rcases Nat.mod_two_eq_zero_or_one n with hpar | hpar
    · exact ⟨n, .inr ⟨by rw [h]; norm_num, hpar⟩⟩
    · refine ⟨n + 1, .inr ⟨?_, by omega⟩⟩
      have : y - (n + 1 : ℕ) = -(1 / 2) := by push_cast; linarith
      rw [this]
      norm_num
  · refine ⟨n + 1, .inl (abs_lt.mpr ?_)⟩
    push_cast
    constructor <;> linarith

/-- Every nonnegative rational has a unit. -/
theorem exists_unitExponent (F : Format) (x : ℚ) : ∃ e, UnitExponent F x e := by
  by_cases hx : x < 2 ^ (F.minExponent + F.mantissaBits)
  · exact ⟨F.minExponent, le_rfl, hx, .inl rfl⟩
  · rw [not_lt] at hx
    have hpos : 0 < x := lt_of_lt_of_le (two_zpow_pos _) hx
    have hlow := Int.zpow_log_le_self (b := 2) (by omega) hpos
    have hhigh := Int.lt_zpow_succ_log_self (b := 2) (by omega) x
    push_cast at hlow hhigh
    have hlog := two_zpow_lt.mp (lt_of_le_of_lt hx hhigh)
    refine ⟨Int.log 2 x + 1 - F.mantissaBits, by omega, ?_, .inr ?_⟩
    · rw [Int.sub_add_cancel]
      exact hhigh
    · have : Int.log 2 x + 1 - F.mantissaBits + F.mantissaBits - 1 = Int.log 2 x := by ring
      rw [this]
      exact hlow

theorem roundsTo_zero (F : Format) : RoundsTo F 0 0 := by
  have hunit : UnitExponent F 0 F.minExponent := ⟨le_rfl, two_zpow_pos _, .inl rfl⟩
  refine ⟨F.minExponent, 0, hunit, ?_, by simp⟩
  rw [zero_div]
  exact nearestEven_natCast 0

/-- The result of a rounding is in canonical form, and the carry keeps its value. -/
theorem carried_canonical {F : Format} {x : ℚ} {m : ℕ} {e : ℤ} (hunit : UnitExponent F x e)
    (hm : NearestEven (x / 2 ^ e) m) (hne : m ≠ 0) :
    ∃ m' e' h, Canonical F m' e' ∧ (m' : ℚ) * 2 ^ e' = m * 2 ^ e ∧
      ∀ s, carried F s m e = .finite s m' e' h := by
  have hp := mantissaBits_pos F
  have hle := hunit.nearest_le hm
  by_cases hcarry : m = 2 ^ F.mantissaBits
  · refine ⟨2 ^ (F.mantissaBits - 1), e + 1, Nat.two_pow_pos _, ?_, ?_, ?_⟩
    · refine ⟨Nat.two_pow_pos _, ?_, ?_, .inr le_rfl⟩
      · exact Nat.pow_lt_pow_right (by omega) (by omega)
      · have := hunit.least
        omega
    · obtain ⟨k, hk⟩ : ∃ k, F.mantissaBits = k + 1 := ⟨F.mantissaBits - 1, by omega⟩
      rw [hcarry, hk, Nat.add_sub_cancel, two_zpow_add]
      push_cast
      ring
    · intro s
      unfold carried
      rw [dif_neg hne, if_pos hcarry]
  · refine ⟨m, e, Nat.pos_of_ne_zero hne, ?_, rfl, ?_⟩
    · refine ⟨Nat.pos_of_ne_zero hne, lt_of_le_of_ne hle hcarry, hunit.least, ?_⟩
      by_cases he : e = F.minExponent
      · exact .inl he
      · exact .inr (hm.ge_of_ge ((le_div_iff₀ (two_zpow_pos e)).mpr (hunit.binade_le he)))
    · intro s
      unfold carried
      rw [dif_neg hne, if_neg hcarry]

/-! ## Values of a format -/

/-- A value of a format, of whatever magnitude. -/
def Representable (F : Format) (b : ℚ) : Prop :=
  ∃ (n : ℕ) (f : ℤ), n ≤ 2 ^ F.mantissaBits ∧ F.minExponent ≤ f ∧ b = n * 2 ^ f

/-- A value in a finer unit than that of a rational is not above half the
rational's binade. -/
theorem Representable.le_binade {F : Format} {n : ℕ} {e f : ℤ} (hn : n ≤ 2 ^ F.mantissaBits)
    (hfe : f < e) : (n : ℚ) * 2 ^ f ≤ ((2 ^ (F.mantissaBits - 1) : ℕ) : ℚ) * 2 ^ e := by
  have hp := mantissaBits_pos F
  calc (n : ℚ) * 2 ^ f ≤ 2 ^ F.mantissaBits * 2 ^ f :=
        mul_le_mul_of_nonneg_right (by exact_mod_cast hn) (two_zpow_pos f).le
    _ = 2 ^ ((F.mantissaBits : ℤ) + f) := by rw [two_zpow_add, zpow_natCast]
    _ ≤ 2 ^ (((F.mantissaBits - 1 : ℕ) : ℤ) + e) := zpow_le_zpow_right₀ (by norm_num) (by omega)
    _ = ((2 ^ (F.mantissaBits - 1) : ℕ) : ℚ) * 2 ^ e := by
        rw [two_zpow_add, zpow_natCast]
        push_cast
        rfl

theorem natCast_mul_zpow {n : ℕ} {e f : ℤ} (h : e ≤ f) :
    (n : ℚ) * 2 ^ f = ((n * 2 ^ (f - e).toNat : ℕ) : ℚ) * 2 ^ e := by
  have hf : f = ((f - e).toNat : ℤ) + e := by omega
  push_cast
  rw [← zpow_natCast, mul_assoc, ← two_zpow_add, ← hf]

/-- **Rounding does not pass a value from above.** -/
theorem RoundsTo.ge_of_ge {F : Format} {x v b : ℚ} (h : RoundsTo F x v) (hb : Representable F b)
    (hle : b ≤ x) : b ≤ v := by
  obtain ⟨e, m, hunit, hm, rfl⟩ := h
  obtain ⟨n, f, hn, hf, rfl⟩ := hb
  have he := two_zpow_pos e
  by_cases hfe : e ≤ f
  · rw [natCast_mul_zpow hfe] at hle ⊢
    have := hm.ge_of_ge ((le_div_iff₀ he).mpr hle)
    exact mul_le_mul_of_nonneg_right (by exact_mod_cast this) he.le
  · have hbinade := hunit.binade_le (by omega)
    have := hm.ge_of_ge ((le_div_iff₀ he).mpr hbinade)
    exact le_trans (Representable.le_binade hn (by omega))
      (mul_le_mul_of_nonneg_right (by exact_mod_cast this) he.le)

/-- **Rounding does not pass a value from below.** -/
theorem RoundsTo.le_of_le {F : Format} {x v b : ℚ} (h : RoundsTo F x v) (hb : Representable F b)
    (hle : x ≤ b) : v ≤ b := by
  obtain ⟨e, m, hunit, hm, rfl⟩ := h
  obtain ⟨n, f, hn, hf, rfl⟩ := hb
  have he := two_zpow_pos e
  by_cases hfe : e ≤ f
  · rw [natCast_mul_zpow hfe] at hle ⊢
    have := hm.le_of_le ((div_le_iff₀ he).mpr hle)
    exact mul_le_mul_of_nonneg_right (by exact_mod_cast this) he.le
  · -- the rational is the least of its binade, and so a value itself
    have hbinade := hunit.binade_le (by omega)
    have hupper := Representable.le_binade hn (by omega : f < e)
    have := hm.le_of_le ((div_le_iff₀ he).mpr (le_trans hle hupper))
    exact le_trans (mul_le_mul_of_nonneg_right (by exact_mod_cast this) he.le)
      (le_trans hbinade hle)

/-- A value is rounded to itself. -/
theorem RoundsTo.eq_of_representable {F : Format} {x v : ℚ} (h : RoundsTo F x v)
    (hx : Representable F x) : v = x :=
  le_antisymm (h.le_of_le hx le_rfl) (h.ge_of_ge hx le_rfl)

/-- The exponent of the least double-width float. -/
theorem minExponent_binary64 : Format.binary64.minExponent = -1074 := rfl

/-- A power of two that is not too small is a float. -/
theorem representable_two_zpow {e : ℤ} (h : -1074 ≤ e) : Representable .binary64 (2 ^ e) := by
  refine ⟨1, e, Nat.one_le_two_pow, minExponent_binary64.trans_le h, ?_⟩
  rw [Nat.cast_one, one_mul]

/-- A whole number of 53 bits is a float. -/
theorem representable_of_le {n : ℕ} (h : n ≤ 2 ^ 53) : Representable .binary64 n :=
  ⟨n, 0, h, by decide, by simp⟩

/-- What is rounded from a positive whole number is at least one. -/
theorem RoundsTo.one_le {s : ℕ} {v : ℚ} (h : RoundsTo .binary64 s v) (hs : 0 < s) : 1 ≤ v := by
  have hone := h.ge_of_ge (representable_of_le Nat.one_le_two_pow) (by exact_mod_cast hs)
  rwa [Nat.cast_one] at hone

/-- Half of a whole number of 53 bits is a float. -/
theorem representable_half {n : ℕ} (h : n ≤ 2 ^ 53) : Representable .binary64 (n / 2) :=
  ⟨n, -1, h, by decide, by rw [zpow_neg, zpow_one, div_eq_mul_inv]⟩

/-- A power of ten up to the twenty-second is a float. -/
theorem representable_ten_pow {k : ℕ} (h : k ≤ 22) : Representable .binary64 (10 ^ k) := by
  refine ⟨5 ^ k, k, ?_, ?_, ?_⟩
  · exact le_trans (Nat.pow_le_pow_right (by omega) h) (by decide)
  · have hmin := minExponent_binary64
    omega
  · have : (10 : ℚ) = 5 * 2 := by norm_num
    rw [this, mul_pow, zpow_natCast]
    push_cast
    rfl

/-- A rational whose unit is not the least has 53 bits in it. -/
theorem UnitExponent.double_le {x : ℚ} {e : ℤ} (h : UnitExponent .binary64 x e) (he : -1074 < e) :
    (2 : ℚ) ^ (52 + e) ≤ x := by
  have hmin := minExponent_binary64
  have hbits : Format.binary64.mantissaBits - 1 = 52 := rfl
  have hbinade := h.binade_le (by omega)
  rw [hbits] at hbinade
  rw [two_zpow_add]
  exact_mod_cast hbinade

/-! ## Floats as rationals -/

/-- A double-width float is a value that is not negative. -/
def HasValue (x : Float) (v : ℚ) : Prop :=
  x.toModel.unpack = .zero .positive ∧ v = 0 ∨
    ∃ m e h, x.toModel.unpack = .finite .positive m e h ∧ v = m * 2 ^ e

/-- A float is what a nonnegative rational is rounded to, or the infinity if
that is too large. -/
def IsRounded (x : Float) (q : ℚ) : Prop :=
  ∃ v, RoundsTo .binary64 q v ∧ (HasValue x v ∨ x.isInf = true ∧ 2 ^ (1024 : ℤ) ≤ v)

/-- The least power of two that is too large for a format has this exponent. -/
def topExponent (F : Format) : ℤ := (2 ^ (F.exponentBits - 1) : ℕ)

/-- The exponents that fit a format are those with room for all its bits. -/
theorem fitsExponent_iff_le {F : Format} {e : ℤ} :
    FitsExponent F e ↔ e + F.mantissaBits ≤ topExponent F := by
  have hhalf : 0 < 2 ^ (F.exponentBits - 1) := Nat.two_pow_pos _
  have hbias : F.exponentBias = 2 ^ (F.exponentBits - 1) - 1 := rfl
  have hpow : (2 : ℤ) ^ F.exponentBits = 2 * ((2 ^ (F.exponentBits - 1) : ℕ) : ℤ) := by
    have : 2 ^ F.exponentBits = 2 * 2 ^ (F.exponentBits - 1) := by
      rw [← Nat.pow_succ', Nat.succ_eq_add_one, Nat.sub_add_cancel F.he]
    exact_mod_cast this
  have hbits : F.mantissaBits = 1 + F.mantissaBitsWithoutImplicit := rfl
  unfold FitsExponent topExponent
  rw [hpow, hbias, hbits]
  omega

/-- The least exponent leaves room for all bits of a mantissa. -/
theorem minExponent_add_le {F : Format} (hF : 2 ≤ F.exponentBits) :
    F.minExponent + F.mantissaBits < topExponent F := by
  have htwo : 2 ^ 1 ≤ 2 ^ (F.exponentBits - 1) := Nat.pow_le_pow_right (by omega) (by omega)
  have hmin : F.minExponent = 3 - topExponent F - F.mantissaBits := by
    unfold topExponent
    push_cast
    rfl
  unfold topExponent at hmin ⊢
  omega

/-- The exponents that fit are those of the values below the top. -/
theorem fitsExponent_iff_lt {F : Format} (hF : 2 ≤ F.exponentBits) {m : ℕ} {e : ℤ}
    (hc : Canonical F m e) : FitsExponent F e ↔ (m : ℚ) * 2 ^ e < 2 ^ topExponent F := by
  have hp := mantissaBits_pos F
  have hleast := minExponent_add_le hF
  rw [fitsExponent_iff_le]
  constructor
  · intro he
    calc (m : ℚ) * 2 ^ e < 2 ^ (F.mantissaBits : ℤ) * 2 ^ e :=
          mul_lt_mul_of_pos_right (by exact_mod_cast hc.lt) (two_zpow_pos e)
      _ = 2 ^ ((F.mantissaBits : ℤ) + e) := (two_zpow_add _ _).symm
      _ ≤ 2 ^ topExponent F := zpow_le_zpow_right₀ (by norm_num) (by omega)
  · intro hv
    cases hc.normal with
    | inl hmin => omega
    | inr hnormal =>
        have hm : (2 : ℚ) ^ ((F.mantissaBits - 1 : ℕ) : ℤ) ≤ m := by exact_mod_cast hnormal
        have hlt : (2 : ℚ) ^ (((F.mantissaBits - 1 : ℕ) : ℤ) + e) < 2 ^ topExponent F := by
          rw [two_zpow_add]
          exact lt_of_le_of_lt (mul_le_mul_of_nonneg_right hm (two_zpow_pos e).le) hv
        have := two_zpow_lt.mp hlt
        omega

/-- The exponents that fit are those of the values below `2 ^ 1024`. -/
theorem fitsExponent_iff {m : ℕ} {e : ℤ} (hc : Canonical .binary64 m e) :
    FitsExponent .binary64 e ↔ (m : ℚ) * 2 ^ e < 2 ^ (1024 : ℤ) :=
  fitsExponent_iff_lt (by decide) hc

theorem carried_zero (F : Format) (s : Sign) (e : ℤ) : carried F s 0 e = .zero s := dif_pos rfl

/-- A rational that is not too large is rounded to a value. -/
theorem IsRounded.hasValue {x : Float} {q b : ℚ} (h : IsRounded x q)
    (hb : Representable .binary64 b) (hlt : b < 2 ^ (1024 : ℤ)) (hq : q ≤ b) :
    ∃ v, RoundsTo .binary64 q v ∧ HasValue x v := by
  obtain ⟨v, hv, hx | ⟨-, hlarge⟩⟩ := h
  · exact ⟨v, hv, hx⟩
  · have := hv.le_of_le hb hq
    linarith

/-- What an operation rounds and packs is the rounded result. -/
theorem isRounded_pack {q : ℚ} {e : ℤ} {m : ℕ} (hunit : UnitExponent .binary64 q e)
    (hm : NearestEven (q / 2 ^ e) m) :
    IsRounded (.ofModel (.pack (carried .binary64 .positive m e))) q := by
  refine ⟨m * 2 ^ e, ⟨e, m, hunit, hm, rfl⟩, ?_⟩
  by_cases hne : m = 0
  · left; left
    subst hne
    refine ⟨?_, by simp⟩
    rw [carried_zero]
    rfl
  · obtain ⟨m', e', h, hc, hvalue, hcarried⟩ := carried_canonical hunit hm hne
    rw [hcarried, ← hvalue]
    by_cases hfit : FitsExponent .binary64 e'
    · left; right
      exact ⟨m', e', h, float_unpack_pack hc hfit h, rfl⟩
    · right
      refine ⟨?_, ?_⟩
      · have := float_unpack_pack_of_not_fits (s := .positive) hc hfit h
        show (Float.Model.pack _).unpack.isInf = true
        rw [this]
        rfl
      · rw [fitsExponent_iff hc, not_lt] at hfit
        exact hfit

theorem HasValue.nonneg {x : Float} {v : ℚ} (h : HasValue x v) : 0 ≤ v := by
  rcases h with ⟨-, rfl⟩ | ⟨m, e, hm, -, rfl⟩
  · exact le_rfl
  · exact mul_nonneg (Nat.cast_nonneg m) (two_zpow_pos e).le

/-- A whole number becomes the nearest float. -/
theorem isRounded_nearestFloat (n : ℕ) : IsRounded (nearestFloat n) n := by
  obtain ⟨e, he⟩ := exists_unitExponent .binary64 (n : ℚ)
  obtain ⟨m, hm⟩ := exists_nearestEven (div_nonneg (Nat.cast_nonneg n) (two_zpow_pos e).le)
  have hround : UnpackedFloat.ofNat .binary64 n = carried .binary64 .positive m e := by
    show UnpackedFloat.normalize .binary64 (n : ℤ) 0 .positive = _
    unfold UnpackedFloat.normalize
    rcases Nat.eq_zero_or_pos n with hn | hn
    · rw [hn, Nat.cast_zero, zero_div] at hm
      have : m = 0 := hm.unique (nearestEven_natCast 0)
      have hcmp : compare ((0 : ℕ) : ℤ) 0 = .eq := rfl
      rw [hn, this, hcmp, carried_zero]
    · have hcmp : compare (n : ℤ) 0 = .gt := compare_gt_iff_gt.mpr (by omega)
      rw [hcmp]
      refine round_eq hn ?_ ?_
      · rw [zpow_zero, mul_one]
        exact he
      · rw [zpow_zero, mul_one]
        exact hm
  have := isRounded_pack he hm
  rw [← hround] at this
  exact this

/-- A word becomes the nearest float. -/
theorem isRounded_toFloat (n : UInt64) : IsRounded n.toFloat n.toNat :=
  isRounded_nearestFloat n.toNat

/-- A number in scientific notation becomes the nearest float. -/
theorem isRounded_ofScientific {d k : ℕ} (hd : 0 < d) (hk : k ≤ 2048) :
    IsRounded (.ofModel (.ofScientific d k)) (d * 10 ^ k) := by
  have hq : (0 : ℚ) ≤ d * 10 ^ k := by positivity
  obtain ⟨e, he⟩ := exists_unitExponent .binary64 ((d : ℚ) * 10 ^ k)
  obtain ⟨m, hm⟩ := exists_nearestEven (div_nonneg hq (two_zpow_pos e).le)
  have := isRounded_pack he hm
  rw [← ofScientific_whole_eq hd hk he hm] at this
  exact this

/-- A positive value is a mantissa and an exponent in canonical form. -/
theorem HasValue.finite {x : Float} {v : ℚ} (h : HasValue x v) (hv : 0 < v) :
    ∃ m e hm, x.toModel.unpack = .finite .positive m e hm ∧ v = m * 2 ^ e ∧
      Canonical .binary64 m e := by
  rcases h with ⟨-, rfl⟩ | ⟨m, e, hm, hx, rfl⟩
  · exact absurd hv (lt_irrefl 0)
  · have hc := isCanonical_float x
    rw [hx] at hc
    exact ⟨m, e, hm, hx, rfl, hc⟩

theorem HasValue.zero {x : Float} (h : HasValue x 0) : x.toModel.unpack = .zero .positive := by
  rcases h with ⟨hx, -⟩ | ⟨m, e, hm, -, hv⟩
  · exact hx
  · have : (0 : ℚ) < m * 2 ^ e := mul_pos (by exact_mod_cast hm) (two_zpow_pos e)
    exact absurd hv this.ne

theorem float_unpack_pack_zero : (Float.Model.pack (.zero .positive)).unpack = .zero .positive := by
  rfl

/-- The rounded zero is zero. -/
theorem isRounded_zero {x : Float} (hx : x.toModel.unpack = .zero .positive) : IsRounded x 0 :=
  ⟨0, roundsTo_zero _, .inl (.inl ⟨hx, rfl⟩)⟩

/-- **A quotient is the quotient of the values, rounded.** -/
theorem isRounded_div {x y : Float} {a b : ℚ} (hx : HasValue x a) (hy : HasValue y b)
    (hb : 0 < b) : IsRounded (x / y) (a / b) := by
  obtain ⟨m₂, e₂, hm₂, hy', rfl, -⟩ := hy.finite hb
  rcases hx.nonneg.eq_or_lt with rfl | ha
  · rw [zero_div]
    apply isRounded_zero
    show (Float.Model.pack (UnpackedFloat.div .binary64 x.toModel.unpack y.toModel.unpack)).unpack = _
    rw [hx.zero, hy']
    exact float_unpack_pack_zero
  · obtain ⟨m₁, e₁, hm₁, hx', rfl, -⟩ := hx.finite ha
    have hq : (0 : ℚ) ≤ m₁ * 2 ^ e₁ / (m₂ * 2 ^ e₂) := div_nonneg ha.le hb.le
    obtain ⟨e, he⟩ := exists_unitExponent .binary64 ((m₁ : ℚ) * 2 ^ e₁ / (m₂ * 2 ^ e₂))
    obtain ⟨m, hm⟩ := exists_nearestEven (div_nonneg hq (two_zpow_pos e).le)
    have := isRounded_pack he hm
    have hdiv := div_eq .positive .positive hm₁ hm₂ he hm
    have hsign : (Sign.positive / Sign.positive) = Sign.positive := rfl
    rw [hsign, ← hx', ← hy'] at hdiv
    rw [← hdiv] at this
    exact this

/-- A value of at least one has all the bits of a mantissa. -/
theorem Canonical.long_of_one_le {m : ℕ} {e : ℤ} (hc : Canonical .binary64 m e)
    (h : (1 : ℚ) ≤ m * 2 ^ e) : 2 ^ (Format.binary64.mantissaBits - 1) ≤ m := by
  rcases hc.normal with he | hm
  · have hmin := minExponent_binary64
    have hlt : (m : ℚ) < 2 ^ (53 : ℤ) := by exact_mod_cast hc.lt
    have : (m : ℚ) * 2 ^ e < 2 ^ (53 + e) := by
      rw [two_zpow_add]
      exact mul_lt_mul_of_pos_right hlt (two_zpow_pos e)
    have hone : (2 : ℚ) ^ (53 + e) ≤ 2 ^ (0 : ℤ) := zpow_le_zpow_right₀ (by norm_num) (by omega)
    rw [zpow_zero] at hone
    linarith
  · exact hm

/-- **A product is the product of the values, rounded.** -/
theorem isRounded_mul {x y : Float} {a b : ℚ} (hx : HasValue x a) (hy : HasValue y b)
    (ha : 1 ≤ a ∨ a = 0) (hb : 0 < b) : IsRounded (x * y) (a * b) := by
  obtain ⟨m₂, e₂, hm₂, hy', rfl, -⟩ := hy.finite hb
  rcases ha with ha | rfl
  · obtain ⟨m₁, e₁, hm₁, hx', rfl, hc⟩ := hx.finite (by linarith)
    have hlong : 2 ^ (Format.binary64.mantissaBits - 1) ≤ m₁ * m₂ :=
      le_trans (hc.long_of_one_le ha) (Nat.le_mul_of_pos_right m₁ hm₂)
    have hq : (0 : ℚ) ≤ m₁ * 2 ^ e₁ * (m₂ * 2 ^ e₂) := mul_nonneg hx.nonneg hb.le
    obtain ⟨e, he⟩ := exists_unitExponent .binary64 ((m₁ : ℚ) * 2 ^ e₁ * (m₂ * 2 ^ e₂))
    obtain ⟨m, hm⟩ := exists_nearestEven (div_nonneg hq (two_zpow_pos e).le)
    have := isRounded_pack he hm
    have hmul := mul_eq .positive .positive hm₁ hm₂ hlong he hm
    have hsign : (Sign.positive * Sign.positive) = Sign.positive := rfl
    rw [hsign, ← hx', ← hy'] at hmul
    rw [← hmul] at this
    exact this
  · rw [zero_mul]
    apply isRounded_zero
    show (Float.Model.pack (UnpackedFloat.mul .binary64 x.toModel.unpack y.toModel.unpack)).unpack = _
    rw [hx.zero, hy']
    exact float_unpack_pack_zero

/-! ## Whole values -/

/-- A float with a sign in front of it. -/
def signed (negative : Bool) (x : Float) : Float := if negative then -x else x

/-- A whole number with a sign in front of it. -/
def signedInt (negative : Bool) (n : ℕ) : ℤ := if negative then -(n : ℤ) else n

theorem signedInt_inj {negative : Bool} {m n : ℕ} :
    signedInt negative m = signedInt negative n ↔ m = n := by
  unfold signedInt
  cases negative <;> simp

theorem natAbs_signedInt (negative : Bool) (n : ℕ) : (signedInt negative n).natAbs = n := by
  unfold signedInt
  cases negative <;> simp

/-- The unpacked form of a float with a sign. -/
theorem unpack_signed {negative : Bool} {x : Float} {v : ℚ} (h : HasValue x v) :
    (signed negative x).toModel.unpack
      = if negative then x.toModel.unpack.neg else x.toModel.unpack := by
  cases negative with
  | false => rfl
  | true =>
      show (Float.Model.pack x.toModel.unpack.neg).unpack = x.toModel.unpack.neg
      rcases h with ⟨hx, -⟩ | ⟨m, e, hm, hx, -⟩
      · rw [hx]
        rfl
      · obtain ⟨hc, hfit⟩ := canonical_of_unpack (F := .binary64) (by decide) hx
        rw [hx]
        exact float_unpack_pack hc hfit hm

/-- The whole number that a finite float is. -/
theorem wholeValue?_finite {s : Sign} {m : ℕ} {e : ℤ} {h : 0 < m} {w : ℤ} :
    wholeValue? (.finite s m e h) = some w ↔ ∃ n : ℕ, (n : ℚ) = m * 2 ^ e ∧ w = s.apply n := by
  rcases e with k | k
  · have hvalue : (m : ℚ) * 2 ^ (Int.ofNat k) = ((m * Nat.pow 2 k : ℕ) : ℚ) := by
      simp only [Nat.pow_eq]
      push_cast
      rw [Int.ofNat_eq_natCast, zpow_natCast]
    rw [hvalue]
    simp only [wholeValue?, Option.some.injEq, Nat.cast_inj, exists_eq_left]
    exact eq_comm
  · have hunit : (0 : ℚ) < ((Nat.pow 2 (k + 1) : ℕ) : ℚ) := by
      exact_mod_cast Nat.pow_pos (by omega)
    have hvalue : (m : ℚ) * 2 ^ (Int.negSucc k) = m / ((Nat.pow 2 (k + 1) : ℕ) : ℚ) := by
      simp only [Nat.pow_eq]
      push_cast
      rw [zpow_negSucc, div_eq_mul_inv]
    rw [hvalue]
    simp only [wholeValue?]
    generalize Nat.pow 2 (k + 1) = unit at hunit
    have hunit' : 0 < unit := by exact_mod_cast hunit
    have hiff : ∀ n : ℕ, (n : ℚ) = m / unit ↔ n * unit = m := by
      intro n
      rw [eq_div_iff hunit.ne']
      exact_mod_cast Iff.rfl
    simp only [hiff]
    split
    · next hmod =>
        have hdiv : m / unit * unit = m := Nat.div_mul_cancel (Nat.dvd_of_mod_eq_zero hmod)
        constructor
        · intro h
          cases h
          exact ⟨m / unit, hdiv, rfl⟩
        · rintro ⟨n, hn, rfl⟩
          have : n = m / unit := by
            rw [← hn, Nat.mul_div_cancel n hunit']
          rw [this]
    · next hmod =>
        constructor
        · intro h
          cases h
        · rintro ⟨n, hn, -⟩
          exact absurd (by rw [← hn, Nat.mul_mod_left]) hmod

/-- **The whole number that a float with a sign is.** -/
theorem wholeValue?_signed {negative : Bool} {x : Float} {v : ℚ} (h : HasValue x v) {w : ℤ} :
    wholeValue? (signed negative x).toModel.unpack = some w ↔
      ∃ n : ℕ, (n : ℚ) = v ∧ w = signedInt negative n := by
  rw [unpack_signed h]
  rcases h with ⟨hx, rfl⟩ | ⟨m, e, hm, hx, rfl⟩
  · rw [hx]
    have hzero : ∀ s : Sign, wholeValue? (.zero s) = some 0 := fun s => rfl
    have hneg : (UnpackedFloat.zero .positive).neg = .zero .negative := rfl
    rw [hneg, ← apply_ite (UnpackedFloat.zero) (negative = true), hzero]
    constructor
    · intro h
      cases h
      exact ⟨0, by simp, by simp [signedInt]⟩
    · rintro ⟨n, hn, rfl⟩
      have : n = 0 := by exact_mod_cast hn
      simp [this, signedInt]
  · rw [hx]
    cases negative with
    | false => exact wholeValue?_finite
    | true => exact wholeValue?_finite

end Chronograph
