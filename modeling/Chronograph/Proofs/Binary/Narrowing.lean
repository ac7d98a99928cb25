import Chronograph.Proofs.Binary.Sums

/-!
# Floats in narrower formats

A finite float stands for one rational (`exactValue?`).  Narrowed to a format it
keeps its sign, and its magnitude is rounded; a magnitude that is rounded to the
top of the format or beyond gives an infinity (`NarrowedTo`).  That is what both
the single-width and the half-width floats are made by (`narrowedTo_unpack_pack`).

The magnitudes that are too large begin below the top of the format already, half
a unit above its greatest value: the tie there goes to the even neighbour, which is
the top (`RoundsTo.top_le_iff`).
-/

namespace Chronograph

open Float.Model (Format UnpackedFloat)
open Float.Model.UnpackedFloat

/-! ## Exact values -/

/-- A rational with a sign in front of it. -/
def withSign : Sign → ℚ → ℚ
  | .negative, q => -q
  | .positive, q => q

theorem abs_withSign (s : Sign) {q : ℚ} (hq : 0 ≤ q) : |withSign s q| = q := by
  cases s with
  | negative =>
      show |-q| = q
      rw [abs_neg, abs_of_nonneg hq]
  | positive => exact abs_of_nonneg hq

theorem withSign_natCast (s : Sign) (n : ℕ) : withSign s n = (s.apply n : ℤ) := by
  cases s with
  | negative => exact (Int.cast_neg _).symm
  | positive => rfl

/-- The rational that a float is, if it is finite. -/
def exactValue? : UnpackedFloat → Option ℚ
  | .zero _ => some 0
  | .finite s m e _ => some (withSign s (m * 2 ^ e))
  | .infinity _ | .notANumber => none

theorem isFinite_iff_exactValue? {u : UnpackedFloat} :
    u.isFinite = true ↔ ∃ q, exactValue? u = some q := by
  cases u <;> simp [UnpackedFloat.isFinite, exactValue?]

theorem isNaN_and_isInf_of_isFinite {u : UnpackedFloat} (h : u.isFinite = true) :
    u.isNaN = false ∧ u.isInf = false := by
  cases u with
  | notANumber => cases h
  | infinity s => cases h
  | zero s => exact ⟨rfl, rfl⟩
  | finite s m e hm => exact ⟨rfl, rfl⟩

/-- What is neither finite nor NaN is infinite. -/
theorem isInf_iff {u : UnpackedFloat} (h : u.isNaN = false) :
    u.isInf = true ↔ ¬ u.isFinite = true := by
  cases u with
  | notANumber => cases h
  | infinity s => exact iff_of_true rfl Bool.false_ne_true
  | zero s => exact iff_of_false Bool.false_ne_true fun hnot => hnot rfl
  | finite s m e hm => exact iff_of_false Bool.false_ne_true fun hnot => hnot rfl

/-- A float has a sign and a magnitude. -/
inductive HasMagnitude (s : Sign) : ℚ → UnpackedFloat → Prop
  | zero : HasMagnitude s 0 (.zero s)
  | finite (m : ℕ) (e : ℤ) (h : 0 < m) : HasMagnitude s (m * 2 ^ e) (.finite s m e h)

theorem HasMagnitude.nonneg {s : Sign} {q : ℚ} {u : UnpackedFloat} (h : HasMagnitude s q u) :
    0 ≤ q := by
  cases h with
  | zero => exact le_rfl
  | finite m e hm => exact mul_nonneg (Nat.cast_nonneg m) (two_zpow_pos e).le

theorem HasMagnitude.exactValue? {s : Sign} {q : ℚ} {u : UnpackedFloat} (h : HasMagnitude s q u) :
    exactValue? u = some (withSign s q) := by
  cases h with
  | zero => cases s <;> simp [Chronograph.exactValue?, withSign]
  | finite m e hm => rfl

theorem HasMagnitude.isFinite {s : Sign} {q : ℚ} {u : UnpackedFloat} (h : HasMagnitude s q u) :
    u.isFinite = true := by
  cases h <;> rfl

/-- A value that is not negative has the positive sign. -/
theorem HasValue.hasMagnitude {x : Float} {v : ℚ} (h : HasValue x v) :
    HasMagnitude .positive v x.toModel.unpack := by
  cases h with
  | inl hzero =>
      rw [hzero.1, hzero.2]
      exact .zero
  | inr hfinite =>
      obtain ⟨m, e, hm, hx, rfl⟩ := hfinite
      rw [hx]
      exact .finite m e hm

/-- With its sign turned it has the negative one. -/
theorem HasValue.hasMagnitude_neg {x : Float} {v : ℚ} (h : HasValue x v) :
    HasMagnitude .negative v (-x).toModel.unpack := by
  have hneg : (-x).toModel.unpack = x.toModel.unpack.neg := @unpack_signed true x v h
  rw [hneg]
  cases h with
  | inl hzero =>
      rw [hzero.1, hzero.2]
      exact .zero
  | inr hfinite =>
      obtain ⟨m, e, hm, hx, rfl⟩ := hfinite
      rw [hx]
      exact .finite m e hm

/-- The whole number that a float is, is its exact value. -/
theorem wholeValue?_eq_some_iff {u : UnpackedFloat} {w : ℤ} :
    wholeValue? u = some w ↔ exactValue? u = some (w : ℚ) := by
  cases u with
  | notANumber => simp [wholeValue?, exactValue?]
  | infinity s => simp [wholeValue?, exactValue?]
  | zero s =>
      simp only [wholeValue?, exactValue?, Option.some.injEq]
      rw [eq_comm, @eq_comm ℚ]
      exact Int.cast_eq_zero.symm
  | finite s m e h =>
      rw [wholeValue?_finite]
      simp only [exactValue?, Option.some.injEq]
      have hq : (0 : ℚ) ≤ m * 2 ^ e := mul_nonneg (Nat.cast_nonneg m) (two_zpow_pos e).le
      constructor
      · intro hn
        obtain ⟨n, hn, rfl⟩ := hn
        rw [← hn, withSign_natCast]
      · intro hw
        have habs : ((w.natAbs : ℕ) : ℚ) = m * 2 ^ e := by
          rw [← abs_withSign s hq, hw, Nat.cast_natAbs]
          exact Int.cast_abs
        refine ⟨w.natAbs, habs, ?_⟩
        rw [← habs] at hw
        rw [withSign_natCast] at hw
        exact_mod_cast hw.symm

/-- A float is equal to zero exactly if it is one of the zeros. -/
theorem beq_zero_iff {x : Float} : (x == 0) = true ↔ exactValue? x.toModel.unpack = some 0 := by
  have hzero : (0 : Float).toModel.unpack = .zero .positive := rfl
  show (x.toModel.unpack).beq (0 : Float).toModel.unpack = true ↔ _
  rw [hzero]
  cases x.toModel.unpack with
  | notANumber => exact iff_of_false (fun h => by cases h) (fun h => by cases h)
  | infinity s => cases s <;> exact iff_of_false (fun h => by cases h) (fun h => by cases h)
  | zero s => exact iff_of_true rfl rfl
  | finite s m e h =>
      have hpos : (0 : ℚ) < m * 2 ^ e := mul_pos (by exact_mod_cast h) (two_zpow_pos e)
      have hbeq : (Float.Model.UnpackedFloat.finite s m e h).beq (.zero .positive) = false := by
        cases s <;> rfl
      refine iff_of_false (by rw [hbeq]; exact Bool.false_ne_true) ?_
      intro hvalue
      have habs := abs_withSign s hpos.le
      rw [Option.some.inj hvalue, abs_zero] at habs
      exact hpos.ne habs

/-- Rounding a whole number gives zero only for zero. -/
theorem RoundsTo.eq_zero_iff {k : ℕ} {v : ℚ} (h : RoundsTo .binary64 k v) : v = 0 ↔ k = 0 := by
  constructor
  · intro hv
    by_contra hk
    have := h.one_le (Nat.pos_of_ne_zero hk)
    linarith
  · intro hk
    rw [hk, Nat.cast_zero] at h
    exact h.unique (roundsTo_zero _)

/-! ## Packing what is not finite -/

variable {F : Format}

theorem neg_one_ne_zero (F : Format) : (0 : BitVec F.exponentBits) ≠ -1#_ := by
  intro h
  have htwo : 2 ≤ 2 ^ F.exponentBits := by
    have := Nat.pow_le_pow_right (n := 2) (by omega) F.he
    omega
  have := congrArg BitVec.toNat h
  rw [toNat_neg_one] at this
  simp only [BitVec.ofNat_eq_ofNat, BitVec.toNat_zero] at this
  omega

theorem unpack_pack_zero (F : Format) (s : Sign) : unpack F (pack F (.zero s)) = .zero s := by
  show unpack F (packComponents F s 0 0) = _
  unfold unpack
  simp only [unpackExponent_packComponents, unpackMantissa_packComponents,
    unpackSign_packComponents, Sign.ofBitVec_toBitVec]
  rw [if_neg (neg_one_ne_zero F), if_pos (by rfl), dif_pos (by rfl)]

theorem unpack_pack_infinity (F : Format) (s : Sign) :
    unpack F (pack F (.infinity s)) = .infinity s := by
  show unpack F (packComponents F s (-1#_) 0) = _
  unfold unpack
  simp only [unpackExponent_packComponents, unpackMantissa_packComponents,
    unpackSign_packComponents, Sign.ofBitVec_toBitVec, if_true]
  rw [if_pos (by rfl)]

theorem unpack_pack_notANumber (F : Format) :
    unpack F (pack F .notANumber) = .notANumber := by
  have hquiet : 1#F.mantissaBitsWithoutImplicit <<< (F.mantissaBitsWithoutImplicit - 1) ≠ 0#_ := by
    intro h
    have hbits := F.hm
    have hlt : 2 ^ (F.mantissaBitsWithoutImplicit - 1) < 2 ^ F.mantissaBitsWithoutImplicit :=
      Nat.pow_lt_pow_right (by omega) (by omega)
    have hone : 1 < 2 ^ F.mantissaBitsWithoutImplicit := Nat.one_lt_two_pow (by omega)
    have := congrArg BitVec.toNat h
    rw [BitVec.toNat_shiftLeft, BitVec.toNat_ofNat, Nat.mod_eq_of_lt hone, Nat.one_shiftLeft,
      Nat.mod_eq_of_lt hlt, BitVec.toNat_zero] at this
    exact absurd this (Nat.two_pow_pos _).ne'
  show unpack F (packedNaN F) = _
  unfold unpack packedNaN
  simp only [unpackExponent_packComponents, unpackMantissa_packComponents, if_true]
  rw [if_neg hquiet]

/-! ## Narrowing -/

/-- What a float becomes in a format: its sign with its magnitude rounded, or the
infinity of its sign if that is too large. -/
inductive NarrowedTo (F : Format) : UnpackedFloat → UnpackedFloat → Prop
  | value {s : Sign} {q v : ℚ} {u u' : UnpackedFloat} (hu : HasMagnitude s q u)
      (hround : RoundsTo F q v) (hlt : v < 2 ^ topExponent F) (hu' : HasMagnitude s v u') :
      NarrowedTo F u u'
  | tooLarge {s : Sign} {q v : ℚ} {u : UnpackedFloat} (hu : HasMagnitude s q u)
      (hround : RoundsTo F q v) (hle : 2 ^ topExponent F ≤ v) : NarrowedTo F u (.infinity s)
  | infinity (s : Sign) : NarrowedTo F (.infinity s) (.infinity s)
  | notANumber : NarrowedTo F .notANumber .notANumber

/-- **Narrowing rounds the magnitude**, and packing keeps what is not too large. -/
theorem narrowedTo_unpack_pack (hF : 2 ≤ F.exponentBits) (u : UnpackedFloat) :
    NarrowedTo F u (unpack F (pack F (narrowTo F u))) := by
  cases u with
  | notANumber =>
      show NarrowedTo F _ (unpack F (pack F .notANumber))
      rw [unpack_pack_notANumber]
      exact .notANumber
  | infinity s =>
      show NarrowedTo F _ (unpack F (pack F (.infinity s)))
      rw [unpack_pack_infinity]
      exact .infinity s
  | zero s =>
      show NarrowedTo F _ (unpack F (pack F (.zero s)))
      rw [unpack_pack_zero]
      exact .value .zero (roundsTo_zero F) (two_zpow_pos _) .zero
  | finite s M E h =>
      have hq : (0 : ℚ) ≤ M * 2 ^ E := mul_nonneg (Nat.cast_nonneg M) (two_zpow_pos E).le
      obtain ⟨e, hunit⟩ := exists_unitExponent F ((M : ℚ) * 2 ^ E)
      obtain ⟨m, hm⟩ := exists_nearestEven (div_nonneg hq (two_zpow_pos e).le)
      have hround : RoundsTo F (M * 2 ^ E) (m * 2 ^ e) := ⟨e, m, hunit, hm, rfl⟩
      have hnarrow : narrowTo F (.finite s M E h) = carried F s m e := round_eq h hunit hm
      rw [hnarrow]
      by_cases hne : m = 0
      · subst hne
        rw [Nat.cast_zero, zero_mul] at hround
        rw [carried_zero, unpack_pack_zero]
        exact .value (.finite M E h) hround (two_zpow_pos _) .zero
      · obtain ⟨m', e', h', hc, hvalue, hcarried⟩ := carried_canonical hunit hm hne
        rw [← hvalue] at hround
        rw [hcarried s]
        by_cases hfit : FitsExponent F e'
        · rw [unpack_pack hF hc hfit h']
          exact .value (.finite M E h) hround ((fitsExponent_iff_lt hF hc).mp hfit)
            (.finite m' e' h')
        · rw [unpack_pack_of_not_fits hc.least hfit h']
          rw [fitsExponent_iff_lt hF hc, not_lt] at hfit
          exact .tooLarge (.finite M E h) hround hfit

/-- A single-width float is the double-width float narrowed. -/
theorem narrowedTo_narrowToSingle (x : Float) :
    NarrowedTo .binary32 x.toModel.unpack (narrowToSingle x).toModel.unpack :=
  narrowedTo_unpack_pack (F := .binary32) (by decide) x.toModel.unpack

/-- The bits of a half-width float are those of the double-width float narrowed. -/
theorem narrowedTo_halfBits (x : Float) :
    NarrowedTo binary16 x.toModel.unpack (unpack binary16 (halfBits x)) :=
  narrowedTo_unpack_pack (F := binary16) (by decide) x.toModel.unpack

/-! ## Magnitudes that are too large -/

/-- The least magnitude that is too large for a format: half a unit above its greatest
value. -/
def overflowLimit (F : Format) : ℚ :=
  2 ^ topExponent F - 2 ^ (topExponent F - F.mantissaBits - 1)

theorem overflowLimit_binary32 : overflowLimit .binary32 = 2 ^ 128 - 2 ^ 103 := by
  have htop : topExponent .binary32 = 128 := by decide
  have hbits : Format.binary32.mantissaBits = 24 := rfl
  unfold overflowLimit
  rw [htop, hbits]
  norm_num

/-- In the topmost unit, everything up to half a unit below the top is rounded down. -/
theorem two_pow_le_of_nearestEven {y : ℚ} {m p : ℕ} (hp : 0 < p) (hm : NearestEven y m)
    (hy : (2 : ℚ) ^ p - 1 / 2 ≤ y) : 2 ^ p ≤ m := by
  have heven : 2 ^ p % 2 = 0 := by
    rw [← Nat.sub_add_cancel hp, Nat.pow_succ, Nat.mul_mod_left]
  have hbelow : ∀ k : ℕ, 2 ^ p - 1 - (k : ℚ) < m → ¬ m + 1 + k ≤ 2 ^ p := by
    intro k hk hle
    have : (m : ℚ) + 1 + k ≤ 2 ^ p := by exact_mod_cast hle
    linarith
  cases hm with
  | inl hlt =>
      have := hbelow 0 (by push_cast; linarith [(abs_lt.mp hlt).2])
      omega
  | inr htie =>
      -- the greatest mantissa is odd, and a tie does not go there
      have := hbelow 1 (by push_cast; linarith [(abs_le.mp htie.1.le).2])
      have := htie.2
      omega

/-- **The magnitudes that are rounded to the top**, or beyond. -/
theorem RoundsTo.top_le_iff (hF : 2 ≤ F.exponentBits) {x v : ℚ} (h : RoundsTo F x v) :
    2 ^ topExponent F ≤ v ↔ overflowLimit F ≤ x := by
  have hp := mantissaBits_pos F
  have hleast := minExponent_add_le hF
  have hunit := two_zpow_pos (topExponent F - F.mantissaBits)
  have htop : (2 : ℚ) ^ topExponent F
      = 2 ^ F.mantissaBits * 2 ^ (topExponent F - F.mantissaBits) := by
    rw [← zpow_natCast, ← two_zpow_add]
    congr 1
    omega
  have hhalf : (2 : ℚ) ^ (topExponent F - F.mantissaBits - 1)
      = 2 ^ (topExponent F - F.mantissaBits) / 2 := by
    rw [zpow_sub₀ (by norm_num), zpow_one]
  have hlimit : overflowLimit F = (2 ^ F.mantissaBits - 1 / 2)
      * 2 ^ (topExponent F - F.mantissaBits) := by
    unfold overflowLimit
    rw [hhalf, htop]
    ring
  constructor
  · intro hv
    by_contra hx
    rw [not_le] at hx
    -- the greatest value of the format is nearer
    have hgreatest : Representable F
        ((2 ^ F.mantissaBits - 1 : ℕ) * 2 ^ (topExponent F - F.mantissaBits)) :=
      ⟨_, _, Nat.sub_le _ _, by omega, rfl⟩
    have hcast : ((2 ^ F.mantissaBits - 1 : ℕ) : ℚ) = 2 ^ F.mantissaBits - 1 := by
      push_cast [Nat.cast_sub (Nat.one_le_two_pow (n := F.mantissaBits))]
      rfl
    have hnearest := h.nearest hgreatest
    have hbelow := h.le_of_le hgreatest
    rw [hcast] at hnearest hbelow
    rw [htop] at hv
    rw [hlimit] at hx
    have hgap : (2 ^ F.mantissaBits - 1) * 2 ^ (topExponent F - F.mantissaBits) < x := by
      by_contra hle
      have := hbelow (not_lt.mp hle)
      linarith
    have hfar : v - x ≤ |x - v| := by
      rw [abs_sub_comm]
      exact le_abs_self _
    rw [abs_of_pos (sub_pos.mpr hgap)] at hnearest
    linarith
  · intro hx
    by_cases hlarge : 2 ^ topExponent F ≤ x
    · refine h.ge_of_ge ⟨1, topExponent F, Nat.one_le_two_pow, by omega, ?_⟩ hlarge
      rw [Nat.cast_one, one_mul]
    · obtain ⟨e, m, hxunit, hm, rfl⟩ := h
      have hone : (1 : ℚ) / 2 ≤ 2 ^ F.mantissaBits / 2 :=
        div_le_div_of_nonneg_right (one_le_pow₀ (by norm_num)) (by norm_num)
      have htopunit : UnitExponent F x (topExponent F - F.mantissaBits) := by
        refine ⟨by omega, ?_, .inr ?_⟩
        · rw [Int.sub_add_cancel]
          exact not_le.mp hlarge
        · have hbinade : (2 : ℚ) ^ (topExponent F - F.mantissaBits + F.mantissaBits - 1)
              = 2 ^ F.mantissaBits / 2 * 2 ^ (topExponent F - F.mantissaBits) := by
            rw [Int.sub_add_cancel, zpow_sub₀ (by norm_num), zpow_one, htop]
            ring
          rw [hbinade]
          refine le_trans (mul_le_mul_of_nonneg_right ?_ hunit.le) (hlimit ▸ hx)
          linarith
      have he := hxunit.unique htopunit
      subst he
      rw [hlimit, ← le_div_iff₀ hunit] at hx
      have hle := two_pow_le_of_nearestEven hp hm hx
      rw [htop]
      exact mul_le_mul_of_nonneg_right (by exact_mod_cast hle) hunit.le

/-- A narrowed float is finite exactly if it was, and not too large. -/
theorem NarrowedTo.isFinite_iff (hF : 2 ≤ F.exponentBits) {u u' : UnpackedFloat}
    (h : NarrowedTo F u u') :
    u'.isFinite = true ↔ ∃ q, exactValue? u = some q ∧ |q| < overflowLimit F := by
  cases h with
  | value hu hround hlt hu' =>
      rw [← not_le, hround.top_le_iff hF, not_le] at hlt
      refine iff_of_true hu'.isFinite ⟨_, hu.exactValue?, ?_⟩
      rw [abs_withSign _ hu.nonneg]
      exact hlt
  | tooLarge hu hround hle =>
      rw [hround.top_le_iff hF] at hle
      refine iff_of_false (by simp [UnpackedFloat.isFinite]) ?_
      intro hfinite
      obtain ⟨q, hq, hlt⟩ := hfinite
      rw [hu.exactValue?, Option.some.injEq] at hq
      rw [← hq, abs_withSign _ hu.nonneg] at hlt
      exact absurd hle (not_le.mpr hlt)
  | infinity s => simp [UnpackedFloat.isFinite, exactValue?]
  | notANumber => simp [UnpackedFloat.isFinite, exactValue?]

/-- No narrowed float is NaN but NaN. -/
theorem NarrowedTo.isNaN_iff {u u' : UnpackedFloat} (h : NarrowedTo F u u') :
    u'.isNaN = true ↔ u.isNaN = true := by
  cases h with
  | value hu hround hlt hu' => cases hu <;> cases hu' <;> simp [UnpackedFloat.isNaN]
  | tooLarge hu hround hle => cases hu <;> simp [UnpackedFloat.isNaN]
  | infinity s => rfl
  | notANumber => rfl

end Chronograph
