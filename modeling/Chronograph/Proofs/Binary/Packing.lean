import Chronograph.Proofs.Binary.Rounding

/-!
# Packed floats

A float is kept as its bits, and every operation unpacks and packs it.  Both
ways lose nothing: a pattern of bits that stands for a float is packed again to
itself (`pack_unpack_of_valid`), and a finite value in canonical form whose
exponent fits is unpacked again to itself (`unpack_pack`).  The exponents need two
bits for that, because the least and the greatest pattern are both taken.
-/

namespace Chronograph

open Float.Model (Format UnpackedFloat totalExponent)
open Float.Model.UnpackedFloat

variable {F : Format}

/-! ## Parts -/

/-- Every pattern of bits is a sign, an exponent and a mantissa. -/
theorem exists_packComponents (b : BitVec F.numBits) :
    ∃ s e m, b = packComponents F s e m :=
  ⟨_, _, _, (packComponents_unpackSign_unpackExponent_unpackMantissa b).symm⟩

/-- The bits of a mantissa with its first bit. -/
theorem toNat_append_one (m : BitVec F.mantissaBitsWithoutImplicit) :
    (1#1 ++ m).toNat = 2 ^ F.mantissaBitsWithoutImplicit + m.toNat := by
  have := m.isLt
  rw [BitVec.toNat_append, ← Nat.shiftLeft_add_eq_or_of_lt m.isLt, Nat.shiftLeft_eq]
  simp

theorem toNat_neg_one (n : ℕ) : (-1#n).toNat = 2 ^ n - 1 := by
  rw [BitVec.neg_one_eq_allOnes, BitVec.toNat_allOnes]

theorem four_le_two_pow {n : ℕ} (h : 2 ≤ n) : 4 ≤ 2 ^ n := by
  have := Nat.pow_le_pow_right (n := 2) (by omega) h
  omega

/-- The least exponent in terms of the bias. -/
theorem minExponent_eq (F : Format) :
    F.minExponent = 1 - (F.exponentBias : ℤ) - F.mantissaBitsWithoutImplicit := by
  have : 0 < 2 ^ (F.exponentBits - 1) := Nat.two_pow_pos _
  unfold Format.minExponent Format.exponentBias Format.mantissaBits
  push_cast [Nat.cast_sub this]
  ring

theorem toNat_ne_zero {n : ℕ} {e : BitVec n} (he : e ≠ 0#_) : e.toNat ≠ 0 :=
  fun h => he (BitVec.eq_of_toNat_eq (by simpa using h))

theorem unpack_subnormal (hF : 2 ≤ F.exponentBits) (s : Sign)
    {m : BitVec F.mantissaBitsWithoutImplicit} (hm : m ≠ 0#_) :
    unpack F (packComponents F s 0 m)
      = .finite s m.toNat F.minExponent (Nat.pos_of_ne_zero (toNat_ne_zero hm)) := by
  have hcap := four_le_two_pow hF
  have hinf : (0 : BitVec F.exponentBits) ≠ -1#_ := by
    intro h
    have := congrArg BitVec.toNat h
    rw [toNat_neg_one] at this
    simp only [BitVec.ofNat_eq_ofNat, BitVec.toNat_zero] at this
    omega
  have hexp : ((0 : BitVec F.exponentBits).toNat : ℤ)
      - (F.exponentBias + F.mantissaBitsWithoutImplicit) + 1 = F.minExponent := by
    rw [minExponent_eq]
    simp only [BitVec.ofNat_eq_ofNat, BitVec.toNat_zero]
    omega
  unfold unpack
  simp only [unpackExponent_packComponents, unpackMantissa_packComponents,
    unpackSign_packComponents, Sign.ofBitVec_toBitVec, hexp]
  rw [if_neg hinf, if_pos (by rfl), dif_neg hm]

theorem unpack_normal (s : Sign) {e : BitVec F.exponentBits}
    (m : BitVec F.mantissaBitsWithoutImplicit) (hinf : e ≠ -1#_) (he : e ≠ 0#_) :
    unpack F (packComponents F s e m)
      = .finite s (2 ^ F.mantissaBitsWithoutImplicit + m.toNat)
          (e.toNat - (F.exponentBias + F.mantissaBitsWithoutImplicit))
          (Nat.add_pos_left (Nat.two_pow_pos _) _) := by
  unfold unpack
  simp only [unpackExponent_packComponents, unpackMantissa_packComponents,
    unpackSign_packComponents, Sign.ofBitVec_toBitVec, toNat_append_one]
  rw [if_neg hinf, if_neg he]

/-- What a pattern of bits stands for: an infinity, NaN, a zero, a finite value
of the least exponent, or a finite value with its first bit left out. -/
theorem unpack_cases (b : BitVec F.numBits) :
    (∃ s, b = packedInfinity F s ∧ unpack F b = .infinity s) ∨
    (unpackExponent b = -1#_ ∧ unpackMantissa b ≠ 0#_ ∧ unpack F b = .notANumber) ∨
    (∃ s, b = packedZero F s ∧ unpack F b = .zero s) ∨
    (∃ s m, m ≠ 0#_ ∧ b = packComponents F s 0 m) ∨
    (∃ s e m, e ≠ -1#_ ∧ e ≠ 0#_ ∧ b = packComponents F s e m) := by
  obtain ⟨s, e, m, rfl⟩ := exists_packComponents b
  by_cases hinf : e = -1#_
  · unfold unpack
    simp only [unpackExponent_packComponents, unpackMantissa_packComponents,
      unpackSign_packComponents, Sign.ofBitVec_toBitVec]
    by_cases hm : m = 0#_
    · left
      rw [if_pos hinf, if_pos hm, hinf, hm]
      exact ⟨s, rfl, rfl⟩
    · right; left
      rw [if_pos hinf, if_neg hm]
      exact ⟨hinf, hm, rfl⟩
  · by_cases he : e = 0#_
    · by_cases hm : m = 0#_
      · right; right; left
        refine ⟨s, by rw [he, hm]; rfl, ?_⟩
        unfold unpack
        simp only [unpackExponent_packComponents, unpackMantissa_packComponents,
          unpackSign_packComponents, Sign.ofBitVec_toBitVec]
        rw [if_neg hinf, if_pos he, dif_pos hm]
      · right; right; right; left
        exact ⟨s, m, hm, by rw [he]; rfl⟩
    · right; right; right; right
      exact ⟨s, e, m, hinf, he, rfl⟩

/-- The exponent of a finite float is below the pattern of the infinities. -/
theorem toNat_lt_of_ne_neg_one {n : ℕ} {e : BitVec n} (he : e ≠ -1#_) : e.toNat + 1 < 2 ^ n := by
  have := e.isLt
  have hne : e.toNat ≠ (-1#n).toNat := fun h => he (BitVec.eq_of_toNat_eq h)
  rw [toNat_neg_one] at hne
  omega

/-! ## Packing finite values -/

theorem pack_finite_subnormal (hF : 2 ≤ F.exponentBits) (s : Sign)
    (m : BitVec F.mantissaBitsWithoutImplicit) (h : 0 < m.toNat) :
    pack F (.finite s m.toNat F.minExponent h) = packComponents F s 0 m := by
  have hcap := four_le_two_pow hF
  have hbiased : (F.minExponent + F.exponentBias + F.mantissaBitsWithoutImplicit).toNat = 1 := by
    rw [minExponent_eq]
    omega
  have hlog := (Nat.log2_lt (Nat.pos_iff_ne_zero.mp h)).mpr m.isLt
  unfold pack
  simp only [hbiased]
  rw [if_neg (by omega), if_neg (by unfold Format.mantissaBits; omega), BitVec.ofNat_toNat,
    BitVec.setWidth_eq]
  rfl

theorem pack_finite_normal (s : Sign) (e : BitVec F.exponentBits)
    (m : BitVec F.mantissaBitsWithoutImplicit) (he : e ≠ -1#_) {n : ℕ}
    (hn : n = 2 ^ F.mantissaBitsWithoutImplicit + m.toNat) (h : 0 < n) :
    pack F (.finite s n (e.toNat - (F.exponentBias + F.mantissaBitsWithoutImplicit)) h)
      = packComponents F s e m := by
  subst hn
  have hm := m.isLt
  have hbiased : ((e.toNat : ℤ) - (F.exponentBias + F.mantissaBitsWithoutImplicit)
      + F.exponentBias + F.mantissaBitsWithoutImplicit).toNat = e.toNat := by omega
  have hlt := toNat_lt_of_ne_neg_one he
  have hlog : (2 ^ F.mantissaBitsWithoutImplicit + m.toNat).log2 = F.mantissaBitsWithoutImplicit := by
    rw [Nat.log2_eq_iff (by omega), Nat.pow_succ]
    omega
  unfold pack
  simp only [hbiased, hlog]
  rw [if_neg (by omega), if_pos (by unfold Format.mantissaBits; omega), BitVec.ofNat_toNat,
    BitVec.setWidth_eq]
  congr 1
  apply BitVec.eq_of_toNat_eq
  rw [BitVec.toNat_ofNat, Nat.add_mod_left, Nat.mod_eq_of_lt hm]

/-! ## Unpacking what was packed -/

/-- The exponent of a float that is not too large for a format. -/
def FitsExponent (F : Format) (e : ℤ) : Prop :=
  e + F.exponentBias + F.mantissaBitsWithoutImplicit + 1 < 2 ^ F.exponentBits

theorem two_pow_mantissaBits (F : Format) :
    2 ^ F.mantissaBits = 2 * 2 ^ F.mantissaBitsWithoutImplicit := by
  rw [Format.mantissaBits, Nat.add_comm, Nat.pow_succ']

/-- A finite float is in canonical form, and its exponent fits. -/
theorem canonical_of_unpack (hF : 2 ≤ F.exponentBits) {b : BitVec F.numBits} {s : Sign} {m : ℕ}
    {e : ℤ} {h : 0 < m} (hb : unpack F b = .finite s m e h) :
    Canonical F m e ∧ FitsExponent F e := by
  have hcap := four_le_two_pow hF
  have hcap' : (4 : ℤ) ≤ 2 ^ F.exponentBits := by exact_mod_cast hcap
  have hmin := minExponent_eq F
  have hp := two_pow_mantissaBits F
  unfold FitsExponent
  rcases unpack_cases b with ⟨_, _, h⟩ | ⟨_, _, h⟩ | ⟨_, _, h⟩ | ⟨s', m', hm', rfl⟩ |
    ⟨s', e', m', hinf, he, rfl⟩
  · rw [h] at hb
    cases hb
  · rw [h] at hb
    cases hb
  · rw [h] at hb
    cases hb
  · rw [unpack_subnormal hF s' hm'] at hb
    cases hb
    have := m'.isLt
    exact ⟨⟨h, by omega, le_rfl, .inl rfl⟩, by omega⟩
  · rw [unpack_normal s' m' hinf he] at hb
    cases hb
    have := m'.isLt
    have hlt := toNat_lt_of_ne_neg_one hinf
    have hlt' : (e'.toNat : ℤ) + 1 < 2 ^ F.exponentBits := by exact_mod_cast hlt
    have hpos := toNat_ne_zero he
    refine ⟨⟨h, by omega, by omega, .inr ?_⟩, by omega⟩
    rw [Format.mantissaBits, Nat.add_sub_cancel_left]
    omega

/-- A float that is zero, special, or finite in canonical form. -/
def IsCanonical (F : Format) : UnpackedFloat → Prop
  | .finite _ m e _ => Canonical F m e
  | _ => True

/-- Every pattern of bits stands for a float in canonical form. -/
theorem isCanonical_unpack (hF : 2 ≤ F.exponentBits) (b : BitVec F.numBits) :
    IsCanonical F (unpack F b) := by
  rcases h : unpack F b with _ | _ | _ | _
  · trivial
  · trivial
  · trivial
  · exact (canonical_of_unpack hF h).1

/-- **A finite value in canonical form is unpacked again to itself.** -/
theorem unpack_pack (hF : 2 ≤ F.exponentBits) {s : Sign} {m : ℕ} {e : ℤ} (hc : Canonical F m e)
    (hfit : FitsExponent F e) (h : 0 < m) :
    unpack F (pack F (.finite s m e h)) = .finite s m e h := by
  have hmin := minExponent_eq F
  have hp := two_pow_mantissaBits F
  have hlow := hc.least
  have hlt := hc.lt
  unfold FitsExponent at hfit
  have hnormal : e = F.minExponent ∨ 2 ^ F.mantissaBitsWithoutImplicit ≤ m := by
    have := hc.normal
    rwa [Format.mantissaBits, Nat.add_sub_cancel_left] at this
  by_cases hm : m < 2 ^ F.mantissaBitsWithoutImplicit
  · have he : e = F.minExponent := by omega
    subst he
    have hbits : (BitVec.ofNat F.mantissaBitsWithoutImplicit m).toNat = m := by
      rw [BitVec.toNat_ofNat, Nat.mod_eq_of_lt hm]
    have hne : BitVec.ofNat F.mantissaBitsWithoutImplicit m ≠ 0#_ := by
      intro hzero
      rw [hzero, BitVec.toNat_zero] at hbits
      omega
    have := unpack_subnormal hF s hne
    rw [← pack_finite_subnormal hF s _ (Nat.pos_of_ne_zero (toNat_ne_zero hne))] at this
    simpa only [hbits] using this
  · obtain ⟨k, hk⟩ : ∃ k : ℕ, (k : ℤ) = e + F.exponentBias + F.mantissaBitsWithoutImplicit :=
      ⟨(e + F.exponentBias + F.mantissaBitsWithoutImplicit).toNat, by omega⟩
    have hkfit : k + 1 < 2 ^ F.exponentBits := by
      rw [← hk] at hfit
      exact_mod_cast hfit
    have hexp : (BitVec.ofNat F.exponentBits k).toNat = k := by
      rw [BitVec.toNat_ofNat, Nat.mod_eq_of_lt (by omega)]
    have hinf : BitVec.ofNat F.exponentBits k ≠ -1#_ := by
      intro h
      rw [h, toNat_neg_one] at hexp
      omega
    have hzero : BitVec.ofNat F.exponentBits k ≠ 0#_ := by
      intro h
      rw [h, BitVec.toNat_zero] at hexp
      omega
    obtain ⟨r, hr⟩ : ∃ r, m = 2 ^ F.mantissaBitsWithoutImplicit + r :=
      ⟨m - 2 ^ F.mantissaBitsWithoutImplicit, by omega⟩
    have hbits : (BitVec.ofNat F.mantissaBitsWithoutImplicit r).toNat = r := by
      rw [BitVec.toNat_ofNat, Nat.mod_eq_of_lt (by omega)]
    have he : e = k - (F.exponentBias + F.mantissaBitsWithoutImplicit) := by omega
    have := unpack_normal s (BitVec.ofNat F.mantissaBitsWithoutImplicit r) hinf hzero
    rw [← pack_finite_normal s _ _ hinf rfl (by positivity)] at this
    subst he hr
    simpa only [hbits, hexp] using this

/-- A finite value whose exponent does not fit becomes an infinity. -/
theorem unpack_pack_of_not_fits {s : Sign} {m : ℕ} {e : ℤ} (hleast : F.minExponent ≤ e)
    (hfit : ¬FitsExponent F e) (h : 0 < m) :
    unpack F (pack F (.finite s m e h)) = .infinity s := by
  have hmin := minExponent_eq F
  have hlarge : 2 ^ F.exponentBits ≤ (e + F.exponentBias + F.mantissaBitsWithoutImplicit).toNat + 1 := by
    unfold FitsExponent at hfit
    zify
    omega
  have hpack : pack F (.finite s m e h) = packComponents F s (-1#_) 0 := by
    unfold pack
    rw [if_pos hlarge]
    rfl
  rw [hpack]
  unfold unpack
  simp only [unpackExponent_packComponents, unpackMantissa_packComponents,
    unpackSign_packComponents, Sign.ofBitVec_toBitVec, if_true]
  rw [if_pos (by rfl)]

/-! ## The two widths -/

/-- A double-width float is packed again to itself. -/
@[simp] theorem float_pack_unpack (x : Float.Model) : Float.Model.pack x.unpack = x := by
  obtain ⟨bits, hvalid⟩ := x
  have hbits := pack_unpack_of_valid hvalid
  unfold Float.Model.pack Float.Model.unpack
  simp only [hbits]

/-- A single-width float is packed again to itself. -/
@[simp] theorem float32_pack_unpack (x : Float32.Model) : Float32.Model.pack x.unpack = x := by
  obtain ⟨bits, hvalid⟩ := x
  have hbits := pack_unpack_of_valid hvalid
  unfold Float32.Model.pack Float32.Model.unpack
  simp only [hbits]

/-- A finite double-width value in canonical form is unpacked to itself. -/
theorem float_unpack_pack {s : Sign} {m : ℕ} {e : ℤ} (hc : Canonical .binary64 m e)
    (hfit : FitsExponent .binary64 e) (h : 0 < m) :
    (Float.Model.pack (.finite s m e h)).unpack = .finite s m e h :=
  unpack_pack (F := .binary64) (by decide) hc hfit h

/-- A double-width value that is too large is unpacked to an infinity. -/
theorem float_unpack_pack_of_not_fits {s : Sign} {m : ℕ} {e : ℤ} (hc : Canonical .binary64 m e)
    (hfit : ¬FitsExponent .binary64 e) (h : 0 < m) :
    (Float.Model.pack (.finite s m e h)).unpack = .infinity s :=
  unpack_pack_of_not_fits (F := .binary64) hc.least hfit h

theorem isCanonical_float (x : Float) : IsCanonical .binary64 x.toModel.unpack :=
  isCanonical_unpack (F := .binary64) (by decide) _

theorem isCanonical_float32 (x : Float32) : IsCanonical .binary32 x.toModel.unpack :=
  isCanonical_unpack (F := .binary32) (by decide) _

end Chronograph
