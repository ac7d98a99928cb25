import Chronograph.Proofs.Binary.Sums
import Chronograph.Proofs.Decimal.Size
import Chronograph.Proofs.Json.Literals
import Chronograph.Proofs.Json.Powers
import Chronograph.Proofs.Json.Spacing

/-!
# Floats that are written and read again

A finite float is written as the shortest decimal that is rounded to it, and
read as a significand and a power of ten.  The reader rounds the significand,
takes a rounded power, and rounds their product or quotient, so the float that
it gives (`reread`) may lie beside the one that was written.

Reading never fails: a decimal that is rounded to a float is not so much larger
that its product overflows (`exists_reread`).  And it gives the same float
wherever only the last of the three roundings happens: the significand is at most
`2 ^ 53` and the power at most the twenty-second (`IsShort.reread_eq_self`).  Whole
microseconds are of this kind for as long as ten of them still fit
(`isShort_nearestFloat`).
-/

namespace Chronograph.Json

open Float.Model (UnpackedFloat)
open Float.Model.UnpackedFloat (Sign)

/-- The float that the text of a float is read as. -/
def reread (x : Float) : Except Fault Float := readWhole readFloat (String.ofList (floatText x))

/-- Whether a sign is a minus. -/
def isMinus : Sign → Bool
  | .negative => true
  | .positive => false

/-- The sign and the decimal that a finite float is written with. -/
def spelling? (x : Float) : Option (Bool × Decimal) :=
  match x.toModel.unpack with
  | .notANumber | .infinity _ => none
  | .zero s => some (isMinus s, ⟨0, 0⟩)
  | .finite s m e _ => some (isMinus s, shortest .binary64 .even m e)

/-- Exactly the finite floats have a spelling. -/
theorem exists_spelling {x : Float} (h : x.isFinite = true) :
    ∃ negative d, spelling? x = some (negative, d) := by
  have hfinite : x.toModel.unpack.isFinite = true := h
  unfold spelling?
  cases hx : x.toModel.unpack with
  | notANumber => rw [hx] at hfinite; cases hfinite
  | infinity s => rw [hx] at hfinite; cases hfinite
  | zero s => exact ⟨_, _, rfl⟩
  | finite s m e hm => exact ⟨_, _, rfl⟩

/-- A float with a spelling is a zero or a finite float with its shortest decimal. -/
theorem spelling_cases {x : Float} {negative : Bool} {d : Decimal}
    (h : spelling? x = some (negative, d)) :
    (∃ s, x.toModel.unpack = .zero s ∧ negative = isMinus s ∧ d = ⟨0, 0⟩) ∨
      ∃ s m e hm, x.toModel.unpack = .finite s m e hm ∧ negative = isMinus s ∧
        d = shortest .binary64 .even m e := by
  unfold spelling? at h
  cases hx : x.toModel.unpack with
  | notANumber => rw [hx] at h; cases h
  | infinity s => rw [hx] at h; cases h
  | zero s =>
      rw [hx] at h
      cases h
      exact .inl ⟨s, rfl, rfl, rfl⟩
  | finite s m e hm =>
      rw [hx] at h
      cases h
      exact .inr ⟨s, m, e, hm, rfl, rfl, rfl⟩

theorem signText_eq (s : Sign) : signText s = if isMinus s then ['-'] else [] := by
  cases s <;> rfl

theorem floatText_eq {x : Float} {negative : Bool} {d : Decimal}
    (h : spelling? x = some (negative, d)) :
    floatText x = (if negative then ['-'] else []) ++ decimalText d := by
  unfold floatText
  cases spelling_cases h with
  | inl hzero =>
      obtain ⟨s, hx, rfl, rfl⟩ := hzero
      rw [hx, ← signText_eq]
  | inr hfinite =>
      obtain ⟨s, m, e, hm, hx, rfl, rfl⟩ := hfinite
      rw [hx, ← signText_eq]

/-- A float without a spelling is written as a word. -/
theorem floatText_null {x : Float} (h : spelling? x = none) : floatText x = "null".toList := by
  unfold spelling? at h
  unfold floatText
  cases hx : x.toModel.unpack with
  | notANumber => rfl
  | infinity s => rfl
  | zero s => rw [hx] at h; cases h
  | finite s m e hm => rw [hx] at h; cases h

/-! ## What is read -/

theorem not_isSpace_of_isDigit {c : Char} (h : c.isDigit = true) : isSpace c = false := by
  cases hc : isSpace c with
  | false => rfl
  | true =>
      simp only [isSpace, Bool.or_eq_true, beq_iff_eq] at hc
      obtain ((rfl | rfl) | rfl) | rfl := hc <;> exact absurd h (by decide)

/-- A number is read behind its sign. -/
theorem readNumberAs_signed {expected : Expected} {negative : Bool} {spaces : List Char}
    (hspaces : IsSpaces spaces) {c : Char} (hc : c.isDigit = true) (s : List Char) :
    readNumberAs expected (spaces ++ ((if negative then ['-'] else []) ++ c :: s)) =
      unsignedNumber negative (c :: s) := by
  cases negative with
  | true =>
      have hskip := skipSpace_append hspaces (c := '-') (by decide) (c :: s)
      rw [if_pos rfl, List.singleton_append, readNumberAs, hskip]
      rfl
  | false =>
      have hskip := skipSpace_append hspaces (not_isSpace_of_isDigit hc) s
      have hminus : c ≠ '-' := by
        intro heq
        rw [heq] at hc
        exact absurd hc (by decide)
      have hstart : startsWithDigit (c :: s) = true := hc
      rw [if_neg (by decide), List.nil_append, readNumberAs, hskip]
      split
      · next heq => cases heq
      · next heq => exact absurd (List.head_eq_of_cons_eq heq) hminus
      · rw [if_pos hstart]

/-- The text of a decimal starts with a digit. -/
theorem exists_decimalText_cons (d : Decimal) :
    ∃ c s, decimalText d = c :: s ∧ c.isDigit = true := by
  have hdigits := allDigits_digitsOf d.digits
  obtain ⟨c, ds, hcons⟩ := List.exists_cons_of_ne_nil (digitsOf_ne_nil d.digits)
  rw [hcons] at hdigits
  have hc := hdigits c List.mem_cons_self
  unfold decimalText
  split
  · unfold Decimal.positional
    split
    · rw [hcons]
      exact ⟨c, _, rfl, hc⟩
    · next k _ =>
        obtain ⟨whole, fraction, htext, hwhole, -⟩ := pointed_parts d.digits (Nat.succ_pos k)
        obtain ⟨first, rest, hfirst⟩ := List.exists_cons_of_ne_nil hwhole.ne_nil
        have hall := hwhole.all
        rw [hfirst] at hall htext
        exact ⟨first, _, htext, hall first List.mem_cons_self⟩
  · unfold Decimal.scientific
    rw [hcons]
    cases ds with
    | nil => exact ⟨c, _, rfl, hc⟩
    | cons next rest => exact ⟨c, _, rfl, hc⟩

/-- The significand that a notation shows has 64 bits if the decimal's digits
have. -/
theorem asWritten_fits {d : Decimal} (h : d.digits < significandLimit) :
    (asWritten d).digits < significandLimit := by
  unfold asWritten
  by_cases hpositional : -5 ≤ d.leadingExponent ∧ d.leadingExponent < 16
  · rw [if_pos hpositional]
    obtain ⟨n, e⟩ := d
    cases e with
    | negSucc k => exact h
    | ofNat k =>
        -- the places of the digits and the zeros behind them are at most sixteen
        have hlength : (digitsOf n).length + k ≤ 16 := by
          have hlead := hpositional.2
          unfold Decimal.leadingExponent at hlead
          have : ((k : ℕ) : ℤ) = Int.ofNat k := rfl
          dsimp only at hlead
          omega
        have hn : n < 10 ^ (digitsOf n).length := by
          have := digitsValue_lt (allDigits_digitsOf n)
          rwa [digitsValue_digitsOf] at this
        have hlt : n * 10 ^ (k + 1) < 10 ^ 17 := by
          calc n * 10 ^ (k + 1) < 10 ^ (digitsOf n).length * 10 ^ (k + 1) :=
                Nat.mul_lt_mul_of_pos_right hn (Nat.pow_pos (by omega))
            _ = 10 ^ ((digitsOf n).length + (k + 1)) := (Nat.pow_add _ _ _).symm
            _ ≤ 10 ^ 17 := Nat.pow_le_pow_right (by omega) (by omega)
        have hlimit : significandLimit = 2 ^ 64 := rfl
        show n * 10 ^ (k + 1) < significandLimit
        omega
  · rw [if_neg hpositional]
    exact h

theorem value_asWritten (d : Decimal) : (asWritten d).value = d.value := by
  unfold asWritten
  split
  · obtain ⟨n, e⟩ := d
    cases e with
    | negSucc k => rfl
    | ofNat k =>
        unfold Decimal.value
        push_cast
        rw [Int.ofNat_eq_natCast, zpow_natCast, zpow_neg, zpow_one, pow_succ]
        field_simp
  · rfl

/-- **The decimal of a float** can be read: it has 64 bits at most, and the
exponent of a float. -/
theorem spelling_fits {x : Float} {negative : Bool} {d : Decimal}
    (h : spelling? x = some (negative, d)) :
    (asWritten d).digits < significandLimit ∧ d.leadingExponent.natAbs < exponentLimit ∧
      (d.digits = 0 → d.exponent = 0) := by
  cases spelling_cases h with
  | inl hzero =>
      obtain ⟨s, -, -, rfl⟩ := hzero
      exact ⟨by decide, by decide, fun _ => rfl⟩
  | inr hfinite =>
      obtain ⟨s, m, e, hm, hx, -, rfl⟩ := hfinite
      obtain ⟨hc, hfits⟩ := canonical_of_unpack (F := .binary64) (by decide) hx
      obtain ⟨hpos, hdigits, hexponent, hlead⟩ := shortest_size .even hc hfits
      refine ⟨asWritten_fits hdigits, ?_, fun hzero => absurd hzero hpos.ne'⟩
      have hlimit : exponentLimit = 2 ^ 31 := rfl
      have hfirst : (shortest .binary64 .even m e).exponent ≤
          (shortest .binary64 .even m e).leadingExponent := by
        unfold Decimal.leadingExponent
        omega
      omega

/-- **The text of a float is read** as the significand and the power of ten that
it shows, behind any white space and before anything that may follow. -/
theorem readNumberAs_floatText (expected : Expected) {x : Float} {negative : Bool} {d : Decimal}
    (h : spelling? x = some (negative, d)) {spaces rest : List Char} (hspaces : IsSpaces spaces)
    (hrest : Ends rest) :
    readNumberAs expected (spaces ++ (floatText x ++ rest)) =
      floatResult negative (asWritten d).digits (asWritten d).exponent rest := by
  obtain ⟨hfits, hexponent, hzero⟩ := spelling_fits h
  obtain ⟨c, s, hcons, hc⟩ := exists_decimalText_cons d
  have hread := unsignedNumber_decimalText negative hfits hexponent hzero hrest
  rw [hcons, List.cons_append] at hread
  rw [floatText_eq h, hcons, List.append_assoc, List.cons_append,
    readNumberAs_signed hspaces hc, hread]

/-- What a float is read as follows from its sign and its decimal. -/
theorem reread_eq {x : Float} {negative : Bool} {d : Decimal}
    (h : spelling? x = some (negative, d)) :
    reread x = floatOfParts negative (asWritten d).digits (asWritten d).exponent := by
  have hread := readNumberAs_floatText .float h isSpaces_nil ends_nil
  rw [List.nil_append, List.append_nil] at hread
  unfold reread readWhole readFloat
  rw [String.toList_ofList, hread]
  unfold floatResult
  cases floatOfParts negative (asWritten d).digits (asWritten d).exponent with
  | error fault => rfl
  | ok y => rfl

/-! ## Reading never fails -/

/-- A significand times a power of ten is a float, if it is not too near to the
end of the floats for two roundings. -/
theorem exists_floatOfParts_times {negative : Bool} {s k : ℕ} (hs : s < significandLimit)
    (hpos : 0 < s) (hk : k ≤ 308)
    (hbound : (s : ℚ) * 10 ^ k ≤ (2 ^ 53 - 7 / 2) * 2 ^ (971 : ℤ)) :
    ∃ x, floatOfParts negative s (.ofNat k) = .ok x := by
  obtain ⟨v₀, hv₀, hx₀⟩ := significand_value hs
  obtain ⟨p, hp, hpower⟩ := (isRounded_powerOfTen hk).hasValue representable_greatest greatest_lt
    (ten_pow_le_greatest hk)
  have hs1 : (1 : ℚ) ≤ s := by exact_mod_cast hpos
  have hten : (1 : ℚ) ≤ 10 ^ k := one_le_pow₀ (by norm_num)
  have hone : 1 ≤ p := by
    have := hp.ge_of_ge (representable_ten_pow (Nat.zero_le 22)) (by rw [pow_zero]; exact hten)
    rwa [pow_zero] at this
  have hgreatest : v₀ * p ≤ (2 ^ 53 - 1 : ℕ) * 2 ^ (971 : ℤ) := by
    have hunit : (0 : ℚ) ≤ 1 + 1 / 2 ^ 53 := by norm_num
    calc v₀ * p ≤ s * (1 + 1 / 2 ^ 53) * (10 ^ k * (1 + 1 / 2 ^ 53)) :=
          mul_le_mul (hv₀.le_mul hs1) (hp.le_mul hten) (by linarith)
            (mul_nonneg (by linarith) hunit)
      _ = s * 10 ^ k * (1 + 1 / 2 ^ 53) ^ 2 := by ring
      _ ≤ (2 ^ 53 - 7 / 2) * 2 ^ (971 : ℤ) * (1 + 1 / 2 ^ 53) ^ 2 :=
          mul_le_mul_of_nonneg_right hbound (by positivity)
      _ = (2 ^ 53 - 7 / 2) * (1 + 1 / 2 ^ 53) ^ 2 * 2 ^ (971 : ℤ) := by ring
      _ ≤ (2 ^ 53 - 1 : ℕ) * 2 ^ (971 : ℤ) :=
          mul_le_mul_of_nonneg_right (by norm_num) (two_zpow_pos 971).le
  obtain ⟨v, -, hy⟩ := (isRounded_mul hx₀ hpower (.inl (hv₀.one_le hpos)) (by linarith)).hasValue
    representable_greatest greatest_lt hgreatest
  unfold floatOfParts
  dsimp only
  rw [if_pos hk, if_neg (by simp [hy.isInf])]
  exact ⟨_, rfl⟩

/-- The three greatest floats lie nearer to the end; they are read all the same. -/
theorem greatest_read : ∀ negative : Bool, ∀ j < 3,
    let d := asWritten (shortest .binary64 .even (2 ^ 53 - 1 - j) 971)
    (floatOfParts negative d.digits d.exponent).isOk = true := by
  decide +kernel

/-- A power of ten that is not negative is shown by exponent notation only. -/
theorem asWritten_of_ofNat {d : Decimal} {k : ℕ} (h : (asWritten d).exponent = .ofNat k) :
    asWritten d = d := by
  unfold asWritten at h ⊢
  split
  · next hpositional =>
      rw [if_pos hpositional] at h
      split
      · next heq =>
          rw [heq] at h
          cases h
      · rfl
  · rfl

theorem FitsExponent.le {e : ℤ} (h : FitsExponent .binary64 e) : e ≤ 971 := by
  have h₁ : Float.Model.Format.exponentBias .binary64 = 1023 := by decide
  have h₂ : (Float.Model.Format.binary64.mantissaBitsWithoutImplicit : ℤ) = 52 := rfl
  have h₃ : (2 : ℤ) ^ Float.Model.Format.binary64.exponentBits = 2048 := by decide
  unfold FitsExponent at h
  rw [h₁, h₂, h₃] at h
  omega

/-- What is rounded to none of the three greatest floats keeps its distance from
the end. -/
theorem InInterval.le_near_greatest {m : ℕ} {e : ℤ} {x : ℚ} (hc : Canonical .binary64 m e)
    (hfits : FitsExponent .binary64 e) (h : InInterval .binary64 m e x)
    (hlast : ¬(e = 971 ∧ 2 ^ 53 - 3 ≤ m)) : x ≤ (2 ^ 53 - 7 / 2) * 2 ^ (971 : ℤ) := by
  have hm : m < 2 ^ 53 := hc.lt
  have he := FitsExponent.le hfits
  have hhigh := (h.quotient hc.pos).1.2
  rw [div_le_iff₀ (two_zpow_pos e)] at hhigh
  refine le_trans hhigh ?_
  by_cases htop : e = 971
  · subst htop
    have hm4 : (m : ℚ) + 4 ≤ 2 ^ 53 := by exact_mod_cast (show m + 4 ≤ 2 ^ 53 by omega)
    exact mul_le_mul_of_nonneg_right (by linarith) (two_zpow_pos 971).le
  · have hm1 : (m : ℚ) + 1 ≤ 2 ^ 53 := by exact_mod_cast hm
    have hpow : (2 : ℚ) ^ e ≤ 2 ^ (970 : ℤ) := zpow_le_zpow_right₀ (by norm_num) (by omega)
    have hstep : (2 : ℚ) ^ (971 : ℤ) = 2 * 2 ^ (970 : ℤ) := by
      rw [← zpow_one_add₀ (by norm_num)]
      norm_num
    calc ((m : ℚ) + 1 / 2) * 2 ^ e ≤ 2 ^ 53 * 2 ^ (970 : ℤ) :=
          mul_le_mul (by linarith) hpow (two_zpow_pos e).le (by norm_num)
      _ ≤ (2 ^ 53 - 7 / 2) * 2 * 2 ^ (970 : ℤ) :=
          mul_le_mul_of_nonneg_right (by norm_num) (two_zpow_pos 970).le
      _ = (2 ^ 53 - 7 / 2) * 2 ^ (971 : ℤ) := by rw [hstep, mul_assoc]

/-- The shortest decimal of a float is read as some float. -/
theorem exists_floatOfParts_shortest (negative : Bool) {m : ℕ} {e : ℤ}
    (hc : Canonical .binary64 m e) (hfits : FitsExponent .binary64 e) :
    ∃ y, floatOfParts negative (asWritten (shortest .binary64 .even m e)).digits
      (asWritten (shortest .binary64 .even m e)).exponent = .ok y := by
  obtain ⟨hpos, hdigits, -, -⟩ := shortest_size .even hc hfits
  have hin : InInterval .binary64 m e (shortest .binary64 .even m e).value := shortest_inInterval hc.pos
  by_cases hlast : e = 971 ∧ 2 ^ 53 - 3 ≤ m
  · obtain ⟨rfl, hnear⟩ := hlast
    have hm : m < 2 ^ 53 := hc.lt
    have hread := greatest_read negative (2 ^ 53 - 1 - m) (by omega)
    have hmantissa : 2 ^ 53 - 1 - (2 ^ 53 - 1 - m) = m := by omega
    rw [hmantissa] at hread
    dsimp only at hread
    cases hresult : floatOfParts negative (asWritten (shortest .binary64 .even m 971)).digits
        (asWritten (shortest .binary64 .even m 971)).exponent with
    | error fault => rw [hresult] at hread; cases hread
    | ok y => exact ⟨y, rfl⟩
  · have hbound := InInterval.le_near_greatest hc hfits hin hlast
    have hlt := hin.lt_ten_pow hc hfits
    generalize shortest .binary64 .even m e = d at hpos hdigits hbound hlt ⊢
    cases hexponent : (asWritten d).exponent with
    | negSucc k => exact ⟨_, rfl⟩
    | ofNat k =>
        have hself := asWritten_of_ofNat hexponent
        rw [hself] at hexponent ⊢
        rw [Decimal.value, hexponent, Int.ofNat_eq_natCast, zpow_natCast] at hbound hlt
        have hone : (1 : ℚ) ≤ d.digits := by exact_mod_cast hpos
        have hpower : (10 : ℚ) ^ k < 10 ^ 309 :=
          lt_of_le_of_lt (le_mul_of_one_le_left (by positivity) hone) hlt
        have hk := (pow_lt_pow_iff_right₀ (by norm_num : (1 : ℚ) < 10)).mp hpower
        exact exists_floatOfParts_times hdigits hpos (by omega) hbound

/-- **Every finite float is read again** as some float. -/
theorem exists_reread {x : Float} (h : x.isFinite = true) : ∃ y, reread x = .ok y := by
  obtain ⟨negative, d, hspelling⟩ := exists_spelling h
  rw [reread_eq hspelling]
  cases spelling_cases hspelling with
  | inl hzero =>
      -- zero is written with a point, and divided
      obtain ⟨s, -, -, rfl⟩ := hzero
      exact ⟨_, rfl⟩
  | inr hfinite =>
      obtain ⟨s, m, e, hm, hx, -, rfl⟩ := hfinite
      obtain ⟨hc, hfits⟩ := canonical_of_unpack (F := .binary64) (by decide) hx
      exact exists_floatOfParts_shortest negative hc hfits

/-! ## Floats that come back -/

/-- A float is its magnitude with its sign. -/
theorem eq_signed_of_unpack {x y : Float} {s : Sign} {m : ℕ} {e : ℤ} {hm : 0 < m}
    (hx : x.toModel.unpack = .finite s m e hm) (hy : HasValue y (m * 2 ^ e)) :
    x = signed (isMinus s) y := by
  have hc := (canonical_of_unpack (F := .binary64) (by decide) hx).1
  have hpos : (0 : ℚ) < m * 2 ^ e := mul_pos (by exact_mod_cast hm) (two_zpow_pos e)
  obtain ⟨n, f, hn, hunpack, hvalue, hc'⟩ := hy.finite hpos
  obtain ⟨rfl, rfl⟩ := hc.unique hc' hvalue
  refine float_eq_of_unpack_eq ?_
  rw [unpack_signed hy, hx, hunpack]
  cases s with
  | negative => rfl
  | positive => rfl

theorem digits_asWritten_pos {d : Decimal} (h : 0 < d.digits) : 0 < (asWritten d).digits := by
  unfold asWritten
  split
  · split
    · exact Nat.mul_pos h (Nat.pow_pos (by omega))
    · exact h
  · exact h

/-- A significand of at most `2 ^ 53` and a power of ten up to the twenty-second are
floats, so that what is read of them is rounded only once. -/
theorem floatOfParts_short {negative : Bool} {d : Decimal} {x : Float}
    (hfits : d.digits < significandLimit) (hpos : 0 < d.digits) (hdigits : d.digits ≤ 2 ^ 53)
    (hpower : d.exponent.natAbs ≤ 22) (h : floatOfParts negative d.digits d.exponent = .ok x) :
    ∃ z v, RoundsTo .binary64 d.value v ∧ HasValue z v ∧ x = signed negative z := by
  unfold Decimal.value
  cases hexponent : d.exponent with
  | ofNat k =>
      rw [hexponent] at h hpower
      obtain ⟨z, v₀, p, v, hv₀, hp, -, hv, hz, rfl⟩ := floatOfParts_times hfits hpos h
      rw [hv₀.eq_of_representable (representable_of_le hdigits), hp hpower] at hv
      rw [Int.ofNat_eq_natCast, zpow_natCast]
      exact ⟨z, v, hv, hz, rfl⟩
  | negSucc k =>
      rw [hexponent] at h hpower
      obtain ⟨z, v₀, v, hv₀, hv, hz, rfl⟩ := floatOfParts_over hfits hpower h
      rw [hv₀.eq_of_representable (representable_of_le hdigits)] at hv
      rw [zpow_negSucc, ← div_eq_mul_inv]
      exact ⟨z, v, hv, hz, rfl⟩

/-- A float whose text shows few digits: a significand of at most `2 ^ 53`, and a power
of ten up to the twenty-second. -/
def IsShort (x : Float) : Prop :=
  ∃ negative d, spelling? x = some (negative, d) ∧ (asWritten d).digits ≤ 2 ^ 53 ∧
    (asWritten d).exponent.natAbs ≤ 22

/-- **A float with few digits comes back**: significand and power are floats, and the
shortest decimal is rounded only once. -/
theorem IsShort.reread_eq_self {x : Float} (hshort : IsShort x) : reread x = .ok x := by
  obtain ⟨negative, d, h, hdigits, hpower⟩ := hshort
  cases spelling_cases h with
  | inl hzero =>
      obtain ⟨s, hx, rfl, rfl⟩ := hzero
      have hread : floatOfParts (isMinus s) (asWritten ⟨0, 0⟩).digits (asWritten ⟨0, 0⟩).exponent =
          .ok _ := rfl
      obtain ⟨y, hy, heq⟩ := floatOfParts_zero hread
      have hself : signed (isMinus s) y = x := by
        refine float_eq_of_unpack_eq ?_
        rw [unpack_signed hy, hx, hy.zero]
        cases s <;> rfl
      rw [reread_eq h, hread, heq, hself]
  | inr hfinite =>
      obtain ⟨s, m, e, hm, hx, rfl, rfl⟩ := hfinite
      obtain ⟨hc, hfits⟩ := canonical_of_unpack (F := .binary64) (by decide) hx
      obtain ⟨y, hy⟩ := exists_floatOfParts_shortest (isMinus s) hc hfits
      have hpos := digits_asWritten_pos (shortest_size .even hc hfits).1
      obtain ⟨z, v, hv, hz, rfl⟩ :=
        floatOfParts_short (spelling_fits h).1 hpos hdigits hpower hy
      -- the value that is rounded is that of the shortest decimal, which is rounded to the float
      rw [value_asWritten] at hv
      have hin : InInterval .binary64 m e (shortest .binary64 .even m e).value :=
        shortest_inInterval hm
      have hself := hin.roundsTo hc
      rw [hv.unique hself] at hz
      rw [reread_eq h, hy, ← eq_signed_of_unpack hx hz]

theorem IsShort.isFinite {x : Float} (hshort : IsShort x) : x.isFinite = true := by
  obtain ⟨negative, d, h, -, -⟩ := hshort
  show x.toModel.unpack.isFinite = true
  cases spelling_cases h with
  | inl hzero =>
      obtain ⟨s, hx, -, -⟩ := hzero
      rw [hx]
      rfl
  | inr hfinite =>
      obtain ⟨s, m, e, hm, hx, -, -⟩ := hfinite
      rw [hx]
      rfl

/-- The shortest decimal of a whole number below `10 ^ 16` is written with a zero
behind its point. -/
theorem asWritten_whole {d : Decimal} {n : ℕ} (hpos : 0 < d.digits) (hvalue : d.value = n)
    (hexponent : 0 ≤ d.exponent) (hlt : n < 10 ^ 16) : asWritten d = ⟨10 * n, -1⟩ := by
  have hlead := Decimal.ten_pow_leading_le hpos
  have hlt' : (n : ℚ) < 10 ^ (16 : ℤ) := by exact_mod_cast hlt
  rw [hvalue] at hlead
  have hsixteen := (zpow_lt_zpow_iff_right₀ (by norm_num)).mp (lt_of_le_of_lt hlead hlt')
  have hfirst : d.exponent ≤ d.leadingExponent := by
    unfold Decimal.leadingExponent
    omega
  rw [asWritten, if_pos ⟨by omega, hsixteen⟩]
  obtain ⟨digits, e⟩ := d
  cases e with
  | negSucc k => exact absurd hexponent (by simp)
  | ofNat k =>
      have hwhole : digits * 10 ^ k = n := by
        rw [Decimal.value, Int.ofNat_eq_natCast, zpow_natCast] at hvalue
        exact_mod_cast hvalue
      show Decimal.mk (digits * 10 ^ (k + 1)) (-1) = ⟨10 * n, -1⟩
      congr 1
      rw [pow_succ, ← mul_assoc, hwhole, Nat.mul_comm]

/-- **A whole number has few digits** if ten times it is at most `2 ^ 53`. -/
theorem isShort_nearestFloat {n : ℕ} (h : 10 * n ≤ 2 ^ 53) : IsShort (nearestFloat n) := by
  have hx := hasValue_nearestFloat (n := n) (by omega)
  cases Nat.eq_zero_or_pos n with
  | inl hzero =>
      subst hzero
      have hunpack : (nearestFloat 0).toModel.unpack = .zero .positive := by
        have := hx
        rw [Nat.cast_zero] at this
        exact this.zero
      have hspelling : spelling? (nearestFloat 0) = some (false, ⟨0, 0⟩) := by
        unfold spelling?
        rw [hunpack]
        rfl
      exact ⟨false, ⟨0, 0⟩, hspelling, by decide, by decide⟩
  | inr hpos =>
      obtain ⟨m, e, hm, hunpack, hvalue, hc⟩ := hx.finite (by exact_mod_cast hpos)
      have hfits := (canonical_of_unpack (F := .binary64) (by decide) hunpack).2
      have hspelling : spelling? (nearestFloat n) =
          some (false, shortest .binary64 .even m e) := by
        unfold spelling?
        rw [hunpack]
        rfl
      obtain ⟨hdigits, -⟩ := shortest_size .even hc hfits
      obtain ⟨hsame, hexponent⟩ :=
        shortest_whole .even hc hvalue.symm (by omega : n < 2 ^ 53)
      have hwritten := asWritten_whole hdigits hsame hexponent (by omega)
      refine ⟨false, _, hspelling, ?_, ?_⟩
      · rw [hwritten]
        exact h
      · rw [hwritten]
        exact (by decide : (-1 : ℤ).natAbs ≤ 22)

/-- A quotient of two small numbers need not come back. -/
example : (reread (Float.ofBits 0x3FED1745D1745D17)).toOption =
    some (Float.ofBits 0x3FED1745D1745D18) := by
  decide +kernel

end Chronograph.Json
