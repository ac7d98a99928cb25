import Chronograph.Decimal.Notation
import Chronograph.Proofs.Binary.Rounding

/-!
# Shortest decimals are read back

The search walks over ever finer grids and takes a number only if it lies in the
bracket.  So does the value itself, with which it ends, and leaving out final
zeros changes no value (`value_strip`).  The shortest decimal of a value
therefore lies in the interval of the rationals that are rounded to the value:
`shortest_inInterval`.
-/

namespace Chronograph

open Float.Model (Format)

/-- The rational that a decimal stands for. -/
def Decimal.value (d : Decimal) : ℚ := d.digits * 10 ^ d.exponent

/-! ## The search -/

namespace Bracket

theorem contains_nearer {tie : TieRule} {b : Bracket} {grid below : ℕ}
    (hbelow : b.contains below = true) (habove : b.contains (below + grid) = true) :
    b.contains (b.nearer tie grid below) = true := by
  unfold nearer
  dsimp only
  split
  · exact hbelow
  · exact habove
  · cases tie with
    | up => exact habove
    | even =>
      dsimp only
      split
      · exact hbelow
      · exact habove

/-- What is found on a grid lies in the bracket. -/
theorem contains_of_onGrid {tie : TieRule} {b : Bracket} {grid n : ℕ}
    (h : b.onGrid tie grid = some n) : b.contains n = true := by
  unfold onGrid at h
  dsimp only at h
  split at h
  · next hbelow habove =>
      cases h
      exact contains_nearer hbelow habove
  · next hbelow _ =>
      cases h
      exact hbelow
  · next _ habove =>
      cases h
      exact habove
  · cases h

/-- The search finds a number of the bracket, because it ends with the value. -/
theorem contains_search (tie : TieRule) {b : Bracket} (hvalue : b.contains b.value = true) (p : ℕ) :
    b.contains (b.search tie p) = true := by
  induction p with
  | zero => exact hvalue
  | succ p ih =>
      unfold search
      split
      · next h => exact contains_of_onGrid h
      · exact ih

end Bracket

/-- Leaving out final zeros keeps the value. -/
theorem value_strip (k n : ℕ) (e : ℤ) : (Decimal.strip k n e).value = n * 10 ^ e := by
  induction k generalizing n e with
  | zero => rfl
  | succ k ih =>
      unfold Decimal.strip
      by_cases hn : n % 10 = 0
      · rw [if_pos hn, ih, zpow_add₀ (by norm_num), zpow_one]
        have : (n : ℚ) = 10 * (n / 10 : ℕ) := by
          exact_mod_cast (show n = 10 * (n / 10) by omega)
        rw [this]
        ring_nf
      · rw [if_neg hn]
        rfl

/-! ## The bracket of a binary value -/

/-- The factor of a bracket is a quarter of the unit, scaled. -/
theorem bracket_factor (q : ℤ) :
    ((Nat.pow 2 q.toNat * Nat.pow 5 (-q).toNat : ℕ) : ℚ) = 2 ^ q * 10 ^ (-q).toNat := by
  have hten : (10 : ℚ) = 2 * 5 := by norm_num
  push_cast
  rcases le_total 0 q with hq | hq
  · obtain ⟨k, rfl⟩ := Int.eq_ofNat_of_zero_le hq
    have h₁ : ((k : ℤ)).toNat = k := by omega
    have h₂ : (-(k : ℤ)).toNat = 0 := by omega
    rw [h₁, h₂]
    simp
  · obtain ⟨k, hk⟩ := Int.eq_ofNat_of_zero_le (show 0 ≤ -q by omega)
    have h₁ : q.toNat = 0 := by omega
    have h₂ : (-q).toNat = k := by omega
    have h₃ : q = -(k : ℤ) := by omega
    rw [h₁, h₂, h₃, zpow_neg, zpow_natCast, hten, mul_pow]
    simp only [Nat.pow_eq]
    push_cast
    have : (2 : ℚ) ^ k ≠ 0 := by positivity
    field_simp

theorem contains_iff (b : Bracket) (n : ℕ) :
    b.contains n = true ↔
      if b.closed then b.low ≤ n ∧ n ≤ b.high else b.low < n ∧ n < b.high := by
  unfold Bracket.contains
  by_cases h : b.closed
  · simp [h]
  · simp [h]

theorem contains_ofBinary_iff {F : Format} {m : ℕ} {e : ℤ} {n factor : ℕ}
    (hfactor : factor = Nat.pow 2 (e - 2).toNat * Nat.pow 5 (-(e - 2)).toNat) :
    (Bracket.ofBinary F m e).contains n = true ↔
      if m % 2 = 0 then
        (4 * m - quartersBelow F m e) * factor ≤ n ∧ n ≤ (4 * m + 2) * factor
      else
        (4 * m - quartersBelow F m e) * factor < n ∧ n < (4 * m + 2) * factor := by
  have hquarters : (if (m == Nat.pow 2 F.mantissaBitsWithoutImplicit
      && decide (F.minExponent < e)) = true then 1 else 2) = quartersBelow F m e := by
    unfold quartersBelow
    simp only [Nat.pow_eq, Bool.and_eq_true, beq_iff_eq, decide_eq_true_eq]
  rw [contains_iff]
  simp only [Bracket.ofBinary, hquarters, ← hfactor, beq_iff_eq]

/-- A number of the bracket, scaled back, lies in the interval of the value. -/
theorem inInterval_of_contains {F : Format} {m : ℕ} {e : ℤ} {n : ℕ}
    (h : (Bracket.ofBinary F m e).contains n = true) :
    InInterval F m e (n * 10 ^ (-((Bracket.ofBinary F m e).scale : ℤ))) := by
  have hscale : (Bracket.ofBinary F m e).scale = (-(e - 2)).toNat := rfl
  have hfactor := bracket_factor (e - 2)
  rw [contains_ofBinary_iff rfl] at h
  rw [hscale]
  generalize Nat.pow 2 (e - 2).toNat * Nat.pow 5 (-(e - 2)).toNat = factor at h hfactor
  generalize (-(e - 2)).toNat = k at hfactor ⊢
  have hk : (0 : ℚ) < 10 ^ k := by positivity
  have hscaled : ∀ a : ℕ, (a : ℚ) * 2 ^ (e - 2) = ((a * factor : ℕ) : ℚ) / 10 ^ k := by
    intro a
    push_cast
    rw [hfactor]
    field_simp
  unfold InInterval
  rw [hscaled, hscaled, zpow_neg, zpow_natCast, ← div_eq_mul_inv]
  split
  · next hpar =>
      rw [if_pos hpar] at h
      rw [div_le_div_iff_of_pos_right hk, div_le_div_iff_of_pos_right hk]
      exact_mod_cast h
  · next hpar =>
      rw [if_neg hpar] at h
      rw [div_lt_div_iff_of_pos_right hk, div_lt_div_iff_of_pos_right hk]
      exact_mod_cast h

/-- The value lies in its own bracket. -/
theorem contains_value {F : Format} {m : ℕ} {e : ℤ} (hm : 0 < m) :
    (Bracket.ofBinary F m e).contains (Bracket.ofBinary F m e).value = true := by
  have hfactor : 0 < Nat.pow 2 (e - 2).toNat * Nat.pow 5 (-(e - 2)).toNat :=
    Nat.mul_pos (Nat.pow_pos (by omega)) (Nat.pow_pos (by omega))
  have hquarters : 0 < quartersBelow F m e := by
    unfold quartersBelow
    split <;> omega
  have hlow : (4 * m - quartersBelow F m e) * (Nat.pow 2 (e - 2).toNat * Nat.pow 5 (-(e - 2)).toNat)
      < 4 * m * (Nat.pow 2 (e - 2).toNat * Nat.pow 5 (-(e - 2)).toNat) :=
    Nat.mul_lt_mul_of_pos_right (by omega) hfactor
  have hhigh : 4 * m * (Nat.pow 2 (e - 2).toNat * Nat.pow 5 (-(e - 2)).toNat)
      < (4 * m + 2) * (Nat.pow 2 (e - 2).toNat * Nat.pow 5 (-(e - 2)).toNat) :=
    Nat.mul_lt_mul_of_pos_right (by omega) hfactor
  rw [contains_ofBinary_iff rfl]
  split
  · exact ⟨hlow.le, hhigh.le⟩
  · exact ⟨hlow, hhigh⟩

/-- **The shortest decimal of a value lies in its interval.** -/
theorem shortest_inInterval {F : Format} {tie : TieRule} {m : ℕ} {e : ℤ} (hm : 0 < m) :
    InInterval F m e (shortest F tie m e).value := by
  unfold shortest
  rw [value_strip]
  exact inInterval_of_contains (Bracket.contains_search tie (contains_value hm) _)

end Chronograph
