import Chronograph.Proofs.Binary.Sums
import Chronograph.Proofs.Code.Literal

/-!
# The size of shortest decimals

The search for a shortest decimal walks from the coarsest grid to the finest and
stops at the first that has a number in the bracket.  A grid finer than half of
the bracket always has one: the multiple next above the value.  So the search
stops at such a grid at the latest, and the number that it finds there, counted
in steps of the grid, is not much larger than the mantissa
(`shortest_digits_le`).  For a double-width float that leaves 64 bits, and the
exponent of the first digit is that of a float (`shortest_size`).  A whole number
is itself on a grid, that of the whole numbers; so its shortest decimal has no
places behind the point (`shortest_whole`).
-/

namespace Chronograph

open Float.Model (Format)

namespace Bracket

/-! ## Where the search stops -/

/-- What is found on a grid is one of its multiples. -/
theorem dvd_of_onGrid {tie : TieRule} {b : Bracket} {grid n : ℕ}
    (h : b.onGrid tie grid = some n) : grid ∣ n := by
  have hbelow : grid ∣ b.value / grid * grid := Nat.dvd_mul_left grid _
  have habove : grid ∣ b.value / grid * grid + grid := Nat.dvd_add hbelow (Nat.dvd_refl grid)
  have hnearer : grid ∣ b.nearer tie grid (b.value / grid * grid) := by
    unfold nearer
    dsimp only
    split
    · exact hbelow
    · exact habove
    · cases tie with
      | up => exact habove
      | even =>
          dsimp only
          split
          · exact hbelow
          · exact habove
  unfold onGrid at h
  dsimp only at h
  split at h
  · cases h
    exact hnearer
  · cases h
    exact hbelow
  · cases h
    exact habove
  · cases h

theorem onGrid_ne_none {tie : TieRule} {b : Bracket} {grid : ℕ}
    (h : b.contains (b.value / grid * grid + grid) = true) : b.onGrid tie grid ≠ none := by
  unfold onGrid
  dsimp only
  rw [h]
  cases b.contains (b.value / grid * grid) <;> simp

/-- A multiple of the grid that is the value itself is found there. -/
theorem onGrid_ne_none_of_dvd {tie : TieRule} {b : Bracket} {grid : ℕ}
    (hvalue : b.contains b.value = true) (hdvd : grid ∣ b.value) : b.onGrid tie grid ≠ none := by
  unfold onGrid
  dsimp only
  rw [Nat.div_mul_cancel hdvd, hvalue]
  cases b.contains (b.value + grid) <;> simp

/-- **The search stops at a grid** of which its number is a multiple; no coarser
grid has a number. -/
theorem search_stops (tie : TieRule) (b : Bracket) (p : ℕ) :
    ∃ q ≤ p, 10 ^ q ∣ b.search tie p ∧ ∀ r, q < r → r ≤ p → b.onGrid tie (10 ^ r) = none := by
  induction p with
  | zero => exact ⟨0, le_rfl, one_dvd _, fun r hq hp => absurd hp (by omega)⟩
  | succ p ih =>
      unfold search
      split
      · next n h => exact ⟨p + 1, le_rfl, dvd_of_onGrid h, fun r hq hp => absurd hp (by omega)⟩
      · next h =>
          obtain ⟨q, hq, hdvd, hnone⟩ := ih
          refine ⟨q, by omega, hdvd, ?_⟩
          intro r hr hp
          by_cases hlast : r = p + 1
          · rw [hlast]
            exact h
          · exact hnone r hr (by omega)

/-- The numbers of a bracket are not above its upper end. -/
theorem le_high_of_contains {b : Bracket} {n : ℕ} (h : b.contains n = true) : n ≤ b.high := by
  rw [contains_iff] at h
  split at h
  · exact h.2
  · exact h.2.le

/-- A grid finer than half of the bracket of a value has a number in it. -/
theorem onGrid_of_lt {F : Format} {tie : TieRule} {m : ℕ} {e : ℤ} {factor grid : ℕ}
    (hfactor : factor = Nat.pow 2 (e - 2).toNat * Nat.pow 5 (-(e - 2)).toNat)
    (hgrid : 0 < grid) (hlt : grid < 2 * factor) :
    (Bracket.ofBinary F m e).onGrid tie grid ≠ none := by
  have hvalue : (Bracket.ofBinary F m e).value = 4 * m * factor := by rw [hfactor]; rfl
  refine onGrid_ne_none ?_
  rw [hvalue, contains_ofBinary_iff hfactor]
  have habove := Nat.lt_div_mul_add (a := 4 * m * factor) hgrid
  have hbelow := Nat.div_mul_le_self (4 * m * factor) grid
  have hlow : (4 * m - quartersBelow F m e) * factor ≤ 4 * m * factor :=
    Nat.mul_le_mul_right factor (Nat.sub_le _ _)
  have hhigh : (4 * m + 2) * factor = 4 * m * factor + 2 * factor := Nat.add_mul _ _ _
  split
  · constructor <;> omega
  · constructor <;> omega

end Bracket

/-! ## Final zeros -/

/-- Leaving out final zeros leaves out at least those of a power of ten that
divides the number. -/
theorem digits_strip_le {k q n : ℕ} {e : ℤ} (hdvd : 10 ^ q ∣ n) (hq : q ≤ k) :
    (Decimal.strip k n e).digits * 10 ^ q ≤ n := by
  induction k generalizing q n e with
  | zero =>
      obtain rfl : q = 0 := by omega
      rw [pow_zero, Nat.mul_one]
      exact le_rfl
  | succ k ih =>
      unfold Decimal.strip
      by_cases hn : n % 10 = 0
      · rw [if_pos hn]
        cases q with
        | zero =>
            have hless := ih (q := 0) (n := n / 10) (e := e + 1) (one_dvd _) (Nat.zero_le k)
            omega
        | succ q =>
            have hdvd' : 10 ^ q ∣ n / 10 := by
              rw [Nat.pow_succ] at hdvd
              exact Nat.dvd_div_of_mul_dvd (by rwa [Nat.mul_comm])
            have hless := ih (e := e + 1) hdvd' (by omega)
            rw [Nat.pow_succ, ← Nat.mul_assoc]
            omega
      · rw [if_neg hn]
        cases q with
        | zero =>
            rw [pow_zero, Nat.mul_one]
        | succ q =>
            have : 10 ∣ n := Dvd.dvd.trans (Dvd.intro_left (10 ^ q) rfl) hdvd
            omega

theorem exponent_strip_ge (k n : ℕ) (e : ℤ) : e ≤ (Decimal.strip k n e).exponent := by
  induction k generalizing n e with
  | zero => exact le_rfl
  | succ k ih =>
      unfold Decimal.strip
      split
      · have := ih (n / 10) (e + 1)
        omega
      · exact le_rfl

/-! ## Shortest decimals -/

/-- **What the search finds**: a number of the bracket and the grid on which it
was found, which is no finer than any grid that has a number. -/
theorem shortest_found (F : Format) (tie : TieRule) {m : ℕ} (e : ℤ) (hm : 0 < m) :
    ∃ found q : ℕ, (Bracket.ofBinary F m e).contains found = true ∧ 10 ^ q ∣ found ∧
      (shortest F tie m e).digits * 10 ^ q ≤ found ∧
      (shortest F tie m e).value = found * 10 ^ (-((Bracket.ofBinary F m e).scale : ℤ)) ∧
      ∀ p, 10 ^ p ≤ (Bracket.ofBinary F m e).value →
        (Bracket.ofBinary F m e).onGrid tie (10 ^ p) ≠ none → p ≤ q := by
  obtain ⟨places, hplaces⟩ : ∃ places,
      places = (Nat.toDigits 10 (Bracket.ofBinary F m e).value).length := ⟨_, rfl⟩
  have hdigits : shortest F tie m e = Decimal.strip places
      ((Bracket.ofBinary F m e).search tie (places - 1)) (-((Bracket.ofBinary F m e).scale : ℤ)) := by
    rw [hplaces]
    rfl
  obtain ⟨q, hq, hdvd, hnone⟩ := (Bracket.ofBinary F m e).search_stops tie (places - 1)
  refine ⟨(Bracket.ofBinary F m e).search tie (places - 1), q,
    Bracket.contains_search tie (contains_value hm) (places - 1), hdvd, ?_, ?_, ?_⟩
  · rw [hdigits]
    exact digits_strip_le hdvd (by omega)
  · rw [hdigits, value_strip]
  · intro p hp hfound
    have hwithin : p ≤ places - 1 := by
      by_contra hgt
      have hle : (Nat.toDigits 10 (Bracket.ofBinary F m e).value).length ≤ p := by omega
      rw [Nat.length_toDigits_le_iff (by omega) (by omega)] at hle
      omega
    by_contra hlt
    exact hfound (hnone p (by omega) hwithin)

/-- **A shortest decimal has few digits**: about one more than the mantissa. -/
theorem shortest_digits_le {F : Format} {tie : TieRule} {m : ℕ} {e : ℤ} (hm : 0 < m) :
    (shortest F tie m e).digits ≤ 20 * m + 10 := by
  obtain ⟨factor, hfactor⟩ : ∃ factor,
      factor = Nat.pow 2 (e - 2).toNat * Nat.pow 5 (-(e - 2)).toNat := ⟨_, rfl⟩
  have hpos : 0 < factor := by
    rw [hfactor]
    exact Nat.mul_pos (Nat.pow_pos (by omega)) (Nat.pow_pos (by omega))
  have hvalue : (Bracket.ofBinary F m e).value = 4 * m * factor := by rw [hfactor]; rfl
  have hhigh : (Bracket.ofBinary F m e).high = (4 * m + 2) * factor := by rw [hfactor]; rfl
  obtain ⟨found, q, hcontains, -, hdigits, -, hcoarse⟩ := shortest_found F tie e hm
  have hle := Bracket.le_high_of_contains hcontains
  rw [hhigh] at hle
  -- the coarsest grid that is finer than half of the bracket
  obtain ⟨p, hp, hp'⟩ : ∃ p, 10 ^ p < 2 * factor ∧ 2 * factor ≤ 10 ^ (p + 1) := by
    have hlow := Nat.pow_log_le_self 10 (show 2 * factor - 1 ≠ 0 by omega)
    have hnext := Nat.lt_pow_succ_log_self (b := 10) (by omega) (2 * factor - 1)
    exact ⟨Nat.log 10 (2 * factor - 1), by omega, by omega⟩
  have hbelow : 10 ^ p ≤ (Bracket.ofBinary F m e).value := by
    have : 2 * factor ≤ 4 * m * factor := Nat.mul_le_mul_right factor (by omega)
    omega
  have hpq := hcoarse p hbelow (Bracket.onGrid_of_lt hfactor (Nat.pow_pos (by omega)) hp)
  have htotal : (shortest F tie m e).digits * 10 ^ p ≤ (20 * m + 10) * 10 ^ p := by
    calc (shortest F tie m e).digits * 10 ^ p ≤ (shortest F tie m e).digits * 10 ^ q :=
          Nat.mul_le_mul_left _ (Nat.pow_le_pow_right (by omega) hpq)
      _ ≤ (4 * m + 2) * factor := le_trans hdigits hle
      _ ≤ (4 * m + 2) * (5 * 10 ^ p) := by
          refine Nat.mul_le_mul_left _ ?_
          rw [Nat.pow_succ] at hp'
          omega
      _ = (20 * m + 10) * 10 ^ p := by ring
  exact Nat.le_of_mul_le_mul_right htotal (Nat.pow_pos (by omega))

/-- The first digit of a decimal is worth no more than the decimal. -/
theorem Decimal.ten_pow_leading_le {d : Decimal} (hd : 0 < d.digits) :
    (10 : ℚ) ^ d.leadingExponent ≤ d.value := by
  have hten : (10 : ℚ) ^ ((digitsOf d.digits).length - 1) ≤ d.digits := by
    by_cases hone : (digitsOf d.digits).length - 1 = 0
    · rw [hone, pow_zero]
      exact_mod_cast hd
    · have hlong : ¬ d.digits < 10 ^ ((digitsOf d.digits).length - 1) := by
        rw [← Nat.length_toDigits_le_iff (by omega) (Nat.pos_of_ne_zero hone)]
        show ¬ (digitsOf d.digits).length ≤ (digitsOf d.digits).length - 1
        omega
      exact_mod_cast Nat.le_of_not_lt hlong
  rw [Decimal.leadingExponent, zpow_add₀ (by norm_num), zpow_natCast, mul_comm]
  exact mul_le_mul_of_nonneg_right hten (by positivity)

theorem InInterval.pos {F : Format} {m : ℕ} {e : ℤ} {x : ℚ} (hc : Canonical F m e)
    (h : InInterval F m e x) : 0 < x :=
  lt_of_lt_of_le (two_zpow_pos _) (h.half_least_le hc)

/-- A rational that is rounded to a double-width float is below `10 ^ 309`. -/
theorem InInterval.lt_ten_pow {m : ℕ} {e : ℤ} {x : ℚ} (hc : Canonical .binary64 m e)
    (hfits : FitsExponent .binary64 e) (h : InInterval .binary64 m e x) : x < 10 ^ (309 : ℤ) := by
  have hm : (1 : ℚ) ≤ m := by exact_mod_cast hc.pos
  have hhigh := (h.quotient hc.pos).1.2
  rw [div_le_iff₀ (two_zpow_pos e)] at hhigh
  have hvalue := (fitsExponent_iff hc).mp hfits
  have hhalf : (1 : ℚ) / 2 * 2 ^ e ≤ m * 2 ^ e :=
    mul_le_mul_of_nonneg_right (by linarith) (two_zpow_pos e).le
  have hpow : (2 : ℚ) * 2 ^ (1024 : ℤ) ≤ 10 ^ (309 : ℤ) := by
    have hnat : 2 * 2 ^ 1024 ≤ 10 ^ 309 := by decide +kernel
    exact_mod_cast hnat
  calc x ≤ (m + 1 / 2) * 2 ^ e := hhigh
    _ ≤ 2 * (m * 2 ^ e) := by linarith
    _ < 2 * 2 ^ (1024 : ℤ) := by linarith
    _ ≤ 10 ^ (309 : ℤ) := hpow

/-- **The shortest decimal of a double-width float**: a positive number of fewer
than 64 bits, with an exponent of a float. -/
theorem shortest_size (tie : TieRule) {m : ℕ} {e : ℤ} (hc : Canonical .binary64 m e)
    (hfits : FitsExponent .binary64 e) :
    let d := shortest .binary64 tie m e
    0 < d.digits ∧ d.digits < 2 ^ 64 ∧ -1076 ≤ d.exponent ∧ d.leadingExponent < 309 := by
  have hin : InInterval .binary64 m e (shortest .binary64 tie m e).value := shortest_inInterval hc.pos
  have hpos := hin.pos hc
  have hdigits : 0 < (shortest .binary64 tie m e).digits := by
    by_contra hzero
    rw [Decimal.value, Nat.le_zero.mp (Nat.le_of_not_lt hzero), Nat.cast_zero, zero_mul] at hpos
    exact lt_irrefl 0 hpos
  refine ⟨hdigits, ?_, ?_, ?_⟩
  · have hle : (shortest .binary64 tie m e).digits ≤ 20 * m + 10 := shortest_digits_le hc.pos
    have hlt : m < 2 ^ 53 := hc.lt
    omega
  · have hscale : -((Bracket.ofBinary .binary64 m e).scale : ℤ) ≤
        (shortest .binary64 tie m e).exponent := exponent_strip_ge _ _ _
    have hleast : -1074 ≤ e := hc.least
    have : (Bracket.ofBinary .binary64 m e).scale = (-(e - 2)).toNat := rfl
    omega
  · have hlead := Decimal.ten_pow_leading_le hdigits
    have hlt := lt_of_le_of_lt hlead (hin.lt_ten_pow hc hfits)
    exact (zpow_lt_zpow_iff_right₀ (by norm_num)).mp hlt

/-! ## Whole numbers -/

/-- A whole number below `2 ^ 53` has a unit of at most one. -/
theorem Canonical.exponent_nonpos {m n : ℕ} {e : ℤ} (hc : Canonical .binary64 m e)
    (hn : (m : ℚ) * 2 ^ e = n) (hlt : n < 2 ^ 53) : e ≤ 0 := by
  by_contra hgt
  have hleast : e ≠ Format.binary64.minExponent := by
    rw [minExponent_binary64]
    omega
  have hbinade := hc.unitExponent.binade_le hleast
  have hone : (2 : ℚ) ^ (1 : ℤ) ≤ 2 ^ e := zpow_le_zpow_right₀ (by norm_num) (by omega)
  have hlong : (2 : ℚ) ^ 53 ≤ n := by
    calc (2 : ℚ) ^ 53 = ((2 ^ (Format.binary64.mantissaBits - 1) : ℕ) : ℚ) * 2 ^ (1 : ℤ) := by
          norm_num [Format.mantissaBits]
      _ ≤ ((2 ^ (Format.binary64.mantissaBits - 1) : ℕ) : ℚ) * 2 ^ e :=
          mul_le_mul_of_nonneg_left hone (Nat.cast_nonneg _)
      _ ≤ m * 2 ^ e := hbinade
      _ = n := hn
  have : 2 ^ 53 ≤ n := by exact_mod_cast hlong
  omega

/-- The only whole number that is rounded to a whole number below `2 ^ 53`. -/
theorem InInterval.eq_of_whole {m n w : ℕ} {e : ℤ} (hc : Canonical .binary64 m e)
    (hn : (m : ℚ) * 2 ^ e = n) (hlt : n < 2 ^ 53) (h : InInterval .binary64 m e w) : w = n := by
  have he := two_zpow_pos e
  have hone : (2 : ℚ) ^ e ≤ 1 :=
    zpow_le_one_of_nonpos₀ (by norm_num) (hc.exponent_nonpos hn hlt)
  have hquarters : (quartersBelow .binary64 m e : ℚ) ≤ 2 := by
    unfold quartersBelow
    split <;> norm_num
  obtain ⟨⟨hlow, hhigh⟩, -⟩ := h.quotient hc.pos
  rw [le_div_iff₀ he] at hlow
  rw [div_le_iff₀ he] at hhigh
  have hbelow : (n : ℚ) < w + 1 := by
    have : ((m : ℚ) - 1 / 2) * 2 ^ e ≤ (m - (quartersBelow .binary64 m e : ℚ) / 4) * 2 ^ e :=
      mul_le_mul_of_nonneg_right (by linarith) he.le
    linarith
  have habove : (w : ℚ) < n + 1 := by linarith
  have h₁ : n < w + 1 := by exact_mod_cast hbelow
  have h₂ : w < n + 1 := by exact_mod_cast habove
  omega

/-- The value of the bracket of a whole number is that number, scaled. -/
theorem value_ofBinary_whole {F : Format} {m n : ℕ} {e : ℤ} (hn : (m : ℚ) * 2 ^ e = n) :
    (Bracket.ofBinary F m e).value = n * 10 ^ (Bracket.ofBinary F m e).scale := by
  have hfactor := bracket_factor (e - 2)
  have hscale : (Bracket.ofBinary F m e).scale = (-(e - 2)).toNat := rfl
  have hdef : (Bracket.ofBinary F m e).value =
      4 * m * (Nat.pow 2 (e - 2).toNat * Nat.pow 5 (-(e - 2)).toNat) := rfl
  have hcast : (((Bracket.ofBinary F m e).value : ℕ) : ℚ) = n * 10 ^ (-(e - 2)).toNat := by
    rw [hdef, Nat.cast_mul, hfactor, ← hn, zpow_sub₀ (by norm_num)]
    push_cast
    ring
  rw [hscale]
  exact_mod_cast hcast

/-- A decimal of a whole number has places behind its point only if its digits are
more than the number. -/
theorem Decimal.exponent_nonneg {d : Decimal} {w : ℕ} (hvalue : d.value = w) (hw : 0 < w)
    (hdigits : d.digits ≤ w) : 0 ≤ d.exponent := by
  by_contra hneg
  obtain ⟨k, hk⟩ : ∃ k : ℕ, d.exponent = -((k + 1 : ℕ) : ℤ) := ⟨(-d.exponent - 1).toNat, by omega⟩
  rw [Decimal.value, hk, zpow_neg, zpow_natCast, ← div_eq_mul_inv,
    div_eq_iff (by positivity)] at hvalue
  have hmany : d.digits = w * 10 ^ (k + 1) := by exact_mod_cast hvalue
  have hgrow : w * 10 ≤ w * 10 ^ (k + 1) := by
    refine Nat.mul_le_mul_left w ?_
    rw [Nat.pow_succ]
    exact Nat.le_mul_of_pos_left 10 (Nat.pow_pos (by omega))
  omega

/-- **The shortest decimal of a whole number** below `2 ^ 53` is the number, without
places behind the point. -/
theorem shortest_whole (tie : TieRule) {m n : ℕ} {e : ℤ} (hc : Canonical .binary64 m e)
    (hn : (m : ℚ) * 2 ^ e = n) (hlt : n < 2 ^ 53) :
    (shortest .binary64 tie m e).value = n ∧ 0 ≤ (shortest .binary64 tie m e).exponent := by
  have hpos : 0 < n := by
    have : (0 : ℚ) < n := by
      rw [← hn]
      exact mul_pos (by exact_mod_cast hc.pos) (two_zpow_pos e)
    exact_mod_cast this
  have hvalue := value_ofBinary_whole (F := .binary64) hn
  have hown := contains_value (F := .binary64) (e := e) hc.pos
  obtain ⟨found, q, hcontains, hdvd, hdigits, hsame, hcoarse⟩ :=
    shortest_found .binary64 tie e hc.pos
  have hin := inInterval_of_contains hcontains
  generalize (Bracket.ofBinary .binary64 m e).scale = scale at hvalue hsame hin
  -- the value is on the grid of the whole numbers, so the search stops there or before
  have hgrid : 10 ^ scale ∣ (Bracket.ofBinary .binary64 m e).value := by
    rw [hvalue]
    exact Nat.dvd_mul_left (10 ^ scale) n
  have hscale : scale ≤ q := by
    refine hcoarse scale ?_ (Bracket.onGrid_ne_none_of_dvd hown hgrid)
    rw [hvalue]
    exact Nat.le_mul_of_pos_left (10 ^ scale) hpos
  obtain ⟨w, rfl⟩ : 10 ^ scale ∣ found := Dvd.dvd.trans (Nat.pow_dvd_pow 10 hscale) hdvd
  have hten : (0 : ℚ) < 10 ^ scale := by positivity
  have hwhole : ((10 ^ scale * w : ℕ) : ℚ) * 10 ^ (-(scale : ℤ)) = w := by
    rw [zpow_neg, zpow_natCast]
    push_cast
    field_simp
  rw [hwhole] at hin hsame
  obtain rfl : w = n := hin.eq_of_whole hc hn hlt
  refine ⟨hsame, ?_⟩
  have hfew : (shortest .binary64 tie m e).digits ≤ w := by
    have hfiner : 10 ^ scale ≤ 10 ^ q := Nat.pow_le_pow_right (by omega) hscale
    have := le_trans (Nat.mul_le_mul_left (shortest .binary64 tie m e).digits hfiner) hdigits
    rw [Nat.mul_comm (10 ^ scale)] at this
    exact Nat.le_of_mul_le_mul_right this (Nat.pow_pos (by omega))
  exact Decimal.exponent_nonneg hsame hpos hfew

end Chronograph
