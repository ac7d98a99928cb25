import Chronograph.Decimal.Notation
import Chronograph.Proofs.Decimal.Shortest

/-!
# Positional notation is read back

A decimal in positional notation is digits, a point and digits, with at least
one on each side, and the digits as one number over the power of ten of the
places give the decimal's value: `positional_shape`.
-/

namespace Chronograph

/-- The number that a text of digits stands for. -/
def digitsValue (text : List Char) : ℕ := Nat.ofDigitChars 10 text 0

@[simp] theorem digitsValue_digitsOf (n : ℕ) : digitsValue (digitsOf n) = n :=
  Nat.ofDigitChars_ten_toDigits

theorem digitsOf_ne_nil (n : ℕ) : digitsOf n ≠ [] := Nat.toDigits_ne_nil

/-- A text of digits only. -/
def AllDigits (text : List Char) : Prop := ∀ c ∈ text, c.isDigit = true

theorem allDigits_digitsOf (n : ℕ) : AllDigits (digitsOf n) := fun _ hc =>
  Nat.isDigit_of_mem_toDigits (by omega) (by omega) hc

theorem allDigits_replicate (k : ℕ) : AllDigits (List.replicate k '0') := by
  intro c hc
  rw [(List.mem_replicate.mp hc).2]
  rfl

theorem allDigits_append {a b : List Char} :
    AllDigits (a ++ b) ↔ AllDigits a ∧ AllDigits b := by
  unfold AllDigits
  constructor
  · intro h
    exact ⟨fun c hc => h c (List.mem_append_left b hc), fun c hc => h c (List.mem_append_right a hc)⟩
  · rintro ⟨ha, hb⟩ c hc
    rcases List.mem_append.mp hc with hc | hc
    · exact ha c hc
    · exact hb c hc

theorem allDigits_takeWhile (s : List Char) : AllDigits (s.takeWhile Char.isDigit) := by
  intro c hc
  exact List.all_eq_true.mp List.all_takeWhile c hc

/-- The digits at the front of a text, when some of them were taken off. -/
theorem takeWhile_append_digits {ds : List Char} (h : AllDigits ds) (rest : List Char) :
    (ds ++ rest).takeWhile Char.isDigit = ds ++ rest.takeWhile Char.isDigit ∧
      (ds ++ rest).dropWhile Char.isDigit = rest.dropWhile Char.isDigit :=
  ⟨List.takeWhile_append_of_pos h, List.dropWhile_append_of_pos h⟩

theorem takeWhile_digits {ds rest : List Char} (h : AllDigits ds)
    (hrest : rest.takeWhile Char.isDigit = []) :
    (ds ++ rest).takeWhile Char.isDigit = ds ∧ (ds ++ rest).dropWhile Char.isDigit = rest := by
  have hdrop : rest.dropWhile Char.isDigit = rest := by
    have := List.takeWhile_append_dropWhile (p := Char.isDigit) (l := rest)
    rwa [hrest, List.nil_append] at this
  obtain ⟨htake, hskip⟩ := takeWhile_append_digits h rest
  rw [htake, hskip, hrest, hdrop, List.append_nil]
  exact ⟨rfl, rfl⟩

theorem digitsValue_append (a b : List Char) :
    digitsValue (a ++ b) = digitsValue a * 10 ^ b.length + digitsValue b := by
  unfold digitsValue
  rw [Nat.ofDigitChars_append, Nat.ofDigitChars_eq_ofDigitChars_zero, Nat.mul_comm]

/-- A digit is worth at most nine. -/
theorem digit_le_nine {c : Char} (h : c.isDigit = true) : c.toNat - 48 ≤ 9 := by
  unfold Char.isDigit at h
  simp only [Bool.and_eq_true, decide_eq_true_eq] at h
  have hle : c.toNat ≤ 57 := UInt32.le_iff_toNat_le.mp h.2
  omega

theorem digitsValue_singleton (c : Char) : digitsValue [c] = c.toNat - 48 := by
  simp [digitsValue, Nat.ofDigitChars]

theorem digitsValue_cons (c : Char) (b : List Char) :
    digitsValue (c :: b) = (c.toNat - 48) * 10 ^ b.length + digitsValue b := by
  have := digitsValue_append [c] b
  rwa [digitsValue_singleton] at this

/-- Digits stand for a number below the power of ten of their number. -/
theorem digitsValue_lt {ds : List Char} (h : AllDigits ds) : digitsValue ds < 10 ^ ds.length := by
  induction ds with
  | nil => decide
  | cons c ds ih =>
      have hc := digit_le_nine (h c List.mem_cons_self)
      have hds := ih fun x hx => h x (List.mem_cons_of_mem c hx)
      have := Nat.mul_le_mul_right (10 ^ ds.length) hc
      rw [digitsValue_cons, List.length_cons, Nat.pow_succ]
      omega

/-- A text is digits, a point and digits that stand for a value. -/
structure Pointed (text : List Char) (whole fraction : List Char) (value : ℚ) : Prop where
  text_eq : text = whole ++ '.' :: fraction
  whole_ne : whole ≠ []
  fraction_ne : fraction ≠ []
  digits : AllDigits (whole ++ fraction)
  value_eq : (digitsValue (whole ++ fraction) : ℚ) / 10 ^ fraction.length = value

theorem digitsValue_append_replicate (n k : ℕ) :
    digitsValue (digitsOf n ++ List.replicate k '0') = n * 10 ^ k := by
  unfold digitsValue
  rw [Nat.ofDigitChars_append, Nat.ofDigitChars_replicate_zero, Nat.mul_comm]
  exact congrArg (· * 10 ^ k) (digitsValue_digitsOf n)

theorem digitsValue_replicate_append (n k : ℕ) :
    digitsValue (List.replicate k '0' ++ digitsOf n) = n := by
  unfold digitsValue
  rw [Nat.ofDigitChars_append, Nat.ofDigitChars_replicate_zero, Nat.mul_zero]
  exact digitsValue_digitsOf n

/-- Digits with a point inside stand for the number over a power of ten. -/
theorem pointed_shape (n places : ℕ) (h : 0 < places) :
    ∃ whole fraction, Pointed (pointed places (digitsOf n)) whole fraction (n / 10 ^ places) := by
  obtain ⟨padded, hpadded⟩ : ∃ padded,
      padded = List.replicate (places + 1 - (digitsOf n).length) '0' ++ digitsOf n := ⟨_, rfl⟩
  have hlength : places + 1 ≤ padded.length := by
    rw [hpadded, List.length_append, List.length_replicate]
    omega
  refine ⟨padded.take (padded.length - places), padded.drop (padded.length - places), ?_⟩
  have hfraction : (padded.drop (padded.length - places)).length = places := by
    rw [List.length_drop]
    omega
  constructor
  · rw [hpadded]
    rfl
  · intro hnil
    have := congrArg List.length hnil
    rw [List.length_take, List.length_nil] at this
    omega
  · intro hnil
    rw [hnil, List.length_nil] at hfraction
    omega
  · rw [List.take_append_drop, hpadded]
    exact allDigits_append.mpr ⟨allDigits_replicate _, allDigits_digitsOf n⟩
  · rw [List.take_append_drop, hfraction, hpadded, digitsValue_replicate_append]

/-- **A decimal in positional notation stands for its value.** -/
theorem positional_shape (d : Decimal) :
    ∃ whole fraction, Pointed d.positional whole fraction d.value := by
  obtain ⟨n, e⟩ := d
  rcases e with k | k
  · refine ⟨digitsOf n ++ List.replicate k '0', ['0'], rfl, ?_, by simp, ?_, ?_⟩
    · intro hnil
      exact digitsOf_ne_nil n (List.append_eq_nil_iff.mp hnil).1
    · exact allDigits_append.mpr
        ⟨allDigits_append.mpr ⟨allDigits_digitsOf n, allDigits_replicate k⟩, allDigits_replicate 1⟩
    · have hzeros : digitsOf n ++ List.replicate k '0' ++ ['0']
          = digitsOf n ++ List.replicate (k + 1) '0' := by
        rw [List.append_assoc, List.replicate_succ']
      rw [hzeros, digitsValue_append_replicate]
      unfold Decimal.value
      push_cast
      rw [List.length_singleton, pow_succ, pow_one, Int.ofNat_eq_natCast, zpow_natCast]
      field_simp
  · obtain ⟨whole, fraction, h⟩ := pointed_shape n (k + 1) (by omega)
    refine ⟨whole, fraction, h.text_eq, h.whole_ne, h.fraction_ne, h.digits, ?_⟩
    rw [h.value_eq]
    unfold Decimal.value
    rw [zpow_negSucc, div_eq_mul_inv]

end Chronograph
