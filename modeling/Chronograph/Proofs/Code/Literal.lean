import Chronograph.Proofs.Binary.Packing
import Chronograph.Proofs.Code.Reading

/-!
# Literals are read back

Every literal of the emitted code is read as the element that it was written
for.  For floats this is `readFloat_floatLiteral`: the shortest decimal lies in
the interval of the value, its positional notation stands for exactly that
decimal, and correct rounding takes it back.  NaN and the infinities are the
only ones that are spelled by a macro.  For integers it is `eval_int32Literal`
and `eval_int64Literal`, where the least value takes the detour of a difference
because its magnitude is no literal.
-/

namespace Chronograph

open Float.Model (Format UnpackedFloat)
open Float.Model.UnpackedFloat (Sign)

/-! ## Digits at the beginning of a text -/

theorem readPointed_append {text whole fraction suffix : List Char} {v : ℚ}
    (h : Pointed text whole fraction v) (hsuffix : suffix.takeWhile Char.isDigit = []) :
    readPointed (text ++ suffix) = some (whole, fraction, suffix) := by
  obtain ⟨hwhole, hfraction⟩ := allDigits_append.mp h.digits
  have hpoint : ('.' :: (fraction ++ suffix)).takeWhile Char.isDigit = [] := rfl
  obtain ⟨htake, hdrop⟩ := takeWhile_digits hwhole hpoint
  obtain ⟨htake', hdrop'⟩ := takeWhile_digits hfraction hsuffix
  have htext : text ++ suffix = whole ++ '.' :: (fraction ++ suffix) := by
    rw [h.text_eq, List.append_assoc, List.cons_append]
  unfold readPointed
  rw [htext, htake, hdrop]
  simp only [htake', hdrop']
  rw [if_neg]
  rintro (hnil | hnil)
  · exact h.whole_ne hnil
  · exact h.fraction_ne hnil

theorem Pointed.head_isDigit {text whole fraction : List Char} {v : ℚ}
    (h : Pointed text whole fraction v) : ∃ c rest, text = c :: rest ∧ c.isDigit = true := by
  obtain ⟨c, ds, hwhole⟩ := List.exists_cons_of_ne_nil h.whole_ne
  refine ⟨c, ds ++ '.' :: fraction, ?_, h.digits c ?_⟩
  · rw [h.text_eq, hwhole, List.cons_append]
  · rw [hwhole]
    exact List.mem_cons_self

/-- What begins with a digit is none of the macros. -/
theorem cons_ne_named {c : Char} (hc : c.isDigit = true) (rest : List Char) :
    c :: rest ≠ nanMacro ∧ c :: rest ≠ infinityMacro ∧ c :: rest ≠ '-' :: infinityMacro := by
  refine ⟨?_, ?_, ?_⟩ <;>
  · intro heq
    rw [(List.cons.inj heq).1] at hc
    exact absurd hc (by decide)

theorem readMagnitude_append {format : Format} {text whole fraction suffix : List Char} {v : ℚ}
    (h : Pointed text whole fraction v) (hsuffix : suffix.takeWhile Char.isDigit = []) :
    readMagnitude format suffix (text ++ suffix)
      = some (.ofScientific format (digitsValue (whole ++ fraction)) (-(fraction.length : Int))) := by
  have hread := readPointed_append h hsuffix
  obtain ⟨c, rest, htext, hc⟩ := h.head_isDigit
  rw [htext, List.cons_append] at hread ⊢
  obtain ⟨hnan, hinfinity, -⟩ := cons_ne_named hc (rest ++ suffix)
  unfold readMagnitude
  rw [if_neg hnan, if_neg hinfinity, hread]
  exact if_pos rfl

/-! ## Floats -/

/-- A rational of a positive value's interval is at least half of the least
value. -/
theorem InInterval.half_least_le {F : Format} {m : ℕ} {e : ℤ} {x : ℚ} (hc : Canonical F m e)
    (h : InInterval F m e x) : (2 : ℚ) ^ (F.minExponent - 1) ≤ x := by
  have hquarters : (quartersBelow F m e : ℚ) ≤ 2 := by
    unfold quartersBelow
    split <;> norm_num
  have hm : (1 : ℚ) ≤ m := by exact_mod_cast hc.pos
  have hlow := (h.quotient hc.pos).1.1
  have hhalf : (1 : ℚ) / 2 ≤ x / 2 ^ e := by linarith
  rw [le_div_iff₀ (two_zpow_pos e)] at hhalf
  calc (2 : ℚ) ^ (F.minExponent - 1) ≤ 2 ^ (e - 1) :=
        zpow_le_zpow_right₀ (by norm_num) (by have := hc.least; omega)
    _ = 1 / 2 * 2 ^ e := by rw [zpow_sub₀ (by norm_num), zpow_one]; ring
    _ ≤ x := hhalf

/-- A decimal of a positive value's interval has not too many places for its
digits. -/
theorem InInterval.places_le {F : Format} (hF : F.mantissaBits ≤ 2 ^ F.exponentBits) {m : ℕ} {e : ℤ}
    (hc : Canonical F m e) {d places : ℕ} (h : InInterval F m e ((d : ℚ) / 10 ^ places)) :
    0 < d ∧ places ≤ 2 ^ F.exponentBits + d.log2 := by
  have hlow := h.half_least_le hc
  have hten : (0 : ℚ) < 10 ^ places := by positivity
  rw [le_div_iff₀ hten] at hlow
  have hd : d ≠ 0 := by
    rintro rfl
    have : (0 : ℚ) < 2 ^ (F.minExponent - 1) * 10 ^ places := mul_pos (two_zpow_pos _) hten
    rw [Nat.cast_zero] at hlow
    linarith
  refine ⟨Nat.pos_of_ne_zero hd, ?_⟩
  obtain ⟨-, hhigh⟩ := log2_bounds hd
  have height : (2 : ℚ) ^ (3 * places : ℤ) ≤ 10 ^ places := by
    rw [zpow_mul, zpow_natCast]
    exact pow_le_pow_left₀ (by norm_num) (by norm_num) places
  have hpow : (2 : ℚ) ^ (F.minExponent - 1 + 3 * places) < 2 ^ ((d.log2 : ℤ) + 1) := by
    rw [two_zpow_add]
    have := mul_le_mul_of_nonneg_left height (two_zpow_pos (F.minExponent - 1)).le
    linarith
  have hlt := two_zpow_lt.mp hpow
  have hcap : 2 ^ F.exponentBits = 2 * 2 ^ (F.exponentBits - 1) := by
    rw [← Nat.pow_succ', Nat.succ_eq_add_one, Nat.sub_add_cancel F.he]
  have hmin : F.minExponent = 3 - ((2 ^ (F.exponentBits - 1) : ℕ) : ℤ) - F.mantissaBits := by
    push_cast
    rfl
  omega

/-- **A decimal of a value's interval is read as the value.** -/
theorem readMagnitude_of_inInterval {F : Format} (hF : F.mantissaBits ≤ 2 ^ F.exponentBits) {m : ℕ}
    {e : ℤ} (hc : Canonical F m e) {text whole fraction suffix : List Char} {v : ℚ}
    (h : Pointed text whole fraction v) (hv : InInterval F m e v)
    (hsuffix : suffix.takeWhile Char.isDigit = []) :
    readMagnitude F suffix (text ++ suffix) = some (.finite .positive m e hc.pos) := by
  have hin := hv
  rw [← h.value_eq] at hin
  obtain ⟨hpos, hsafe⟩ := hin.places_le hF hc
  obtain ⟨e', m', hunit, hnear, hcarried⟩ := hin.rounds hc
  have hplaces : 0 < fraction.length := List.length_pos_of_ne_nil h.fraction_ne
  rw [readMagnitude_append h hsuffix, ofScientific_eq hpos hplaces hsafe hunit hnear, hcarried]

/-- A sign is read as the operator that it is. -/
theorem readFloat_sign {F : Format} {suffix text : List Char} {u : UnpackedFloat} (s : Sign)
    (hne : text.head? ≠ some '-') (h : readMagnitude F suffix text = some u) :
    readFloat F suffix (signText s ++ text)
      = some (match s with | .positive => u | .negative => u.neg) := by
  cases s with
  | positive =>
      show readFloat F suffix text = some u
      unfold readFloat
      split
      · exact absurd rfl hne
      · exact h
  | negative =>
      show (readMagnitude F suffix text).map UnpackedFloat.neg = some u.neg
      rw [h]
      rfl

theorem pointed_zero : Pointed ['0', '.', '0'] ['0'] ['0'] 0 :=
  ⟨rfl, by simp, by simp, allDigits_replicate 2, by simp [digitsValue, Nat.ofDigitChars]⟩

/-- **The literal of a float is read back.** -/
theorem readFloat_floatLiteral {F : Format} (hF : F.mantissaBits ≤ 2 ^ F.exponentBits)
    {suffix : List Char} (hsuffix : suffix.takeWhile Char.isDigit = []) {u : UnpackedFloat}
    (hu : IsCanonical F u) : readFloat F suffix (floatLiteral F suffix u) = some u := by
  cases u with
  | notANumber => rfl
  | infinity s => cases s <;> rfl
  | zero s =>
      have hread : readMagnitude F suffix (['0', '.', '0'] ++ suffix) = some (.zero .positive) :=
        readMagnitude_append pointed_zero hsuffix
      have hsign := readFloat_sign s (by simp) hread
      show readFloat F suffix (signText s ++ ['0', '.', '0'] ++ suffix) = _
      rw [List.append_assoc, hsign]
      cases s <;> rfl
  | finite s m e h =>
      obtain ⟨whole, fraction, hpointed⟩ := positional_shape (shortest F .up m e)
      have hread := readMagnitude_of_inInterval hF hu hpointed (shortest_inInterval h) hsuffix
      have hhead : ((shortest F .up m e).positional ++ suffix).head? ≠ some '-' := by
        obtain ⟨c, rest, htext, hc⟩ := hpointed.head_isDigit
        rw [htext]
        intro heq
        cases heq
        exact absurd hc (by decide)
      have hsign := readFloat_sign s hhead hread
      show readFloat F suffix (signText s ++ (shortest F .up m e).positional ++ suffix) = _
      rw [List.append_assoc, hsign]
      cases s <;> rfl

/-- The literal of a finite value: an optional minus sign, digits, a point,
digits and the suffix. -/
def DecimalShape (suffix text : List Char) : Prop :=
  ∃ sign whole fraction, (sign = [] ∨ sign = ['-']) ∧ whole ≠ [] ∧ fraction ≠ [] ∧
    AllDigits (whole ++ fraction) ∧ text = sign ++ whole ++ '.' :: fraction ++ suffix

/-- The macros stand for NaN and the infinities and for nothing else; all other
values are decimals. -/
structure SpellsFloat (suffix : List Char) (u : UnpackedFloat) (text : List Char) : Prop where
  nan : text = nanMacro ↔ u = .notANumber
  infinity : text = infinityMacro ↔ u = .infinity .positive
  negativeInfinity : text = '-' :: infinityMacro ↔ u = .infinity .negative
  decimal : u.isFinite = true → DecimalShape suffix text

theorem signText_cases (s : Sign) : signText s = [] ∨ signText s = ['-'] := by
  cases s
  · exact .inr rfl
  · exact .inl rfl

/-- The literal of a finite value has the shape of a decimal. -/
theorem decimalShape_floatLiteral (F : Format) (suffix : List Char) {u : UnpackedFloat}
    (hu : u.isFinite = true) : DecimalShape suffix (floatLiteral F suffix u) := by
  cases u with
  | notANumber => cases hu
  | infinity s => cases hu
  | zero s =>
      exact ⟨signText s, ['0'], ['0'], signText_cases s, by simp, by simp, allDigits_replicate 2,
        by simp [floatLiteral]⟩
  | finite s m e h =>
      obtain ⟨whole, fraction, hpointed⟩ := positional_shape (shortest F .up m e)
      refine ⟨signText s, whole, fraction, signText_cases s, hpointed.whole_ne,
        hpointed.fraction_ne, hpointed.digits, ?_⟩
      rw [List.append_assoc (signText s), ← hpointed.text_eq]
      rfl

/-- A decimal begins with a digit, behind its sign. -/
theorem DecimalShape.ne_named {suffix text : List Char} (h : DecimalShape suffix text) :
    text ≠ nanMacro ∧ text ≠ infinityMacro ∧ text ≠ '-' :: infinityMacro := by
  obtain ⟨sign, whole, fraction, hsign, hne, -, hdigits, rfl⟩ := h
  obtain ⟨c, ds, rfl⟩ := List.exists_cons_of_ne_nil hne
  have hc : c.isDigit = true := hdigits c List.mem_cons_self
  rcases hsign with rfl | rfl
  · exact cons_ne_named hc _
  · refine ⟨?_, ?_, ?_⟩
    · intro heq
      exact absurd (List.cons.inj heq).1 (by decide)
    · intro heq
      exact absurd (List.cons.inj heq).1 (by decide)
    · intro heq
      exact (cons_ne_named hc _).2.1 (List.cons.inj heq).2

/-- The macros are the literals of NaN and the infinities, and of nothing else. -/
theorem spellsFloat_floatLiteral (F : Format) (suffix : List Char) (u : UnpackedFloat) :
    SpellsFloat suffix u (floatLiteral F suffix u) := by
  have hdecimal := decimalShape_floatLiteral F suffix (u := u)
  cases u with
  | notANumber =>
      have htext : floatLiteral F suffix .notANumber = nanMacro := rfl
      rw [htext] at hdecimal ⊢
      exact ⟨by simp, by simp [nanMacro, infinityMacro], by simp [nanMacro, infinityMacro], hdecimal⟩
  | infinity s =>
      have htext : floatLiteral F suffix (.infinity s) = signText s ++ infinityMacro := by
        cases s <;> rfl
      rw [htext] at hdecimal ⊢
      cases s <;>
        exact ⟨by simp [signText, nanMacro, infinityMacro],
          by simp [signText, infinityMacro], by simp [signText, infinityMacro], hdecimal⟩
  | zero s =>
      obtain ⟨hnan, hinf, hneg⟩ := (hdecimal rfl).ne_named
      exact ⟨by simp [hnan], by simp [hinf], by simp [hneg], hdecimal⟩
  | finite s m e h =>
      obtain ⟨hnan, hinf, hneg⟩ := (hdecimal rfl).ne_named
      exact ⟨by simp [hnan], by simp [hinf], by simp [hneg], hdecimal⟩

/-- The single-width float of an element's literal is the element. -/
theorem readFloat32_float32Literal (x : Float32) : readFloat32 (float32Literal x) = some x := by
  unfold readFloat32 float32Literal
  rw [readFloat_floatLiteral (by decide) (by decide) (isCanonical_float32 x)]
  show some (Float32.ofModel (Float32.Model.pack x.toModel.unpack)) = some x
  rw [float32_pack_unpack]

/-- The double-width float of an element's literal is the element. -/
theorem readFloat64_float64Literal (x : Float) : readFloat64 (float64Literal x) = some x := by
  unfold readFloat64 float64Literal
  rw [readFloat_floatLiteral (by decide) (by decide) (isCanonical_float x)]
  show some (Float.ofModel (Float.Model.pack x.toModel.unpack)) = some x
  rw [float_pack_unpack]

/-! ## Integers -/

/-- The digits of a number begin with a zero only if it is zero. -/
theorem eq_zero_of_head_digitsOf {n : ℕ} (h : (digitsOf n).head? = some '0') : n = 0 := by
  induction n using Nat.strongRecOn with
  | ind n ih =>
      unfold digitsOf at h ih
      by_cases hn : n < 10
      · rw [Nat.toDigits_of_lt_base hn] at h
        simpa using h
      · rw [Nat.toDigits_of_base_le (by omega) (by omega), List.head?_append] at h
        obtain ⟨c, ds, hds⟩ := List.exists_cons_of_ne_nil (digitsOf_ne_nil (n / 10))
        unfold digitsOf at hds
        have hzero := ih (n / 10) (by omega)
        rw [hds] at h hzero
        have := hzero h
        omega

/-- The suffix of a type's literals. -/
def longSuffix (long : Bool) : List Char := if long then ['L', 'L'] else []

/-- A natural number is read as a literal. -/
theorem readIntLiteral_digitsOf (n : ℕ) (long : Bool) :
    readIntLiteral (digitsOf n ++ longSuffix long) = some (.literal n long, []) := by
  have hnot : (longSuffix long).takeWhile Char.isDigit = [] := by cases long <;> rfl
  obtain ⟨htake, hdrop⟩ := takeWhile_digits (allDigits_digitsOf n) hnot
  unfold readIntLiteral
  rw [htake, hdrop, if_neg]
  · cases long <;> simp [longSuffix]
  · rintro (hnil | ⟨hhead, hne⟩)
    · exact digitsOf_ne_nil n hnil
    · have hzero := eq_zero_of_head_digitsOf hhead
      subst hzero
      exact hne rfl

/-- What does not begin with a parenthesis is a literal with its sign. -/
theorem readInt_of_readSigned {text : List Char} {e : IntExpr} (hopen : text.head? ≠ some '(')
    (h : readSigned text = some (e, [])) : readInt text = some e := by
  unfold readInt
  split
  · exact absurd rfl hopen
  · rw [h]

/-- An integer is read as a literal or the negation of one. -/
theorem readInt_intText (v : ℤ) (long : Bool) :
    readInt (intText v ++ longSuffix long)
      = some (if v < 0 then .negative (.literal v.natAbs long) else .literal v.natAbs long) := by
  have hliteral := readIntLiteral_digitsOf v.natAbs long
  unfold intText
  by_cases hv : v < 0
  · rw [if_pos hv, if_pos hv, List.cons_append]
    refine readInt_of_readSigned (by simp) ?_
    show (readIntLiteral (digitsOf v.natAbs ++ longSuffix long)).map _ = _
    rw [hliteral]
    rfl
  · rw [if_neg hv, if_neg hv]
    obtain ⟨c, ds, hds⟩ := List.exists_cons_of_ne_nil (digitsOf_ne_nil v.natAbs)
    have hc : c.isDigit = true := allDigits_digitsOf v.natAbs c (by rw [hds]; exact List.mem_cons_self)
    rw [hds, List.cons_append] at hliteral ⊢
    refine readInt_of_readSigned ?_ ?_
    · intro heq
      cases heq
      exact absurd hc (by decide)
    · unfold readSigned
      split
      · next heq =>
          rw [(List.cons.inj heq).1] at hc
          exact absurd hc (by decide)
      · exact hliteral

/-- An integer whose magnitude is a value of its type is computed without
leaving the type. -/
theorem eval_readInt_intText {v : ℤ} {long : Bool} (hv : v.natAbs ≤ typeMax long) :
    (readInt (intText v ++ longSuffix long)).bind IntExpr.eval = some (long, v) := by
  have hmax : 0 ≤ typeMax long := by cases long <;> decide
  rw [readInt_intText, Option.bind_some]
  split
  · simp only [IntExpr.eval, inType]
    rw [if_pos (by omega)]
    simp only [Option.bind_eq_bind, Option.bind_some]
    rw [if_pos (by omega)]
    congr
    omega
  · simp only [IntExpr.eval, inType]
    rw [if_pos (by omega)]
    congr
    omega

/-- **The literal of an `int` is computed within the type.** -/
theorem eval_int32Literal (x : Int32) :
    (readInt (int32Literal x)).bind IntExpr.eval = some (false, x.toInt) := by
  unfold int32Literal
  by_cases hx : x = Int32.minValue
  · rw [if_pos hx, hx]
    rfl
  · rw [if_neg hx]
    have hlow := x.le_toInt
    have hhigh := x.toInt_lt
    have hne : x.toInt ≠ -2147483648 := fun h => hx (Int32.toInt_inj.mp h)
    have hmax : typeMax false = 2147483647 := rfl
    have hfits : x.toInt.natAbs ≤ typeMax false := by omega
    have := eval_readInt_intText hfits
    simpa [longSuffix] using this

/-- **The literal of a `long long` is computed within the type.** -/
theorem eval_int64Literal (x : Int64) :
    (readInt (int64Literal x)).bind IntExpr.eval = some (true, x.toInt) := by
  unfold int64Literal
  by_cases hx : x = Int64.minValue
  · rw [if_pos hx, hx]
    rfl
  · rw [if_neg hx]
    have hlow := x.le_toInt
    have hhigh := x.toInt_lt
    have hne : x.toInt ≠ -9223372036854775808 := fun h => hx (Int64.toInt_inj.mp h)
    have hmax : typeMax true = 9223372036854775807 := rfl
    have hfits : x.toInt.natAbs ≤ typeMax true := by omega
    exact eval_readInt_intText hfits

/-! ## No commas -/

theorem comma_not_mem_of_allDigits {text : List Char} (h : AllDigits text) : ',' ∉ text := by
  intro hmem
  exact absurd (h ',' hmem) (by decide)

theorem comma_not_mem_floatLiteral (F : Format) {suffix : List Char} (hsuffix : ',' ∉ suffix)
    (u : UnpackedFloat) : ',' ∉ floatLiteral F suffix u := by
  have hspells := spellsFloat_floatLiteral F suffix u
  by_cases hu : u.isFinite = true
  · obtain ⟨sign, whole, fraction, hsign, -, -, hdigits, htext⟩ := hspells.decimal hu
    have hdigits' := comma_not_mem_of_allDigits hdigits
    rw [List.mem_append, not_or] at hdigits'
    rw [htext]
    rcases hsign with rfl | rfl <;> simp [hdigits'.1, hdigits'.2, hsuffix]
  · cases u with
    | notANumber =>
        rw [hspells.nan.mpr rfl]
        decide
    | infinity s =>
        cases s with
        | negative =>
            rw [hspells.negativeInfinity.mpr rfl]
            decide
        | positive =>
            rw [hspells.infinity.mpr rfl]
            decide
    | zero s => exact absurd rfl hu
    | finite s m e h => exact absurd rfl hu

theorem comma_not_mem_intText (v : ℤ) : ',' ∉ intText v := by
  have h := comma_not_mem_of_allDigits (allDigits_digitsOf v.natAbs)
  unfold intText
  split
  · intro hmem
    rcases List.mem_cons.mp hmem with heq | hmem
    · exact absurd heq (by decide)
    · exact h hmem
  · exact h

theorem comma_not_mem_int32Literal (x : Int32) : ',' ∉ int32Literal x := by
  unfold int32Literal
  split
  · decide
  · exact comma_not_mem_intText _

theorem comma_not_mem_int64Literal (x : Int64) : ',' ∉ int64Literal x := by
  unfold int64Literal
  split
  · decide
  · intro hmem
    rcases List.mem_append.mp hmem with hmem | hmem
    · exact comma_not_mem_intText _ hmem
    · exact absurd hmem (by decide)

/-- The separator of a list occurs in none of its literals. -/
theorem comma_not_mem_literals (data : TensorData) : ∀ l ∈ data.literals, ',' ∉ l := by
  intro l hl
  cases data with
  | float values =>
      obtain ⟨x, -, rfl⟩ := List.mem_map.mp hl
      exact comma_not_mem_floatLiteral _ (by decide) _
  | double values =>
      obtain ⟨x, -, rfl⟩ := List.mem_map.mp hl
      exact comma_not_mem_floatLiteral _ (by decide) _
  | int32 values =>
      obtain ⟨x, -, rfl⟩ := List.mem_map.mp hl
      exact comma_not_mem_int32Literal x
  | int64 values =>
      obtain ⟨x, -, rfl⟩ := List.mem_map.mp hl
      exact comma_not_mem_int64Literal x
  | raw type bytes => cases hl

end Chronograph
