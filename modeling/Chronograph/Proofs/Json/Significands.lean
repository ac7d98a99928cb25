import Chronograph.Proofs.Json.Numerals

/-!
# How a number is read

A number is read digit by digit into a significand that stops growing when it is
full.  Its digits then fall into four runs: those of the integer part that were
taken and those that were not, and the same for the fraction.  `Runs` holds them
together with what is known of each.

Every number that is read is a numeral as it is written, and it is either plain
and fits or has a significand and a power of ten (`unsignedNumber_runs`).
-/

namespace Chronograph.Json

/-! ## Gathering digits -/

/-- Digits are taken from the front of a text, as long as they fit. -/
theorem gatherDigits_spec (limit : ℕ) (text : List Char) (significand taken : ℕ)
    (hlimit : significand < limit) :
    ∃ ds rest, gatherDigits limit significand taken text
        = (Nat.ofDigitChars 10 ds significand, taken + ds.length, rest) ∧
      text = ds ++ rest ∧ AllDigits ds ∧ Nat.ofDigitChars 10 ds significand < limit ∧
      ∀ c r, rest = c :: r → c.isDigit = true →
        limit ≤ Nat.ofDigitChars 10 ds significand * 10 + (c.toNat - 48) := by
  induction text generalizing significand taken with
  | nil =>
      refine ⟨[], [], rfl, rfl, ?_, hlimit, ?_⟩
      · intro c hc
        cases hc
      · intro c r hrest
        cases hrest
  | cons c s ih =>
      unfold gatherDigits digitValue?
      by_cases hc : c.isDigit = true
      · rw [if_pos hc]
        dsimp only
        by_cases hfits : significand * 10 + (c.toNat - '0'.toNat) < limit
        · obtain ⟨ds, rest, hgather, htext, hdigits, hlt, hnext⟩ :=
            ih (significand * 10 + (c.toNat - '0'.toNat)) (taken + 1) hfits
          have hstep : Nat.ofDigitChars 10 (c :: ds) significand
              = Nat.ofDigitChars 10 ds (significand * 10 + (c.toNat - '0'.toNat)) := by
            rw [Nat.ofDigitChars_cons, Nat.mul_comm]
          rw [if_pos hfits, hgather]
          refine ⟨c :: ds, rest, ?_, by rw [htext]; rfl, ?_, ?_, ?_⟩
          · rw [hstep, List.length_cons]
            congr 2
            omega
          · intro x hx
            rcases List.mem_cons.mp hx with rfl | hx
            · exact hc
            · exact hdigits x hx
          · rw [hstep]
            exact hlt
          · rw [hstep]
            exact hnext
        · rw [if_neg hfits]
          refine ⟨[], c :: s, rfl, rfl, ?_, hlimit, ?_⟩
          · intro x hx
            cases hx
          · intro x r hrest _
            cases hrest
            exact Nat.le_of_not_lt hfits
      · rw [if_neg hc]
        refine ⟨[], c :: s, rfl, rfl, ?_, hlimit, ?_⟩
        · intro x hx
          cases hx
        · intro x r hrest hx
          cases hrest
          exact absurd hx hc

theorem startsWithDigit_iff (s : List Char) :
    startsWithDigit s = true ↔ s.takeWhile Char.isDigit ≠ [] := by
  cases s with
  | nil => simp [startsWithDigit]
  | cons c s =>
      by_cases hc : c.isDigit = true
      · simp [startsWithDigit, hc]
      · simp [startsWithDigit, hc]

/-! ## Exponents -/

/-- What becomes of a significand with a power of ten and a written exponent. -/
def Outcome (negative : Bool) (significand : ℕ) (start : ℤ) (exponent : Option ℤ) (n : Number) :
    Prop :=
  (∃ x, n = .float x ∧ floatOfParts negative significand (start + exponent.getD 0) = .ok x ∧
      ∀ e, exponent = some e → e.natAbs < 2 ^ 31) ∨
    (∃ e, exponent = some e ∧ 2 ^ 31 ≤ e.natAbs ∧ (significand = 0 ∨ e < 0) ∧
      n = .float (if negative then -0.0 else 0.0))

theorem floatResult_eq_ok {negative : Bool} {significand : ℕ} {exponent : ℤ} {s rest : List Char}
    {n : Number} (h : floatResult negative significand exponent s = .ok (n, rest)) :
    rest = s ∧ ∃ x, n = .float x ∧ floatOfParts negative significand exponent = .ok x := by
  unfold floatResult at h
  cases hparts : floatOfParts negative significand exponent with
  | error f =>
      rw [hparts] at h
      cases h
  | ok x =>
      rw [hparts] at h
      cases h
      exact ⟨rfl, x, rfl, rfl⟩

/-- The digits at the front of a text, of which the first ones were gathered. -/
theorem gatherDigits_split {limit significand : ℕ} (text : List Char) (hlimit : significand < limit) :
    ∃ taken left rest, text.takeWhile Char.isDigit = taken ++ left ∧
      text.dropWhile Char.isDigit = rest ∧
      gatherDigits limit significand 0 text
        = (Nat.ofDigitChars 10 taken significand, taken.length, left ++ rest) ∧
      (left ++ rest).takeWhile Char.isDigit = left ∧ (left ++ rest).dropWhile Char.isDigit = rest ∧
      (startsWithDigit (left ++ rest) = true ↔ left ≠ []) ∧
      Nat.ofDigitChars 10 taken significand < limit ∧
      (left ≠ [] → limit ≤ Nat.ofDigitChars 10 taken significand * 10 + 9 ∧
        limit ≤ Nat.ofDigitChars 10 (taken ++ left) significand) := by
  obtain ⟨taken, tail, hgather, htext, hdigits, hlt, hnext⟩ :=
    gatherDigits_spec limit text significand 0 hlimit
  obtain ⟨htake, hdrop⟩ := takeWhile_append_digits hdigits tail
  have htail := List.takeWhile_append_dropWhile (p := Char.isDigit) (l := tail)
  refine ⟨taken, tail.takeWhile Char.isDigit, tail.dropWhile Char.isDigit,
    ?_, ?_, ?_, ?_, ?_, ?_, hlt, ?_⟩
  · rw [htext, htake]
  · rw [htext, hdrop]
  · rw [hgather, htail, Nat.zero_add]
  · rw [htail]
  · rw [htail]
  · rw [htail]
    exact startsWithDigit_iff tail
  · intro hleft
    cases tail with
    | nil => exact absurd rfl hleft
    | cons c r =>
        by_cases hc : c.isDigit = true
        · have hfull := hnext c r rfl hc
          have hnine := digit_le_nine hc
          refine ⟨by omega, ?_⟩
          rw [Nat.ofDigitChars_append, List.takeWhile_cons_of_pos hc, Nat.ofDigitChars_cons,
            Nat.ofDigitChars_eq_ofDigitChars_zero]
          have hgrow := Nat.le_mul_of_pos_left
            (10 * Nat.ofDigitChars 10 taken significand + (c.toNat - '0'.toNat))
            (Nat.pow_pos (n := (r.takeWhile Char.isDigit).length) (by omega : 0 < 10))
          have hzero : '0'.toNat = 48 := rfl
          omega
        · rw [List.takeWhile_cons_of_neg hc] at hleft
          exact absurd rfl hleft

/-- An exponent that is not counted leaves a zero, or is a fault. -/
theorem longExponent_spec {negative down : Bool} {significand exponent : ℕ} {start : ℤ}
    {tail rest : List Char} {n : Number} (hlarge : 2 ^ 31 ≤ exponent)
    (h : (if significand != 0 && !down then .error .numberOutOfRange
      else .ok (.float (if negative then -0.0 else 0.0), tail) : Except Fault (Number × List Char))
        = .ok (n, rest)) :
    rest = tail ∧ Outcome negative significand start (some (signedInt down exponent)) n := by
  by_cases hfault : (significand != 0 && !down) = true
  · rw [if_pos hfault] at h
    cases h
  · rw [if_neg hfault] at h
    cases h
    refine ⟨rfl, .inr ⟨_, rfl, ?_, ?_, rfl⟩⟩
    · rw [natAbs_signedInt]
      exact hlarge
    · by_cases hzero : significand = 0
      · exact .inl hzero
      · right
        cases down with
        | true =>
            unfold signedInt
            rw [if_pos rfl]
            omega
        | false => exact absurd (by simp [hzero]) hfault

/-- An exponent is counted, unless it has more than 31 bits. -/
theorem unsignedExponent_spec {negative down : Bool} {significand : ℕ} {start : ℤ}
    {s rest : List Char} {n : Number}
    (h : unsignedExponent negative significand start down s = .ok (n, rest)) :
    ∃ e, exponentDigits down s = .ok (some e, rest) ∧
      Outcome negative significand start (some e) n := by
  unfold unsignedExponent at h
  cases s with
  | nil => cases h
  | cons c s =>
      dsimp only at h
      by_cases hdigit : startsWithDigit (c :: s) = true
      · obtain ⟨taken, left, tail, htake, hdrop, hgather, -, htail, hstart, hlt, hfull⟩ :=
          gatherDigits_split (c :: s) (show 0 < exponentLimit by decide)
        have hne := (startsWithDigit_iff _).mp hdigit
        rw [if_pos hdigit, hgather] at h
        dsimp only at h
        have hread : exponentDigits down (c :: s)
            = .ok (some (signedInt down (digitsValue (taken ++ left))), tail) := by
          unfold exponentDigits
          rw [if_neg hne, htake, hdrop]
        by_cases hlong : startsWithDigit (left ++ tail) = true
        · rw [if_pos hlong] at h
          rw [htail] at h
          have hlarge : 2 ^ 31 ≤ digitsValue (taken ++ left) := (hfull (hstart.mp hlong)).2
          obtain ⟨rfl, houtcome⟩ := longExponent_spec hlarge h
          exact ⟨_, hread, houtcome⟩
        · rw [if_neg hlong] at h
          obtain rfl : left = [] := not_not.mp (mt hstart.mpr hlong)
          obtain ⟨rfl, x, rfl, hparts⟩ := floatResult_eq_ok h
          rw [List.append_nil] at hread
          refine ⟨_, hread, .inl ⟨x, rfl, ?_, ?_⟩⟩
          · have hexponent : (if down then start - (digitsValue taken : ℕ)
                else start + (digitsValue taken : ℕ))
                = start + signedInt down (digitsValue taken) := by
              unfold signedInt
              cases down
              · rfl
              · exact Int.sub_eq_add_neg
            rw [Option.getD_some, ← hexponent]
            exact hparts
          · intro e he
            cases he
            rw [natAbs_signedInt]
            exact hlt
      · rw [if_neg hdigit] at h
        cases h

theorem exponentPart_spec {negative : Bool} {significand : ℕ} {start : ℤ} {s rest : List Char}
    {n : Number} (h : exponentPart negative significand start s = .ok (n, rest)) :
    ∃ e, signedExponent s = .ok (some e, rest) ∧ Outcome negative significand start (some e) n := by
  unfold exponentPart at h
  split at h
  · exact unsignedExponent_spec h
  · exact unsignedExponent_spec h
  · next hplus hminus =>
      rw [signedExponent_of_ne hplus hminus]
      exact unsignedExponent_spec h

/-- Behind the digits stands an exponent or nothing. -/
theorem afterFraction_spec {negative : Bool} {significand : ℕ} {start : ℤ} {s rest : List Char}
    {n : Number} (h : afterFraction negative significand start s = .ok (n, rest)) :
    ∃ exponent, numeralExponent s = .ok (exponent, rest) ∧
      Outcome negative significand start exponent n := by
  unfold afterFraction at h
  split at h
  · obtain ⟨e, hread, houtcome⟩ := exponentPart_spec h
    exact ⟨some e, hread, houtcome⟩
  · obtain ⟨e, hread, houtcome⟩ := exponentPart_spec h
    exact ⟨some e, hread, houtcome⟩
  · next hlower hupper =>
      obtain ⟨rfl, x, rfl, hparts⟩ := floatResult_eq_ok h
      refine ⟨none, numeralExponent_of_ne hlower hupper, .inl ⟨x, rfl, ?_, ?_⟩⟩
      · rw [Option.getD_none, add_zero]
        exact hparts
      · intro e he
        cases he

/-! ## The four runs of digits -/

/-- The digits of a number: those of its integer part that were taken and those
that were skipped, and the same for its fraction. -/
structure Runs where
  taken : List Char
  skipped : List Char
  fraction : List Char
  cut : List Char
  digits : AllDigits (taken ++ skipped ++ (fraction ++ cut))
  fits : digitsValue (taken ++ fraction) < significandLimit
  /-- Digits are skipped only behind a full significand. -/
  full_of_skipped : skipped ≠ [] → significandLimit ≤ digitsValue taken * 10 + 9
  full_of_cut : cut ≠ [] → significandLimit ≤ digitsValue (taken ++ fraction) * 10 + 9

namespace Runs

/-- The digits that were taken, as a number. -/
def significand (r : Runs) : ℕ := digitsValue (r.taken ++ r.fraction)

/-- The power of ten that the significand is read with, without an exponent. -/
def start (r : Runs) : ℤ := r.skipped.length - r.fraction.length

/-- The number as it is written. -/
def numeral (r : Runs) (negative : Bool) (exponent : Option ℤ) : Numeral where
  negative := negative
  whole := r.taken ++ r.skipped
  fraction := r.fraction ++ r.cut
  exponent := exponent

end Runs

section Integer

variable {negative : Bool} {taken skipped : List Char}

/-- A number without a fraction. -/
theorem exists_whole_runs (hdigits : AllDigits (taken ++ skipped))
    (hfits : digitsValue taken < significandLimit)
    (hfull : skipped ≠ [] → significandLimit ≤ digitsValue taken * 10 + 9) :
    ∃ r : Runs, r.taken = taken ∧ r.skipped = skipped ∧ r.fraction = [] ∧ r.cut = [] := by
  refine ⟨⟨taken, skipped, [], [], ?_, ?_, hfull, fun h => absurd rfl h⟩, rfl, rfl, rfl, rfl⟩
  · rwa [List.append_nil, List.append_nil]
  · rwa [List.append_nil]

/-- Behind a point stand the digits of a fraction. -/
theorem fractionPart_runs (hdigits : AllDigits (taken ++ skipped))
    (hfits : digitsValue taken < significandLimit)
    (hfull : skipped ≠ [] → significandLimit ≤ digitsValue taken * 10 + 9)
    {s rest : List Char} {n : Number}
    (h : fractionPart negative (digitsValue taken) skipped.length s = .ok (n, rest)) :
    ∃ (r : Runs) (exponent : Option ℤ) (tail : List Char),
      r.taken = taken ∧ r.skipped = skipped ∧ r.fraction ++ r.cut ≠ [] ∧
      numeralFraction ('.' :: s) = .ok (r.fraction ++ r.cut, tail) ∧
      numeralExponent tail = .ok (exponent, rest) ∧
      Outcome negative r.significand r.start exponent n := by
  obtain ⟨fraction, cut, tail, htake, hdrop, hgather, -, htail, hstart, hlt, hfullcut⟩ :=
    gatherDigits_split s hfits
  have hsignificand : Nat.ofDigitChars 10 fraction (digitsValue taken)
      = digitsValue (taken ++ fraction) := (Nat.ofDigitChars_append ..).symm
  have hall : AllDigits (taken ++ skipped ++ (fraction ++ cut)) := by
    rw [allDigits_append, ← htake]
    exact ⟨hdigits, allDigits_takeWhile s⟩
  rw [hsignificand] at hgather hlt hfullcut
  unfold fractionPart at h
  rw [hgather] at h
  dsimp only at h
  have hread : fraction ++ cut ≠ [] → numeralFraction ('.' :: s) = .ok (fraction ++ cut, tail) := by
    intro hne
    show (if s.takeWhile Char.isDigit = [] then Except.error Fault.invalidNumber
      else .ok (s.takeWhile Char.isDigit, s.dropWhile Char.isDigit)) = _
    rw [htake, if_neg hne, hdrop]
  by_cases hlong : startsWithDigit (cut ++ tail) = true
  · have hcutne := hstart.mp hlong
    rw [if_pos hlong, htail] at h
    obtain ⟨exponent, hexponent, houtcome⟩ := afterFraction_spec h
    refine ⟨⟨taken, skipped, fraction, cut, hall, hlt, hfull, fun hne => (hfullcut hne).1⟩,
      exponent, tail, rfl, rfl, ?_, hread ?_, hexponent, houtcome⟩
    · exact List.append_ne_nil_of_right_ne_nil _ hcutne
    · exact List.append_ne_nil_of_right_ne_nil _ hcutne
  · obtain rfl : cut = [] := not_not.mp (mt hstart.mpr hlong)
    rw [if_neg hlong] at h
    by_cases hnone : fraction.length = 0
    · rw [if_pos hnone] at h
      cases h
    · rw [if_neg hnone] at h
      have hne : fraction ++ [] ≠ [] := by
        rw [List.append_nil]
        exact fun heq => hnone (List.length_eq_zero_iff.mpr heq)
      obtain ⟨exponent, hexponent, houtcome⟩ := afterFraction_spec h
      exact ⟨⟨taken, skipped, fraction, [], hall, hlt, hfull, fun hne => absurd rfl hne⟩,
        exponent, tail, rfl, rfl, hne, hread hne, hexponent, houtcome⟩

/-- What is read behind the integer part of a number. -/
def ReadBehind (negative : Bool) (taken skipped s : List Char) (n : Number) (rest : List Char) :
    Prop :=
  ∃ (r : Runs) (exponent : Option ℤ) (tail : List Char),
    r.taken = taken ∧ r.skipped = skipped ∧
    numeralFraction s = .ok (r.fraction ++ r.cut, tail) ∧
    numeralExponent tail = .ok (exponent, rest) ∧
    ((r.numeral negative exponent).Plain ∧ skipped = [] ∧
        n = wholeNumber negative (digitsValue taken) ∨
      ((r.numeral negative exponent).Plain → skipped ≠ []) ∧
        Outcome negative r.significand r.start exponent n)

/-- Behind an integer part that fits. -/
theorem afterInteger_runs {s rest : List Char} {n : Number} (hdigits : AllDigits taken)
    (hfits : digitsValue taken < significandLimit)
    (h : afterInteger negative (digitsValue taken) s = .ok (n, rest)) :
    ReadBehind negative taken [] s n rest := by
  have hdigits' : AllDigits (taken ++ []) := by rwa [List.append_nil]
  have hfull : ([] : List Char) ≠ [] → significandLimit ≤ digitsValue taken * 10 + 9 :=
    fun hne => absurd rfl hne
  obtain ⟨r, rfl, hskipped, hfraction, hcut⟩ := exists_whole_runs hdigits' hfits hfull
  have hsignificand : r.significand = digitsValue r.taken := by
    unfold Runs.significand
    rw [hfraction, List.append_nil]
  have hstart : r.start = 0 := by
    unfold Runs.start
    rw [hskipped, hfraction]
    rfl
  have hnofraction : r.fraction ++ r.cut = [] := by rw [hfraction, hcut]; rfl
  have hexponentPart : ∀ {s : List Char},
      exponentPart negative (digitsValue r.taken) 0 s = .ok (n, rest) →
      ∃ e, signedExponent s = .ok (some e, rest) ∧
        ((r.numeral negative (some e)).Plain → ([] : List Char) ≠ []) ∧
        Outcome negative r.significand r.start (some e) n := by
    intro s hs
    obtain ⟨e, hread, houtcome⟩ := exponentPart_spec hs
    rw [hsignificand, hstart]
    exact ⟨e, hread, fun hplain => absurd hplain.2 (by simp [Runs.numeral]), houtcome⟩
  unfold afterInteger at h
  split at h
  · next s =>
      have hfraction' : fractionPart negative (digitsValue r.taken) ([] : List Char).length s
          = .ok (n, rest) := h
      obtain ⟨r', exponent, tail, htaken, hskipped', hne, hread, hexponent, houtcome⟩ :=
        fractionPart_runs hdigits' hfits hfull hfraction'
      exact ⟨r', exponent, tail, htaken, hskipped', hread, hexponent,
        .inr ⟨fun hplain => absurd hplain.1 hne, houtcome⟩⟩
  · next s =>
      obtain ⟨e, hread, hplain, houtcome⟩ := hexponentPart h
      refine ⟨r, some e, 'e' :: s, rfl, hskipped, ?_, hread, .inr ⟨hplain, houtcome⟩⟩
      rw [hnofraction]
      rfl
  · next s =>
      obtain ⟨e, hread, hplain, houtcome⟩ := hexponentPart h
      refine ⟨r, some e, 'E' :: s, rfl, hskipped, ?_, hread, .inr ⟨hplain, houtcome⟩⟩
      rw [hnofraction]
      rfl
  · next hpoint hlower hupper =>
      cases h
      refine ⟨r, none, s, rfl, hskipped, ?_, numeralExponent_of_ne hlower hupper,
        .inl ⟨⟨hnofraction, rfl⟩, rfl, rfl⟩⟩
      rw [hnofraction]
      exact numeralFraction_of_ne hpoint

/-- Behind an integer part of which digits were skipped. -/
theorem afterLongInteger_runs {s rest : List Char} {n : Number}
    (hdigits : AllDigits (taken ++ skipped)) (hfits : digitsValue taken < significandLimit)
    (hskipped : skipped ≠ []) (hfull : significandLimit ≤ digitsValue taken * 10 + 9)
    (h : afterLongInteger negative (digitsValue taken) skipped.length s = .ok (n, rest)) :
    ReadBehind negative taken skipped s n rest := by
  unfold afterLongInteger at h
  split at h
  · obtain ⟨r, exponent, tail, htaken, hskipped', -, hread, hexponent, houtcome⟩ :=
      fractionPart_runs hdigits hfits (fun _ => hfull) h
    exact ⟨r, exponent, tail, htaken, hskipped', hread, hexponent, .inr ⟨fun _ => hskipped, houtcome⟩⟩
  · next hpoint =>
      obtain ⟨r, rfl, rfl, hfraction, hcut⟩ := exists_whole_runs hdigits hfits (fun _ => hfull)
      obtain ⟨exponent, hexponent, houtcome⟩ := afterFraction_spec h
      refine ⟨r, exponent, s, rfl, rfl, ?_, hexponent, .inr ⟨fun _ => hskipped, ?_⟩⟩
      · rw [hfraction, hcut]
        exact numeralFraction_of_ne hpoint
      · unfold Runs.significand Runs.start
        rw [hfraction, List.append_nil, List.length_nil, Nat.cast_zero, sub_zero]
        exact houtcome

/-- **Every number that is read is a numeral**, and it is either plain and fits
or has a significand and a power of ten. -/
theorem unsignedNumber_runs {s rest : List Char} {n : Number}
    (h : unsignedNumber negative s = .ok (n, rest)) :
    ∃ (r : Runs) (exponent : Option ℤ),
      numeralFrom negative s = .ok (r.numeral negative exponent, rest) ∧
      ((r.numeral negative exponent).Plain ∧ r.skipped = [] ∧
          n = wholeNumber negative (digitsValue r.taken) ∨
        ((r.numeral negative exponent).Plain → r.skipped ≠ []) ∧
          Outcome negative r.significand r.start exponent n) := by
  suffices hbehind : ∃ taken skipped tail, numeralWhole s = .ok (taken ++ skipped, tail) ∧
      ReadBehind negative taken skipped tail n rest by
    obtain ⟨_, _, tail, hwhole, r, exponent, behind, rfl, rfl, hfraction, hexponent, hn⟩ := hbehind
    refine ⟨r, exponent, ?_, hn⟩
    unfold numeralFrom
    rw [hwhole]
    dsimp only [bind, Except.bind]
    rw [hfraction]
    dsimp only
    rw [hexponent]
    rfl
  unfold unsignedNumber at h
  split at h
  · cases h
  · next s =>
      by_cases hdigit : startsWithDigit s = true
      · rw [if_pos hdigit] at h
        cases h
      · rw [if_neg hdigit] at h
        have hnone : s.takeWhile Char.isDigit = [] :=
          not_not.mp (mt (startsWithDigit_iff s).mpr hdigit)
        have hzero : AllDigits ['0'] := allDigits_replicate 1
        exact ⟨['0'], [], s, numeralWhole_zero hnone, afterInteger_runs hzero (by decide) h⟩
  · next hnotzero =>
      by_cases hdigit : startsWithDigit s = true
      · rw [if_pos hdigit] at h
        obtain ⟨taken, skipped, tail, htake, hdrop, hgather, hskip, htail, hstart, hlt, hfull⟩ :=
          gatherDigits_split s (show 0 < significandLimit by decide)
        have hdigits : AllDigits (taken ++ skipped) := htake ▸ allDigits_takeWhile s
        have hwhole := numeralWhole_of_ne ((startsWithDigit_iff s).mp hdigit) hnotzero
        rw [htake, hdrop] at hwhole
        refine ⟨taken, skipped, tail, hwhole, ?_⟩
        rw [hgather] at h
        dsimp only at h
        by_cases hlong : startsWithDigit (skipped ++ tail) = true
        · have hskippedne := hstart.mp hlong
          rw [if_pos hlong, hskip, htail] at h
          exact afterLongInteger_runs hdigits hlt hskippedne (hfull hskippedne).1 h
        · obtain rfl : skipped = [] := not_not.mp (mt hstart.mpr hlong)
          rw [if_neg hlong] at h
          rw [List.append_nil] at hdigits
          exact afterInteger_runs hdigits hlt h
      · rw [if_neg hdigit] at h
        cases h

end Integer

end Chronograph.Json
