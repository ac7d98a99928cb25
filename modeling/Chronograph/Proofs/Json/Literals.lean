import Chronograph.Proofs.Code.Literal
import Chronograph.Proofs.Json.Significands

/-!
# Written numbers are taken apart

What the reader of numbers makes of a text that was written as one.  A whole
number comes back as it is (`unsignedNumber_digitsOf`).  A decimal comes back as
the significand and the power of ten that its notation shows: in positional
notation a whole decimal has a zero behind its point, which the reader takes
into the significand (`Decimal.written`); in every other case the digits and the
exponent are those of the decimal (`unsignedNumber_decimalText`).

The reader stops where the number does, because nothing that may follow a value
goes on with it (`Ends`).
-/

namespace Chronograph.Json

/-! ## What follows a number -/

/-- A text that may stand behind a value. -/
def Ends (s : List Char) : Prop := ∀ c ∈ s.head?, isSpace c = true ∨ c = ',' ∨ c = ']' ∨ c = '}'

theorem ends_nil : Ends [] := by simp [Ends]

/-- A character that may stand behind a value goes on with no number. -/
theorem Ends.head {c : Char} {s : List Char} (h : Ends (c :: s)) :
    c.isDigit = false ∧ c ≠ '.' ∧ c ≠ 'e' ∧ c ≠ 'E' := by
  have hc := h c rfl
  simp only [isSpace, Bool.or_eq_true, beq_iff_eq] at hc
  obtain (((rfl | rfl) | rfl) | rfl) | rfl | rfl | rfl := hc <;> decide

theorem Ends.startsWithDigit {s : List Char} (h : Ends s) : startsWithDigit s = false := by
  cases s with
  | nil => rfl
  | cons c s => exact h.head.1

theorem afterInteger_ends {negative : Bool} {n : ℕ} {rest : List Char} (h : Ends rest) :
    afterInteger negative n rest = .ok (wholeNumber negative n, rest) := by
  cases rest with
  | nil => rfl
  | cons c s =>
      obtain ⟨-, hpoint, hlower, hupper⟩ := h.head
      rw [afterInteger]
      · intro _ heq
        exact absurd (List.head_eq_of_cons_eq heq) hpoint
      · intro _ heq
        exact absurd (List.head_eq_of_cons_eq heq) hlower
      · intro _ heq
        exact absurd (List.head_eq_of_cons_eq heq) hupper

theorem afterFraction_ends {negative : Bool} {n : ℕ} {e : ℤ} {rest : List Char} (h : Ends rest) :
    afterFraction negative n e rest = floatResult negative n e rest := by
  cases rest with
  | nil => rfl
  | cons c s =>
      obtain ⟨-, -, hlower, hupper⟩ := h.head
      rw [afterFraction]
      · intro _ heq
        exact absurd (List.head_eq_of_cons_eq heq) hlower
      · intro _ heq
        exact absurd (List.head_eq_of_cons_eq heq) hupper

/-! ## Digits -/

theorem le_ofDigitChars (ds : List Char) (significand : ℕ) :
    significand ≤ Nat.ofDigitChars 10 ds significand := by
  rw [Nat.ofDigitChars_eq_ofDigitChars_zero]
  have := Nat.le_mul_of_pos_left significand (Nat.pow_pos (n := ds.length) (by omega : 0 < 10))
  omega

/-- Digits that fit are all taken. -/
theorem gatherDigits_append {limit : ℕ} {ds rest : List Char} (hdigits : AllDigits ds)
    (hrest : startsWithDigit rest = false) (significand taken : ℕ)
    (hfits : Nat.ofDigitChars 10 ds significand < limit) :
    gatherDigits limit significand taken (ds ++ rest) =
      (Nat.ofDigitChars 10 ds significand, taken + ds.length, rest) := by
  induction ds generalizing significand taken with
  | nil =>
      cases rest with
      | nil => rfl
      | cons c s =>
          have hc : c.isDigit = false := hrest
          rw [List.nil_append, gatherDigits]
          simp [digitValue?, hc, Nat.ofDigitChars]
  | cons c ds ih =>
      have hc : c.isDigit = true := hdigits c List.mem_cons_self
      have hds : AllDigits ds := fun x hx => hdigits x (List.mem_cons_of_mem c hx)
      rw [Nat.ofDigitChars_cons, Nat.mul_comm] at hfits ⊢
      have hstep : significand * 10 + (c.toNat - '0'.toNat) < limit :=
        lt_of_le_of_lt (le_ofDigitChars ds _) hfits
      have hvalue : digitValue? c = some (c.toNat - '0'.toNat) := if_pos hc
      rw [List.cons_append, gatherDigits, hvalue]
      dsimp only
      rw [if_pos hstep, ih hds _ (taken + 1) hfits, List.length_cons]
      congr 2
      omega

/-- The digits of a whole part: at least one, and no zero before others. -/
structure WholePart (digits : List Char) : Prop where
  ne_nil : digits ≠ []
  all : AllDigits digits
  zero : digits.head? = some '0' → digits = ['0']

theorem wholePart_digitsOf (n : ℕ) : WholePart (digitsOf n) := by
  refine ⟨digitsOf_ne_nil n, allDigits_digitsOf n, ?_⟩
  intro hzero
  rw [eq_zero_of_head_digitsOf hzero]
  rfl

/-- Zeros may stand behind the digits of a whole number, if it is not zero. -/
theorem wholePart_append_zeros {n k : ℕ} (h : n = 0 → k = 0) :
    WholePart (digitsOf n ++ List.replicate k '0') := by
  have hdigits := wholePart_digitsOf n
  refine ⟨?_, allDigits_append.mpr ⟨hdigits.all, allDigits_replicate k⟩, ?_⟩
  · intro hnil
    exact hdigits.ne_nil (List.append_eq_nil_iff.mp hnil).1
  · intro hhead
    rw [List.head?_append_of_ne_nil _ hdigits.ne_nil] at hhead
    have hn := eq_zero_of_head_digitsOf hhead
    rw [hn, h hn]
    rfl

/-- **A whole part is read** up to what follows it. -/
theorem unsignedNumber_whole {negative : Bool} {whole rest : List Char} (hwhole : WholePart whole)
    (hfits : digitsValue whole < significandLimit) (hrest : startsWithDigit rest = false) :
    unsignedNumber negative (whole ++ rest) = afterInteger negative (digitsValue whole) rest := by
  obtain ⟨c, ds, hcons⟩ := List.exists_cons_of_ne_nil hwhole.ne_nil
  subst hcons
  by_cases hzero : c = '0'
  · subst hzero
    have hds : ds = [] := by
      have := hwhole.zero rfl
      exact List.tail_eq_of_cons_eq this
    subst hds
    rw [List.singleton_append, unsignedNumber, if_neg (by simp [hrest])]
    rfl
  · have hc : startsWithDigit (c :: ds ++ rest) = true := hwhole.all c List.mem_cons_self
    have hgather := gatherDigits_append hwhole.all hrest 0 0 hfits
    rw [List.cons_append] at hc hgather ⊢
    rw [unsignedNumber]
    · rw [if_pos hc, hgather]
      dsimp only
      rw [if_neg (by simp [hrest])]
      rfl
    · intro heq
      cases heq
    · intro _ heq
      exact hzero (List.head_eq_of_cons_eq heq)

/-- **A whole number is read as it was written.** -/
theorem unsignedNumber_digitsOf (negative : Bool) {n : ℕ} {rest : List Char}
    (hn : n < significandLimit) (hrest : Ends rest) :
    unsignedNumber negative (digitsOf n ++ rest) = .ok (wholeNumber negative n, rest) := by
  have hvalue := digitsValue_digitsOf n
  rw [unsignedNumber_whole (wholePart_digitsOf n) (by rw [hvalue]; exact hn)
    hrest.startsWithDigit, hvalue, afterInteger_ends hrest]

/-- The digits of a fraction are taken behind those of the whole part. -/
theorem fractionPart_append {negative : Bool} {fraction rest : List Char} {n : ℕ} {start : ℤ}
    (hne : fraction ≠ []) (hdigits : AllDigits fraction)
    (hfits : Nat.ofDigitChars 10 fraction n < significandLimit)
    (hrest : startsWithDigit rest = false) :
    fractionPart negative n start (fraction ++ rest) =
      afterFraction negative (Nat.ofDigitChars 10 fraction n) (start - fraction.length) rest := by
  have htaken : fraction.length ≠ 0 := by
    intro h
    exact hne (List.length_eq_zero_iff.mp h)
  rw [fractionPart, gatherDigits_append hdigits hrest n 0 hfits]
  simp only [hrest, Bool.false_eq_true, if_false, Nat.zero_add, htaken]

/-- An exponent is read with its sign. -/
theorem exponentPart_append (negative : Bool) (n : ℕ) (start : ℤ) {e : ℤ} {rest : List Char}
    (he : e.natAbs < exponentLimit) (hrest : startsWithDigit rest = false) :
    exponentPart negative n start ((if e < 0 then '-' else '+') :: (digitsOf e.natAbs ++ rest)) =
      floatResult negative n (start + e) rest := by
  have hunsigned (down : Bool) : unsignedExponent negative n start down (digitsOf e.natAbs ++ rest) =
      floatResult negative n (if down then start - e.natAbs else start + e.natAbs) rest := by
    have hvalue := digitsValue_digitsOf e.natAbs
    obtain ⟨c, ds, hcons⟩ := List.exists_cons_of_ne_nil (digitsOf_ne_nil e.natAbs)
    have hfits : digitsValue (digitsOf e.natAbs) < exponentLimit := hvalue.trans_lt he
    have hgather := gatherDigits_append (allDigits_digitsOf e.natAbs) hrest 0 0 hfits
    have hc : c.isDigit = true := allDigits_digitsOf e.natAbs c (by rw [hcons]; exact List.mem_cons_self)
    rw [← digitsValue, hvalue] at hgather
    rw [hcons, List.cons_append] at hgather ⊢
    have hstart : startsWithDigit (c :: (ds ++ rest)) = true := hc
    unfold unsignedExponent
    simp only [hstart, hgather, hrest, Bool.false_eq_true, if_false, if_true]
  by_cases hneg : e < 0
  · rw [if_pos hneg, exponentPart, hunsigned]
    congr 1
    simp only [if_true]
    omega
  · rw [if_neg hneg, exponentPart, hunsigned]
    congr 1
    simp only [Bool.false_eq_true, if_false]
    omega

/-! ## Decimals -/

/-- **Digits with a point inside are read** as one significand. -/
theorem unsignedNumber_pointed (negative : Bool) {whole fraction rest : List Char}
    (hwhole : WholePart whole) (hne : fraction ≠ []) (hdigits : AllDigits fraction)
    (hfits : digitsValue (whole ++ fraction) < significandLimit)
    (hrest : startsWithDigit rest = false) :
    unsignedNumber negative (whole ++ '.' :: (fraction ++ rest)) =
      afterFraction negative (digitsValue (whole ++ fraction)) (-(fraction.length : ℤ)) rest := by
  have hvalue : digitsValue (whole ++ fraction) = Nat.ofDigitChars 10 fraction (digitsValue whole) :=
    Nat.ofDigitChars_append 0
  rw [hvalue] at hfits ⊢
  have hpoint : startsWithDigit ('.' :: (fraction ++ rest)) = false := rfl
  rw [unsignedNumber_whole hwhole (lt_of_le_of_lt (le_ofDigitChars fraction _) hfits) hpoint,
    afterInteger, fractionPart_append hne hdigits hfits hrest, zero_sub]

/-- The significand and the power of ten that the notation of a decimal shows. -/
def asWritten (d : Decimal) : Decimal :=
  if -5 ≤ d.leadingExponent ∧ d.leadingExponent < 16 then
    match d.exponent with
    | .ofNat k => ⟨d.digits * 10 ^ (k + 1), -1⟩
    | .negSucc _ => d
  else d

/-- Digits with a point inside start with a zero only if it is the only digit
before the point. -/
theorem pointed_parts (n : ℕ) {places : ℕ} (hplaces : 0 < places) :
    ∃ whole fraction, pointed places (digitsOf n) = whole ++ '.' :: fraction ∧
      WholePart whole ∧ AllDigits fraction ∧ fraction.length = places ∧
      digitsValue (whole ++ fraction) = n := by
  obtain ⟨padded, hpadded⟩ : ∃ padded,
      padded = List.replicate (places + 1 - (digitsOf n).length) '0' ++ digitsOf n := ⟨_, rfl⟩
  have hlength : padded.length = places + 1 - (digitsOf n).length + (digitsOf n).length := by
    rw [hpadded, List.length_append, List.length_replicate]
  have hall : AllDigits padded := by
    rw [hpadded]
    exact allDigits_append.mpr ⟨allDigits_replicate _, allDigits_digitsOf n⟩
  have hsplit := List.take_append_drop (padded.length - places) padded
  rw [← hsplit] at hall
  obtain ⟨hwhole, hfraction⟩ := allDigits_append.mp hall
  refine ⟨padded.take (padded.length - places), padded.drop (padded.length - places), ?_,
    ⟨?_, hwhole, ?_⟩, hfraction, ?_, ?_⟩
  · rw [hpadded]
    rfl
  · intro hnil
    have := congrArg List.length hnil
    rw [List.length_take, List.length_nil] at this
    omega
  · intro hhead
    by_cases hshort : (digitsOf n).length ≤ places
    · -- the digits are all behind the point
      obtain ⟨k, hk⟩ : ∃ k, places + 1 - (digitsOf n).length = k + 1 :=
        ⟨places - (digitsOf n).length, by omega⟩
      have hone : padded.length - places = 1 := by omega
      rw [hone, hpadded, hk, List.replicate_succ]
      rfl
    · -- the first digit of the number stands before the point
      have hnone : places + 1 - (digitsOf n).length = 0 := by omega
      rw [hpadded, hnone, List.replicate_zero, List.nil_append, List.head?_take] at hhead
      split at hhead
      · cases hhead
      · have hzero := eq_zero_of_head_digitsOf hhead
        subst hzero
        have : (digitsOf 0).length = 1 := rfl
        omega
  · rw [List.length_drop]
    omega
  · rw [hsplit, hpadded, digitsValue_replicate_append]

theorem leadingExponent_eq {d : Decimal} {c : Char} {ds : List Char}
    (h : digitsOf d.digits = c :: ds) : d.leadingExponent = d.exponent + ds.length := by
  rw [Decimal.leadingExponent, h, List.length_cons, Nat.add_sub_cancel]

/-- A decimal in positional notation. -/
theorem unsignedNumber_positional {negative : Bool} {d : Decimal} {rest : List Char}
    (hpositional : -5 ≤ d.leadingExponent ∧ d.leadingExponent < 16)
    (hfits : (asWritten d).digits < significandLimit) (hzero : d.digits = 0 → d.exponent = 0)
    (hrest : Ends rest) :
    unsignedNumber negative (d.positional ++ rest) =
      floatResult negative (asWritten d).digits (asWritten d).exponent rest := by
  obtain ⟨n, e⟩ := d
  rw [asWritten, if_pos hpositional] at hfits ⊢
  cases e with
  | ofNat k =>
      have hwhole : WholePart (digitsOf n ++ List.replicate k '0') := by
        refine wholePart_append_zeros ?_
        intro hn
        have := hzero hn
        simpa using this
      have hvalue : digitsValue (digitsOf n ++ List.replicate k '0' ++ ['0']) = n * 10 ^ (k + 1) := by
        rw [List.append_assoc, ← List.replicate_succ', digitsValue_append_replicate]
      have hzeros : AllDigits ['0'] := allDigits_replicate 1
      have hread := unsignedNumber_pointed negative hwhole (by simp) hzeros
        (hvalue.trans_lt hfits) hrest.startsWithDigit
      rw [hvalue, afterFraction_ends hrest] at hread
      rw [Decimal.positional]
      simpa using hread
  | negSucc k =>
      obtain ⟨whole, fraction, htext, hwhole, hfraction, hlength, hvalue⟩ :=
        pointed_parts n (Nat.succ_pos k)
      have hne : fraction ≠ [] := by
        intro hnil
        rw [hnil] at hlength
        cases hlength
      have hread := unsignedNumber_pointed negative hwhole hne hfraction
        (by rw [hvalue]; exact hfits) hrest.startsWithDigit
      rw [hvalue, hlength, afterFraction_ends hrest] at hread
      have hpoint : Decimal.positional ⟨n, .negSucc k⟩ = whole ++ '.' :: fraction := htext
      rw [hpoint, List.append_assoc, List.cons_append, hread]
      rfl

/-- A decimal in exponent notation. -/
theorem unsignedNumber_scientific {negative : Bool} {d : Decimal} {rest : List Char}
    (hfits : d.digits < significandLimit) (hexponent : d.leadingExponent.natAbs < exponentLimit)
    (hrest : Ends rest) :
    unsignedNumber negative (d.scientific ++ rest) =
      floatResult negative d.digits d.exponent rest := by
  have hstop := hrest.startsWithDigit
  have hvalue := digitsValue_digitsOf d.digits
  have hdigits := allDigits_digitsOf d.digits
  obtain ⟨first, ds, hcons⟩ := List.exists_cons_of_ne_nil (digitsOf_ne_nil d.digits)
  have hlead := leadingExponent_eq hcons
  have hread (start : ℤ) := exponentPart_append negative d.digits start hexponent hstop
  rw [hcons] at hvalue hdigits
  have hwhole : WholePart [first] := by
    refine ⟨by simp, ?_, ?_⟩
    · intro c hc
      rw [List.mem_singleton.mp hc]
      exact hdigits first List.mem_cons_self
    · intro hhead
      rw [Option.some.inj hhead]
  have hmark : startsWithDigit ('e' :: ((if d.leadingExponent < 0 then '-' else '+') ::
      (digitsOf d.leadingExponent.natAbs ++ rest))) = false := rfl
  cases ds with
  | nil =>
      have htext : d.scientific ++ rest = [first] ++ 'e' ::
          ((if d.leadingExponent < 0 then '-' else '+') ::
            (digitsOf d.leadingExponent.natAbs ++ rest)) := by
        rw [Decimal.scientific, hcons]
        simp
      rw [htext, unsignedNumber_whole hwhole (by rw [hvalue]; exact hfits) hmark, hvalue,
        afterInteger, hread, hlead]
      simp
  | cons next ds =>
      have hfraction : AllDigits (next :: ds) := fun c hc => hdigits c (List.mem_cons_of_mem first hc)
      have htext : d.scientific ++ rest = [first] ++ '.' :: ((next :: ds) ++ 'e' ::
          ((if d.leadingExponent < 0 then '-' else '+') ::
            (digitsOf d.leadingExponent.natAbs ++ rest))) := by
        rw [Decimal.scientific, hcons]
        simp
      have hvalue : digitsValue ([first] ++ next :: ds) = d.digits := hvalue
      have hpart := unsignedNumber_pointed negative hwhole (List.cons_ne_nil next ds)
        hfraction (by rw [hvalue]; exact hfits) hmark
      rw [hvalue] at hpart
      rw [htext, hpart, afterFraction, hread, hlead]
      congr 1
      omega

/-- **A decimal is read as it was written**: as the significand and the power of
ten that its notation shows. -/
theorem unsignedNumber_decimalText (negative : Bool) {d : Decimal} {rest : List Char}
    (hfits : (asWritten d).digits < significandLimit)
    (hexponent : d.leadingExponent.natAbs < exponentLimit) (hzero : d.digits = 0 → d.exponent = 0)
    (hrest : Ends rest) :
    unsignedNumber negative (decimalText d ++ rest) =
      floatResult negative (asWritten d).digits (asWritten d).exponent rest := by
  unfold decimalText
  by_cases hpositional : -5 ≤ d.leadingExponent ∧ d.leadingExponent < 16
  · rw [if_pos hpositional]
    exact unsignedNumber_positional hpositional hfits hzero hrest
  · have hself : asWritten d = d := if_neg hpositional
    rw [if_neg hpositional, hself]
    rw [hself] at hfits
    exact unsignedNumber_scientific hfits hexponent hrest

end Chronograph.Json
