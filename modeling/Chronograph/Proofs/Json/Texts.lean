import Chronograph.Json.Reader
import Chronograph.Json.Value

/-!
# Strings are read back

A string is written character by character, and read so too: each character has
one of three forms, and the reader takes exactly that form off the front of the
text (`textBody_writtenChar`).  Quotes, backslashes and seven control characters
have an escape of one letter, the other control characters one of four
hexadecimal digits, and all others stand for themselves.
-/

namespace Chronograph.Json

/-- An escape of one letter. -/
theorem textBody_simple {c e : Char} (hc : c ≠ 'u') (he : simpleEscape? c = some e)
    (s : List Char) : textBody ('\\' :: c :: s) = consResult e (textBody s) := by
  rw [textBody]
  · rw [he]
  · intro _ _ _ _ _ hu
    exact absurd hu hc
  · intro hu
    exact absurd hu hc

/-- An escape of four digits that is no half of a pair. -/
theorem textBody_unit {a b c d : Char} {n : Nat} (h : hexUnit? a b c d = some n)
    (hn : n < 0xD800) (s : List Char) :
    textBody ('\\' :: 'u' :: a :: b :: c :: d :: s) = consResult (Char.ofNat n) (textBody s) := by
  have htrail : isTrailingSurrogate n = false := by
    unfold isTrailingSurrogate
    rw [Bool.and_eq_false_iff]
    left
    rw [decide_eq_false_iff_not]
    omega
  have hlead : isLeadingSurrogate n = false := by
    unfold isLeadingSurrogate
    rw [Bool.and_eq_false_iff]
    left
    rw [decide_eq_false_iff_not]
    omega
  rw [textBody, h]
  simp only [htrail, hlead, Bool.false_eq_true, if_false]

/-- A character that stands for itself. -/
theorem textBody_plain {c : Char} (hquote : c ≠ '"') (hslash : c ≠ '\\') (hc : 32 ≤ c.toNat)
    (s : List Char) : textBody (c :: s) = consResult c (textBody s) := by
  rw [textBody]
  · rw [if_neg (by omega)]
  · exact hquote
  · intro _ _ _ _ _ h
    exact absurd h hslash
  · intro _ h
    exact absurd h hslash
  · intro _ _ h
    exact absurd h hslash
  · intro h
    exact absurd h hslash

/-- Every control character has an escape of one letter or of four digits. -/
theorem writtenChar_control : ∀ n < 32,
    let escape := writtenChar (Char.ofNat n)
    (escape = ['\\', escape.getD 1 ' '] ∧ escape.getD 1 ' ' ≠ 'u' ∧
      simpleEscape? (escape.getD 1 ' ') = some (Char.ofNat n)) ∨
    (escape = ['\\', 'u', '0', '0', escape.getD 4 ' ', escape.getD 5 ' '] ∧
      hexUnit? '0' '0' (escape.getD 4 ' ') (escape.getD 5 ' ') = some n) := by
  decide

/-- **One character is read as it was written.** -/
theorem textBody_writtenChar (c : Char) (s : List Char) :
    textBody (writtenChar c ++ s) = consResult c (textBody s) := by
  by_cases hcontrol : c.toNat < 32
  · have hescape := writtenChar_control c.toNat hcontrol
    rw [Char.ofNat_toNat] at hescape
    cases hescape with
    | inl hsimple =>
        obtain ⟨heq, hu, hvalue⟩ := hsimple
        rw [heq]
        exact textBody_simple hu hvalue s
    | inr hunit =>
        obtain ⟨heq, hvalue⟩ := hunit
        have hread := textBody_unit hvalue (by omega) s
        rw [Char.ofNat_toNat] at hread
        rw [heq]
        exact hread
  · by_cases hquote : c = '"'
    · subst hquote
      exact textBody_simple (by decide) rfl s
    · by_cases hslash : c = '\\'
      · subst hslash
        exact textBody_simple (by decide) rfl s
      · have hne {d : Char} (hd : d.toNat < 32) : c ≠ d := by
          intro heq
          rw [heq] at hcontrol
          exact hcontrol hd
        have hself : writtenChar c = [c] := by
          unfold writtenChar
          rw [if_neg hquote, if_neg hslash, if_neg (hne (by decide)), if_neg (hne (by decide)),
            if_neg (hne (by decide)), if_neg (by omega), if_neg (by omega), if_neg (by omega),
            if_neg hcontrol]
        rw [hself]
        exact textBody_plain hquote hslash (by omega) s

/-- **A string is read as it was written**, up to and with its closing quote. -/
theorem textBody_written (s rest : List Char) :
    textBody (s.flatMap writtenChar ++ '"' :: rest) = .ok (s, rest) := by
  induction s with
  | nil => rw [List.flatMap_nil, List.nil_append, textBody]
  | cons c s ih =>
      rw [List.flatMap_cons, List.append_assoc, textBody_writtenChar, ih]
      rfl

end Chronograph.Json
