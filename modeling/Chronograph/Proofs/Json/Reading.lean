import Chronograph.Proofs.Json.Rereading
import Chronograph.Proofs.Json.Texts

/-!
# Readers of written values

`Reads read v x` says that a reader gives `x` wherever the value `v` is written:
with any white space, at any depth, before anything that may follow a value.
Here are the values without parts: strings (`reads_text`), words and numbers
(`reads_word`, `reads_number`), floats (`reads_float`) and variants
(`reads_variant`).  A float is read as whatever its text alone is read as; the
other numbers keep kind and value (`Number.ComesBack`).

Every text of a value starts with a character of its own, neither white space nor
a closing bracket (`Value.exists_spaced_cons`), by which the readers of lists and
objects know that another value follows.
-/

namespace Chronograph.Json

variable {α : Type}

/-- A reader goes on with what a part of it has read. -/
theorem ok_bind {ε β : Type} (x : α) (f : α → Except ε β) : (Except.ok x >>= f) = f x := rfl

/-- A reader gives `x` wherever a value is written. -/
def Reads (read : Reader α) (v : Value) (x : α) : Prop :=
  ∀ (sp : Spacing) (depth : Nat) (spaces rest : List Char), IsSpaces spaces → Ends rest →
    read (spaces ++ (v.spaced sp depth ++ rest)) = .ok (x, rest)

theorem Reads.here {read : Reader α} {v : Value} {x : α} (h : Reads read v x) (sp : Spacing)
    (depth : Nat) {rest : List Char} (hrest : Ends rest) :
    read (v.spaced sp depth ++ rest) = .ok (x, rest) :=
  h sp depth [] rest isSpaces_nil hrest

/-- A reader that makes something of what another one reads. -/
theorem Reads.make {β : Type} {read : Reader β} {v : Value} {x : β} (h : Reads read v x)
    (f : β → α) : Reads (fun s => do let (x, rest) ← read s; return (f x, rest)) v (f x) := by
  intro sp depth spaces rest hspaces hrest
  simp only [h sp depth spaces rest hspaces hrest, ok_bind]
  rfl

/-! ## What stands before and behind a value -/

/-- White space and then a comma or a closing bracket end a value. -/
theorem ends_append {spaces : List Char} (hspaces : IsSpaces spaces) {c : Char}
    (hc : c = ',' ∨ c = ']' ∨ c = '\x7d') (rest : List Char) : Ends (spaces ++ c :: rest) := by
  intro d hd
  cases spaces with
  | nil =>
      cases hd
      exact .inr hc
  | cons space more =>
      cases hd
      exact .inl (hspaces _ List.mem_cons_self)

theorem Number.exists_text_cons (n : Number) :
    ∃ c s, n.text = c :: s ∧ (c.isDigit = true ∨ c = '-' ∨ c = 'n') := by
  have hdigits (k : Nat) : ∃ c s, digitsOf k = c :: s ∧ c.isDigit = true := by
    obtain ⟨c, s, hcons⟩ := List.exists_cons_of_ne_nil (digitsOf_ne_nil k)
    exact ⟨c, s, hcons, allDigits_digitsOf k c (by rw [hcons]; exact List.mem_cons_self)⟩
  have hsigned (negative : Bool) {s : List Char} (hs : ∃ c t, s = c :: t ∧ c.isDigit = true) :
      ∃ c t, (if negative then ['-'] else []) ++ s = c :: t ∧
        (c.isDigit = true ∨ c = '-' ∨ c = 'n') := by
    obtain ⟨c, t, rfl, hc⟩ := hs
    cases negative with
    | true => exact ⟨'-', _, rfl, .inr (.inl rfl)⟩
    | false => exact ⟨c, t, rfl, .inl hc⟩
  cases n with
  | natural n =>
      obtain ⟨c, s, hcons, hc⟩ := hdigits n.toNat
      exact ⟨c, s, hcons, .inl hc⟩
  | negative n =>
      have := hsigned (decide (n < 0)) (hdigits n.toInt.natAbs)
      simpa [Number.text] using this
  | float x =>
      cases hspelling : spelling? x with
      | some p =>
          obtain ⟨negative, d⟩ := p
          rw [Number.text, floatText_eq hspelling]
          exact hsigned negative (exists_decimalText_cons d)
      | none =>
          rw [Number.text, floatText_null hspelling]
          exact ⟨'n', _, rfl, .inr (.inr rfl)⟩

/-- The text of a value starts with a character of its own. -/
theorem Value.exists_spaced_cons (sp : Spacing) (depth : Nat) (v : Value) :
    ∃ c s, v.spaced sp depth = c :: s ∧ isSpace c = false ∧ c ≠ ']' := by
  cases v with
  | boolean b => cases b <;> exact ⟨_, _, rfl, by decide, by decide⟩
  | number n =>
      obtain ⟨c, s, hcons, hc⟩ := n.exists_text_cons
      refine ⟨c, s, by rw [Value.spaced, hcons], ?_, ?_⟩
      · obtain hdigit | rfl | rfl := hc
        · exact not_isSpace_of_isDigit hdigit
        · decide
        · decide
      · intro heq
        rw [heq] at hc
        exact absurd hc (by decide)
  | text s => exact ⟨_, _, rfl, by decide, by decide⟩
  | list items =>
      cases items <;> exact ⟨'[', _, by rw [Value.spaced], by decide, by decide⟩
  | object members =>
      cases members with
      | nil => exact ⟨'\x7b', _, by rw [Value.spaced], by decide, by decide⟩
      | cons m rest => exact ⟨'\x7b', _, by rw [Value.spaced], by decide, by decide⟩

/-! ## Single values -/

theorem readText_written (spaces : List Char) (hspaces : IsSpaces spaces) (s : String)
    (rest : List Char) : readText (spaces ++ (writtenText s ++ rest)) = .ok (s, rest) := by
  have htext : writtenText s ++ rest = '"' :: (s.toList.flatMap writtenChar ++ '"' :: rest) := by
    unfold writtenText
    simp
  rw [htext, readText, skipSpace_append hspaces (by decide)]
  simp only [textBody_written, ok_bind, String.ofList_toList]
  rfl

theorem reads_text (s : String) : Reads readText (.text s) s := by
  intro sp depth spaces rest hspaces _
  rw [Value.spaced]
  exact readText_written spaces hspaces s rest

/-- A number that its own text stands for: a float may be another one when it is
read again, and what is not negative is written without a sign. -/
def Number.ComesBack : Number → Prop
  | natural _ => True
  | negative n => n < 0
  | float x => reread x = .ok x

/-- A float that is not finite is written as a word, which is read as no float. -/
theorem exists_spelling_of_reread {x y : Float} (h : reread x = .ok y) :
    ∃ negative d, spelling? x = some (negative, d) := by
  cases hspelling : spelling? x with
  | some p => exact ⟨p.1, p.2, rfl⟩
  | none =>
      rw [reread, floatText_null hspelling] at h
      cases h

/-- Where a float is written, the float is read that its text alone is read as. -/
theorem reads_numberAs_float {expected : Expected} {x y : Float} (h : reread x = .ok y) :
    Reads (readNumberAs expected) (.float x) (.float y) := by
  obtain ⟨negative, d, hspelling⟩ := exists_spelling_of_reread h
  rw [reread_eq hspelling] at h
  intro sp depth spaces rest hspaces hrest
  have htext : (Value.float x).spaced sp depth = floatText x := by
    rw [Value.float, Value.spaced, Number.text]
  rw [htext, readNumberAs_floatText expected hspelling hspaces hrest, floatResult, h]
  rfl

theorem reads_float {x y : Float} (h : reread x = .ok y) : Reads readFloat (.float x) y := by
  have hnumber : Reads (readNumberAs .float) (.float x) (.float y) := reads_numberAs_float h
  intro sp depth spaces rest hspaces hrest
  rw [readFloat, hnumber sp depth spaces rest hspaces hrest]
  rfl

/-- The digits of a whole number, behind its sign. -/
theorem readNumberAs_digitsOf (expected : Expected) (negative : Bool) {n : Nat}
    (hn : n < significandLimit) {spaces rest : List Char} (hspaces : IsSpaces spaces)
    (hrest : Ends rest) :
    readNumberAs expected (spaces ++ ((if negative then ['-'] else []) ++ (digitsOf n ++ rest))) =
      .ok (wholeNumber negative n, rest) := by
  obtain ⟨c, s, hcons⟩ := List.exists_cons_of_ne_nil (digitsOf_ne_nil n)
  have hc : c.isDigit = true := allDigits_digitsOf n c (by rw [hcons]; exact List.mem_cons_self)
  have hread := unsignedNumber_digitsOf negative hn hrest
  rw [hcons, List.cons_append] at hread ⊢
  rw [readNumberAs_signed hspaces hc, hread]

/-- **A number is read** with its kind and value. -/
theorem reads_number {expected : Expected} {n : Number} (h : n.ComesBack) :
    Reads (readNumberAs expected) (.number n) n := by
  cases n with
  | float x => exact reads_numberAs_float h
  | natural n =>
      intro sp depth spaces rest hspaces hrest
      have hread := readNumberAs_digitsOf expected false
        n.toNat_lt hspaces hrest
      rw [if_neg (by decide), List.nil_append] at hread
      rw [Value.spaced, Number.text, hread, wholeNumber, if_neg (by decide)]
      congr 2
      exact congrArg Number.natural (UInt64.ofNat_toNat)
  | negative n =>
      intro sp depth spaces rest hspaces hrest
      have hlt : n < 0 := h
      have hneg : n.toInt < 0 := Int64.lt_iff_toInt_lt.mp hlt
      have hleast := n.le_toInt
      have hfits : n.toInt.natAbs < significandLimit := by
        have hlimit : significandLimit = 2 ^ 64 := rfl
        omega
      have hread := readNumberAs_digitsOf expected true hfits
        hspaces hrest
      rw [if_pos rfl] at hread
      rw [Value.spaced, Number.text, if_pos hlt, List.append_assoc, hread, wholeNumber, if_pos rfl,
        if_neg]
      · congr 2
        have hvalue : -((n.toInt.natAbs : Nat) : Int) = n.toInt := by omega
        rw [hvalue, Int64.ofInt_toInt]
      · have hpow : Nat.pow 2 63 = 9223372036854775808 := rfl
        omega

/-- A word is read as it was written. -/
theorem reads_word (n : UInt64) : Reads readWord (.number (.natural n)) n := by
  have hnumber : Reads (readNumberAs .word) (.number (.natural n)) (.natural n) :=
    reads_number trivial
  intro sp depth spaces rest hspaces hrest
  rw [readWord, hnumber sp depth spaces rest hspaces hrest]
  rfl

/-- A variant is read from its name. -/
theorem reads_variant {known : List (String × α)} {name : String} {value : α}
    (h : NameMap.lookup name known = some value) : Reads (readVariant known) (.text name) value := by
  intro sp depth spaces rest hspaces _
  have htext : writtenText name ++ rest =
      '"' :: (name.toList.flatMap writtenChar ++ '"' :: rest) := by
    unfold writtenText
    simp
  have hread := readText_written [] isSpaces_nil name rest
  rw [List.nil_append, htext] at hread
  rw [Value.spaced, htext, readVariant, skipSpace_append hspaces (by decide)]
  simp only [hread, ok_bind, variantOf, h]
  rfl

end Chronograph.Json
