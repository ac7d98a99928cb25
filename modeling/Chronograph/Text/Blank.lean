/-!
# Blank characters

The characters that count as white space in names, policies, environment
values and lines of code: those with the Unicode property `White_Space`.
There are twenty-five of them, from the tab to the ideographic space.

* `isBlank_of_isWhitespace` — every ASCII blank of the core library is one;
* `trim_eq_nil_iff` — a text trims to nothing exactly when it is all blank.
-/

namespace Chronograph

/-- A character with the Unicode property `White_Space`. -/
def isBlank (c : Char) : Bool :=
  let n := c.toNat
  (9 ≤ n && n ≤ 13) || n == 0x20 || n == 0x85 || n == 0xA0 || n == 0x1680
    || (0x2000 ≤ n && n ≤ 0x200A) || n == 0x2028 || n == 0x2029 || n == 0x202F
    || n == 0x205F || n == 0x3000

/-- A text with no character that is not blank; the empty text is blank. -/
def isBlankText (s : List Char) : Bool := s.all isBlank

/-- A text without its blank end. -/
def trimEnd (s : List Char) : List Char := (s.reverse.dropWhile isBlank).reverse

/-- A text without its blank start and end. -/
def trim (s : List Char) : List Char := trimEnd (s.dropWhile isBlank)

/-- `trim` on strings. -/
def trimmed (s : String) : String := String.ofList (trim s.toList)

/-- Upper-case ASCII letters become lower case; all other characters stay. -/
def asciiLower (s : String) : String := String.ofList (s.toList.map Char.toLower)

/-- The white space of the core library is blank. -/
theorem isBlank_of_isWhitespace {c : Char} (h : c.isWhitespace = true) :
    isBlank c = true := by
  simp only [Char.isWhitespace, Bool.or_eq_true, decide_eq_true_eq] at h
  rcases h with ((rfl | rfl) | rfl) | rfl <;> decide

/-- Dropping a blank start leaves nothing exactly of a blank text. -/
theorem dropWhile_isBlank_eq_nil_iff (s : List Char) :
    s.dropWhile isBlank = [] ↔ ∀ c ∈ s, isBlank c = true := by
  induction s with
  | nil => simp
  | cons c s ih => by_cases h : isBlank c = true <;> simp [h, ih]

/-- A text trims to nothing exactly when all of it is blank. -/
theorem trim_eq_nil_iff (s : List Char) : trim s = [] ↔ isBlankText s = true := by
  simp only [trim, trimEnd, List.reverse_eq_nil_iff, dropWhile_isBlank_eq_nil_iff,
    List.mem_reverse, isBlankText, List.all_eq_true]
  constructor
  · intro h
    rw [← dropWhile_isBlank_eq_nil_iff]
    cases hs : s.dropWhile isBlank with
    | nil => rfl
    | cons c rest =>
        have hc := List.head?_dropWhile_not isBlank s
        rw [hs] at hc h
        simp [h c List.mem_cons_self] at hc
  · intro h c hc
    exact h c ((List.dropWhile_sublist isBlank).subset hc)

end Chronograph
