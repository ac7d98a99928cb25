import Chronograph.Text.StringLiteral

/-!
# Reading string literals

A string literal of code is read from behind its opening quote (`readLiteral?`): a
backslash and the character behind it mean one character, and the first quote without a
backslash ends the literal, wherever it stands.

A character is spelled by a backslash and a character that means it, or by itself if it
is neither a backslash nor a quote and ends no line (`escapeLiteralChar_cases`).  Either
way the reader takes what is spelled for the character, whatever follows, and so it
reads a text that is spelled up to the quote behind it and no further
(`readLiteral?_escapeLiteral`).
-/

namespace Chronograph

/-- The character that is meant by a character behind a backslash. -/
def meantBy? : Char → Option Char
  | '\\' => some '\\'
  | '"' => some '"'
  | 'n' => some '\n'
  | 'r' => some '\r'
  | 't' => some '\t'
  | _ => none

/-- What is read of a literal behind its opening quote: the text that is spelled up to
the first quote that is not escaped, and what stands behind that quote.  A literal ends on
the line on which it starts. -/
def readLiteral? : List Char → Option (List Char × List Char)
  | [] | ['\\'] | '\n' :: _ => none
  | '"' :: rest => some ([], rest)
  | '\\' :: c :: rest => do
    let meant ← meantBy? c
    let (text, behind) ← readLiteral? rest
    return (meant :: text, behind)
  | c :: rest => do
    let (text, behind) ← readLiteral? rest
    return (c :: text, behind)

/-- Inside a literal a character is spelled by a backslash and one more that means it, or
by itself, and then it neither escapes what follows nor ends the literal or its line. -/
theorem escapeLiteralChar_cases (c : Char) :
    (∃ d, escapeLiteralChar c = ['\\', d] ∧ meantBy? d = some c) ∨
      (escapeLiteralChar c = [c] ∧ c ≠ '\\' ∧ c ≠ '"' ∧ c ≠ '\n') := by
  grind [escapeLiteralChar, meantBy?]

/-- A character is read as it is spelled. -/
theorem readLiteral?_escapeLiteralChar (c : Char) (rest : List Char) :
    readLiteral? (escapeLiteralChar c ++ rest) =
      (readLiteral? rest).map fun (text, behind) => (c :: text, behind) := by
  obtain ⟨d, hescaped, hmeant⟩ | ⟨hitself, hbackslash, hquote, hnewline⟩ :=
    escapeLiteralChar_cases c
  · rw [hescaped, List.cons_append, List.singleton_append, readLiteral?, hmeant]
    cases readLiteral? rest <;> rfl
  · rw [hitself, List.singleton_append, readLiteral?]
    · cases readLiteral? rest <;> rfl
    all_goals simp_all

/-- **A text that is spelled is read back**, and what stands behind the closing quote is
left as it is. -/
theorem readLiteral?_escapeLiteral (s rest : List Char) :
    readLiteral? (escapeLiteral s ++ '"' :: rest) = some (s, rest) := by
  induction s with
  | nil => rfl
  | cons c s ih =>
      rw [escapeLiteral_cons, List.append_assoc, readLiteral?_escapeLiteralChar, ih]
      rfl

/-- Texts that are spelled the same up to a closing quote are the same. -/
theorem escapeLiteral_append_inj {s t x y : List Char} :
    escapeLiteral s ++ '"' :: x = escapeLiteral t ++ '"' :: y ↔ s = t ∧ x = y := by
  constructor
  · intro h
    have hread := congrArg readLiteral? h
    rw [readLiteral?_escapeLiteral, readLiteral?_escapeLiteral] at hread
    exact Prod.mk.inj (Option.some.inj hread)
  · rintro ⟨rfl, rfl⟩
    rfl

end Chronograph
