/-!
# String literals of the emitted code

An operator's name is the key under which the emitted code stores its time, so
it is written between double quotes.  `escapeLiteral` spells the characters
that would end the literal, start an escape or break the line; every other
character stands for itself.
-/

namespace Chronograph

/-- How one character is spelled inside a double-quoted literal. -/
def escapeLiteralChar (c : Char) : List Char :=
  if c = '\\' then ['\\', '\\']
  else if c = '"' then ['\\', '"']
  else if c = '\n' then ['\\', 'n']
  else if c = '\r' then ['\\', 'r']
  else if c = '\t' then ['\\', 't']
  else [c]

/-- A text spelled inside a double-quoted literal, without the quotes. -/
def escapeLiteral (s : List Char) : List Char := s.flatMap escapeLiteralChar

@[simp] theorem escapeLiteral_nil : escapeLiteral [] = [] := rfl

@[simp] theorem escapeLiteral_cons (c : Char) (s : List Char) :
    escapeLiteral (c :: s) = escapeLiteralChar c ++ escapeLiteral s := rfl

end Chronograph
