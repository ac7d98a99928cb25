import Chronograph.Text.Printable

/-!
# Texts quoted in messages

A message shows a text between double quotes and spells what could not be seen
there: quotes and backslashes, the usual controls by their letters, and every
other character that is not printable by its code point.
-/

namespace Chronograph

/-- A hexadecimal escape of a character, in lower case and without zeros in
front. -/
def codePointEscape (c : Char) : List Char :=
  ['\\', 'u', '{'] ++ Nat.toDigits 16 c.toNat ++ ['}']

/-- How one character is shown between the quotes. -/
def quotedChar (c : Char) : List Char :=
  if c = '"' then ['\\', '"']
  else if c = '\\' then ['\\', '\\']
  else if c = '\t' then ['\\', 't']
  else if c = '\r' then ['\\', 'r']
  else if c = '\n' then ['\\', 'n']
  else if c.toNat = 0 then ['\\', '0']
  else if isPrintable c then [c]
  else codePointEscape c

/-- A text as a message quotes it. -/
def quoted (s : String) : String :=
  String.ofList ('"' :: s.toList.flatMap quotedChar ++ ['"'])

end Chronograph
