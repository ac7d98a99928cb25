import Chronograph.Json.Number

/-!
# Writing JSON

A JSON value as a tree, and its two texts: the compact one without any blanks,
and the pretty one, in which every element and every member stands on a line
of its own, two spaces deeper than the list or object around it.
-/

namespace Chronograph.Json

/-- A JSON value. -/
inductive Value where
  | boolean (b : Bool)
  | number (n : Number)
  | text (s : String)
  | list (items : List Value)
  | object (members : List (String × Value))

/-- A float as a value. -/
def Value.float (x : Float) : Value := .number (.float x)

/-- How one character is written in a string. -/
def writtenChar (c : Char) : List Char :=
  if c = '"' then ['\\', '"']
  else if c = '\\' then ['\\', '\\']
  else if c = '\n' then ['\\', 'n']
  else if c = '\r' then ['\\', 'r']
  else if c = '\t' then ['\\', 't']
  else if c.toNat = 8 then ['\\', 'b']
  else if c.toNat = 12 then ['\\', 'f']
  else if c.toNat < 16 then ['\\', 'u', '0', '0', '0'] ++ Nat.toDigits 16 c.toNat
  else if c.toNat < 32 then ['\\', 'u', '0', '0'] ++ Nat.toDigits 16 c.toNat
  else [c]

/-- A string as JSON. -/
def writtenText (s : String) : List Char := '"' :: s.toList.flatMap writtenChar ++ ['"']

/-- The name of a truth value. -/
def writtenBool (b : Bool) : List Char := if b then "true".toList else "false".toList

namespace Value

mutual

/-- The text of a value without blanks. -/
def compact : Value → List Char
  | boolean b => writtenBool b
  | number n => n.text
  | text s => writtenText s
  | list items => '[' :: compactItems items ++ [']']
  | object members => '{' :: compactMembers members ++ ['}']

/-- The texts of elements, with commas between them. -/
def compactItems : List Value → List Char
  | [] => []
  | [v] => compact v
  | v :: rest => compact v ++ ',' :: compactItems rest

/-- The texts of members, with commas between them. -/
def compactMembers : List (String × Value) → List Char
  | [] => []
  | [(key, v)] => writtenText key ++ ':' :: compact v
  | (key, v) :: rest => writtenText key ++ ':' :: compact v ++ ',' :: compactMembers rest

end

/-- A new line at a depth. -/
def lineBreak (depth : Nat) : List Char := '\n' :: List.replicate (2 * depth) ' '

mutual

/-- The text of a value with a line for every element, at a depth. -/
def pretty (depth : Nat) : Value → List Char
  | boolean b => writtenBool b
  | number n => n.text
  | text s => writtenText s
  | list [] => ['[', ']']
  | list items => '[' :: prettyItems (depth + 1) items ++ lineBreak depth ++ [']']
  | object [] => ['{', '}']
  | object members => '{' :: prettyMembers (depth + 1) members ++ lineBreak depth ++ ['}']

/-- The texts of elements, each on its own line. -/
def prettyItems (depth : Nat) : List Value → List Char
  | [] => []
  | [v] => lineBreak depth ++ pretty depth v
  | v :: rest => lineBreak depth ++ pretty depth v ++ ',' :: prettyItems depth rest

/-- The texts of members, each on its own line. -/
def prettyMembers (depth : Nat) : List (String × Value) → List Char
  | [] => []
  | [(key, v)] => lineBreak depth ++ writtenText key ++ [':', ' '] ++ pretty depth v
  | (key, v) :: rest =>
    lineBreak depth ++ writtenText key ++ [':', ' '] ++ pretty depth v
      ++ ',' :: prettyMembers depth rest

end

/-- The compact text. -/
def toCompact (v : Value) : String := String.ofList v.compact

/-- The pretty text. -/
def toPretty (v : Value) : String := String.ofList (v.pretty 0)

end Value

end Chronograph.Json
