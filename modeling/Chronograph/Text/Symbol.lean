/-!
# Symbols of the emitted code

A graph may have any name, but a namespace needs an identifier.  `toSymbol`
keeps ASCII letters, digits and underscores, turns every other character into
an underscore, puts an underscore before a leading digit and names the empty
text `model`.
-/

namespace Chronograph

/-- The characters of an identifier: ASCII letters, digits and `_`. -/
def isSymbolChar (c : Char) : Bool := c.isAlphanum || c == '_'

/-- The identifier made from a text, one character for each of the text's own. -/
def toSymbolChars : List Char → List Char
  | [] => "model".toList
  | c :: cs =>
    let kept := (c :: cs).map fun d => if isSymbolChar d then d else '_'
    if c.isDigit then '_' :: kept else kept

/-- The identifier made from a text. -/
def toSymbol (s : String) : String := String.ofList (toSymbolChars s.toList)

end Chronograph
