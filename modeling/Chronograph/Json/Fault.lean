import Chronograph.Json.Number
import Chronograph.Text.Quoted

/-!
# Faults of JSON texts

Why a text is not read.  A text is read once from left to right, straight into
the type that is asked for, and the first fault met is the one reported: a
value of the wrong type hides bad syntax behind it.
-/

namespace Chronograph.Json

/-- A value that was met where another type was expected. -/
inductive Found where
  | null
  | boolean (b : Bool)
  | number (n : Number)
  | text (s : String)
  | list
  | object

/-- What was expected where a value stands. -/
inductive Expected where
  | text | boolean | list | object | word | float | number | null
  /-- A record of a name, as an object or as a list of its fields. -/
  | record (name : String)

/-- The first fault of a JSON text. -/
inductive Fault where
  | endInList | endInObject | endInText | endInValue
  | expectedColon | expectedListCommaOrEnd | expectedObjectCommaOrEnd
  | expectedIdent | expectedValue
  | invalidEscape | loneSurrogate | endOfEscape | controlCharacter
  | invalidNumber | numberOutOfRange
  | keyNotText | trailingComma | trailingCharacters
  | wrongType (found : Found) (expected : Expected)
  | wrongValue (found : Found) (expected : Expected)
  | unknownVariant (name : String) (known : List String)
  | duplicateField (name : String)
  | missingField (name : String)
  | wrongLength (length : Nat) (record : String) (fields : Nat)

/-- How a value of the wrong type is shown. -/
def Found.shown : Found → String
  | .null => "null"
  | .boolean b => "boolean `" ++ (if b then "true" else "false") ++ "`"
  | .number (.float x) => "floating point `" ++ String.ofList (floatText x) ++ "`"
  | .number n => "integer `" ++ String.ofList n.text ++ "`"
  | .text s => "string " ++ quoted s
  | .list => "sequence"
  | .object => "map"

/-- How an expectation is shown. -/
def Expected.shown : Expected → String
  | .text => "a string"
  | .boolean => "a boolean"
  | .list => "a sequence"
  | .object => "a map"
  | .word => "usize"
  | .float => "f64"
  | .number => "a JSON number"
  | .null => "unit"
  | .record name => "struct " ++ name

/-- The names that would have been known, for a message. -/
def alternatives : List String → String
  | [] => "no alternatives"
  | [a] => "`" ++ a ++ "`"
  | [a, b] => "`" ++ a ++ "` or `" ++ b ++ "`"
  | names => "one of " ++ ", ".intercalate (names.map fun n => "`" ++ n ++ "`")

/-- The message of a fault. -/
def Fault.message : Fault → String
  | .endInList => "EOF while parsing a list"
  | .endInObject => "EOF while parsing an object"
  | .endInText => "EOF while parsing a string"
  | .endInValue => "EOF while parsing a value"
  | .expectedColon => "expected `:`"
  | .expectedListCommaOrEnd => "expected `,` or `]`"
  | .expectedObjectCommaOrEnd => "expected `,` or `\x7d`"
  | .expectedIdent => "expected ident"
  | .expectedValue => "expected value"
  | .invalidEscape => "invalid escape"
  | .loneSurrogate => "lone leading surrogate in hex escape"
  | .endOfEscape => "unexpected end of hex escape"
  | .controlCharacter => "control character (\\u0000-\\u001F) found while parsing a string"
  | .invalidNumber => "invalid number"
  | .numberOutOfRange => "number out of range"
  | .keyNotText => "key must be a string"
  | .trailingComma => "trailing comma"
  | .trailingCharacters => "trailing characters"
  | .wrongType found expected => "invalid type: " ++ found.shown ++ ", expected " ++ expected.shown
  | .wrongValue found expected =>
    "invalid value: " ++ found.shown ++ ", expected " ++ expected.shown
  | .unknownVariant name known =>
    "unknown variant `" ++ name ++ "`, expected " ++ alternatives known
  | .duplicateField name => "duplicate field `" ++ name ++ "`"
  | .missingField name => "missing field `" ++ name ++ "`"
  | .wrongLength length record fields =>
    "invalid length " ++ length.repr ++ ", expected struct " ++ record ++ " with "
      ++ fields.repr ++ " element" ++ (if fields == 1 then "" else "s")

end Chronograph.Json
