import Chronograph.Json.Fault
import Chronograph.Text.Bytes

/-!
# Words of JSON

Blanks, literal names, strings and numbers.  Each reader takes the text from
where its word starts, and gives the word and the text behind it.

A number is read into a **significand** of 64 bits and a power of ten.  Digits
are gathered as long as the significand fits; a later digit of the integer
part only raises the power, and one of the fraction is skipped.  The float is
then the significand, rounded to a float, times or over a power of ten that is
itself rounded: it need not be the float nearest to the literal.
-/

namespace Chronograph.Json

/-- A reader of values of a type: it gives a value and the rest of the text, or
the first fault. -/
abbrev Reader (α : Type) := List Char → Except Fault (α × List Char)

/-- The white space of JSON. -/
def isSpace (c : Char) : Bool := c == ' ' || c == '\n' || c == '\t' || c == '\r'

/-- The text from the next character that is no white space. -/
def skipSpace (s : List Char) : List Char := s.dropWhile isSpace

/-- The rest of a literal name, character by character. -/
def expectIdent : List Char → List Char → Except Fault (List Char)
  | [], s => .ok s
  | _ :: _, [] => .error .endInValue
  | e :: es, c :: s => if c = e then expectIdent es s else .error .expectedIdent

/-! ## Strings -/

/-- The value of a hexadecimal digit. -/
def hexValue? (c : Char) : Option Nat :=
  if '0' ≤ c ∧ c ≤ '9' then some (c.toNat - '0'.toNat)
  else if 'a' ≤ c ∧ c ≤ 'f' then some (c.toNat - 'a'.toNat + 10)
  else if 'A' ≤ c ∧ c ≤ 'F' then some (c.toNat - 'A'.toNat + 10)
  else none

/-- The value of four hexadecimal digits. -/
def hexUnit? (a b c d : Char) : Option Nat := do
  let a ← hexValue? a
  let b ← hexValue? b
  let c ← hexValue? c
  let d ← hexValue? d
  return ((a * 16 + b) * 16 + c) * 16 + d

/-- The fault of a text in which no four hexadecimal digits follow: its end,
if it has fewer than four bytes. -/
def hexFault (s : List Char) : Fault := if byteLength s < 4 then .endInText else .invalidEscape

/-- The fault of a text that has no second escape after a leading surrogate. -/
def surrogateFault : List Char → Fault
  | [] => .endInText
  | ['\\'] => .endInText
  | '\\' :: 'u' :: s => hexFault s
  | _ => .endOfEscape

/-- The first half of a pair of surrogates. -/
def isLeadingSurrogate (n : Nat) : Bool := 0xD800 ≤ n && n ≤ 0xDBFF

/-- The second half of a pair of surrogates. -/
def isTrailingSurrogate (n : Nat) : Bool := 0xDC00 ≤ n && n ≤ 0xDFFF

/-- The code point of a pair of surrogates. -/
def surrogatePair (lead trail : Nat) : Nat := 0x10000 + (lead - 0xD800) * 0x400 + (trail - 0xDC00)

/-- The character that a one-letter escape stands for. -/
def simpleEscape? : Char → Option Char
  | '"' => some '"'
  | '\\' => some '\\'
  | '/' => some '/'
  | 'b' => some (Char.ofNat 8)
  | 'f' => some (Char.ofNat 12)
  | 'n' => some '\n'
  | 'r' => some '\r'
  | 't' => some '\t'
  | _ => none

/-- A character before the others of a result. -/
def consResult (c : Char) (r : Except Fault (List Char × List Char)) :
    Except Fault (List Char × List Char) :=
  r.map fun (s, rest) => (c :: s, rest)

/-- The content of a string, from behind its opening quote. -/
def textBody : Reader (List Char)
  | [] => .error .endInText
  | '"' :: s => .ok ([], s)
  | '\\' :: 'u' :: a :: b :: c :: d :: s =>
    match hexUnit? a b c d with
    | none => .error (hexFault (a :: b :: c :: d :: s))
    | some n =>
      if isTrailingSurrogate n then .error .loneSurrogate
      else if isLeadingSurrogate n then
        match s with
        | '\\' :: 'u' :: e :: f :: g :: h :: rest =>
          match hexUnit? e f g h with
          | none => .error (hexFault (e :: f :: g :: h :: rest))
          | some m =>
            if isTrailingSurrogate m then
              consResult (Char.ofNat (surrogatePair n m)) (textBody rest)
            else .error .loneSurrogate
        | other => .error (surrogateFault other)
      else consResult (Char.ofNat n) (textBody s)
  | '\\' :: 'u' :: s => .error (hexFault s)
  | '\\' :: c :: s =>
    match simpleEscape? c with
    | some e => consResult e (textBody s)
    | none => .error .invalidEscape
  | ['\\'] => .error .endInText
  | c :: s => if c.toNat < 0x20 then .error .controlCharacter else consResult c (textBody s)

/-! ## Numbers -/

/-- The value of a decimal digit. -/
def digitValue? (c : Char) : Option Nat :=
  if c.isDigit then some (c.toNat - '0'.toNat) else none

/-- Whether a text starts with a decimal digit. -/
def startsWithDigit : List Char → Bool
  | c :: _ => c.isDigit
  | [] => false

/-- Digits gathered behind a significand, as long as it stays below `limit`:
the significand, the number of digits taken and the rest of the text. -/
def gatherDigits (limit : Nat) : Nat → Nat → List Char → Nat × Nat × List Char
  | significand, taken, c :: s =>
    match digitValue? c with
    | some d =>
      if significand * 10 + d < limit then
        gatherDigits limit (significand * 10 + d) (taken + 1) s
      else (significand, taken, c :: s)
    | none => (significand, taken, c :: s)
  | significand, taken, [] => (significand, taken, [])

/-- Significands are of 64 bits. -/
def significandLimit : Nat := UInt64.size

/-- Written exponents are of 31 bits and a sign. -/
def exponentLimit : Nat := Nat.pow 2 31

/-- The nearest float to a power of ten. -/
def powerOfTen (k : Nat) : Float := Float.ofScientific 1 false k

/-- A float over a power of ten, in steps of at most `10 ^ 308`; the first
argument bounds the number of steps. -/
def overPowerOfTen : Nat → Float → Nat → Float
  | 0, x, _ => x
  | steps + 1, x, k =>
    if k ≤ 308 then x / powerOfTen k
    else if x == 0 then x
    else overPowerOfTen steps (x / powerOfTen 308) (k - 308)

/-- The float of a significand and a power of ten. -/
def floatOfParts (negative : Bool) (significand : Nat) (exponent : Int) : Except Fault Float := do
  let x := significand.toUInt64.toFloat
  let magnitude ← match exponent with
    | .ofNat k =>
      if k ≤ 308 then
        let y := x * powerOfTen k
        if y.isInf then .error .numberOutOfRange else .ok y
      else if x == 0 then .ok x
      else .error .numberOutOfRange
    | .negSucc k => .ok (overPowerOfTen (k + 1) x (k + 1))
  return if negative then -magnitude else magnitude

/-- The number of a significand and a power of ten, with the text behind it. -/
def floatResult (negative : Bool) (significand : Nat) (exponent : Int) (rest : List Char) :
    Except Fault (Number × List Char) := do
  let x ← floatOfParts negative significand exponent
  return (.float x, rest)

/-- The exponent part of a number, from behind its sign. -/
def unsignedExponent (negative : Bool) (significand : Nat) (start : Int) (down : Bool)
    (s : List Char) : Except Fault (Number × List Char) :=
  match s with
  | [] => .error .endInValue
  | _ :: _ =>
    if startsWithDigit s then
      let (e, _, rest) := gatherDigits exponentLimit 0 0 s
      if startsWithDigit rest then
        if significand != 0 && !down then .error .numberOutOfRange
        else .ok (.float (if negative then -0.0 else 0.0), rest.dropWhile Char.isDigit)
      else floatResult negative significand (if down then start - e else start + e) rest
    else .error .invalidNumber

/-- The exponent part of a number, from behind its `e`. -/
def exponentPart (negative : Bool) (significand : Nat) (start : Int) :
    List Char → Except Fault (Number × List Char)
  | '+' :: s => unsignedExponent negative significand start false s
  | '-' :: s => unsignedExponent negative significand start true s
  | s => unsignedExponent negative significand start false s

/-- What may follow the digits of a float: an exponent part, or nothing. -/
def afterFraction (negative : Bool) (significand : Nat) (exponent : Int) : Reader Number
  | 'e' :: s => exponentPart negative significand exponent s
  | 'E' :: s => exponentPart negative significand exponent s
  | s => floatResult negative significand exponent s

/-- The fraction of a number, from behind its point. -/
def fractionPart (negative : Bool) (significand : Nat) (start : Int) (s : List Char) :
    Except Fault (Number × List Char) :=
  let (significand, taken, rest) := gatherDigits significandLimit significand 0 s
  if startsWithDigit rest then
    afterFraction negative significand (start - taken) (rest.dropWhile Char.isDigit)
  else if taken = 0 then .error (if rest.isEmpty then .endInValue else .invalidNumber)
  else afterFraction negative significand (start - taken) rest

/-- A whole literal that fits in 64 bits.  Minus zero, and what is below the
least negative whole number, is a float. -/
def wholeNumber (negative : Bool) (n : Nat) : Number :=
  if negative then
    if n = 0 ∨ Nat.pow 2 63 < n then .float (-n.toUInt64.toFloat)
    else .negative (Int64.ofInt (-(n : Int)))
  else .natural n.toUInt64

/-- What may follow the integer part of a number: a fraction, an exponent part
or nothing. -/
def afterInteger (negative : Bool) (significand : Nat) : Reader Number
  | '.' :: s => fractionPart negative significand 0 s
  | 'e' :: s => exponentPart negative significand 0 s
  | 'E' :: s => exponentPart negative significand 0 s
  | s => .ok (wholeNumber negative significand, s)

/-- What follows an integer part of too many digits, `skipped` of which the
significand does not have. -/
def afterLongInteger (negative : Bool) (significand skipped : Nat) : Reader Number
  | '.' :: s => fractionPart negative significand skipped s
  | s => afterFraction negative significand skipped s

/-- A number, from behind its minus sign if it has one. -/
def unsignedNumber (negative : Bool) : Reader Number
  | [] => .error .endInValue
  | '0' :: s => if startsWithDigit s then .error .invalidNumber else afterInteger negative 0 s
  | s =>
    if startsWithDigit s then
      let (significand, _, rest) := gatherDigits significandLimit 0 0 s
      if startsWithDigit rest then
        afterLongInteger negative significand (rest.takeWhile Char.isDigit).length
          (rest.dropWhile Char.isDigit)
      else afterInteger negative significand rest
    else .error .invalidNumber

end Chronograph.Json
