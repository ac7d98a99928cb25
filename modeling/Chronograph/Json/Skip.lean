import Chronograph.Json.Lexeme

/-!
# Values nobody asked for

The value of an unknown key is passed over.  Its syntax still counts, but less
is asked of it: numbers may have any size, surrogates need not be paired, and
after a comma the next value or key is looked for at once, so that a comma at
the end is met as a missing value or key.  Lists and objects may be nested to
any depth; the ones still open are kept on a stack.
-/

namespace Chronograph.Json

/-- A list or an object that is still open. -/
inductive Frame where
  | list | object
deriving DecidableEq, Repr

/-- The character that closes a list or an object. -/
def Frame.closing : Frame → Char
  | .list => ']'
  | .object => '}'

/-- The fault of a text that ends inside a list or an object. -/
def Frame.endFault : Frame → Fault
  | .list => .endInList
  | .object => .endInObject

/-- The fault of a list or an object that neither goes on nor ends. -/
def Frame.commaFault : Frame → Fault
  | .list => .expectedListCommaOrEnd
  | .object => .expectedObjectCommaOrEnd

/-- The text behind a string, from behind its opening quote. -/
def skipText : List Char → Except Fault (List Char)
  | [] => .error .endInText
  | '"' :: s => .ok s
  | '\\' :: 'u' :: a :: b :: c :: d :: s =>
    if (hexUnit? a b c d).isSome then skipText s else .error .invalidEscape
  | '\\' :: 'u' :: s => .error (hexFault s)
  | '\\' :: c :: s => if (simpleEscape? c).isSome then skipText s else .error .invalidEscape
  | ['\\'] => .error .endInText
  | c :: s => if c.toNat < 0x20 then .error .controlCharacter else skipText s

/-- The text behind at least one digit. -/
def skipDigits (s : List Char) : Except Fault (List Char) :=
  if startsWithDigit s then .ok (s.dropWhile Char.isDigit) else .error .invalidNumber

/-- The text behind an exponent part, if one is there. -/
def skipExponent (s : List Char) : Except Fault (List Char) :=
  match s with
  | [] => .ok []
  | c :: r =>
    if c = 'e' ∨ c = 'E' then
      match r with
      | '+' :: r => skipDigits r
      | '-' :: r => skipDigits r
      | _ => skipDigits r
    else .ok s

/-- The text behind a number, from behind its minus sign if it has one. -/
def skipNumber (s : List Char) : Except Fault (List Char) := do
  let rest ← match s with
    | '0' :: r => if startsWithDigit r then .error .invalidNumber else .ok r
    | _ => skipDigits s
  match rest with
  | '.' :: r => do skipExponent (← skipDigits r)
  | _ => skipExponent rest

/-- The text behind a value that is neither a list nor an object. -/
def skipScalar : List Char → Except Fault (List Char)
  | 'n' :: s => expectIdent "ull".toList s
  | 't' :: s => expectIdent "rue".toList s
  | 'f' :: s => expectIdent "alse".toList s
  | '"' :: s => skipText s
  | '-' :: s => skipNumber s
  | s => if startsWithDigit s then skipNumber s else .error .expectedValue

/-- What is left to do after a value: nothing, or a value inside the frames
that are open. -/
inductive Progress where
  | done (rest : List Char)
  | more (frames : List Frame) (rest : List Char)

/-- The text from where the next value of a frame stands: in an object behind a
key and its colon. -/
def nextInFrame (frame : Frame) (s : List Char) : Except Fault (List Char) :=
  match frame with
  | .list => .ok s
  | .object =>
    match skipSpace s with
    | [] => .error .endInObject
    | '"' :: r => do
      let r ← skipText r
      match skipSpace r with
      | [] => .error .endInObject
      | ':' :: r => .ok r
      | _ => .error .expectedColon
    | _ => .error .keyNotText

/-- After a value: frames that end here are closed, up to one that goes on. -/
def closeFrames : List Frame → List Char → Except Fault Progress
  | [], s => .ok (.done s)
  | frame :: outer, s =>
    match skipSpace s with
    | [] => .error frame.endFault
    | c :: r =>
      if c = ',' then do return .more (frame :: outer) (← nextInFrame frame r)
      else if c = frame.closing then closeFrames outer r
      else .error frame.commaFault

/-- After an opening bracket or brace: the frame ends at once, or has a value. -/
def openFrame (frame : Frame) (outer : List Frame) (s : List Char) : Except Fault Progress :=
  match skipSpace s with
  | [] => .error frame.endFault
  | c :: r =>
    if c = frame.closing then closeFrames outer r
    else do return .more (frame :: outer) (← nextInFrame frame (c :: r))

/-- The text behind a value inside open frames.  Each value takes at least one
character, so the length of the text bounds their number. -/
def skipValues : Nat → List Frame → List Char → Except Fault (List Char)
  | 0, _, _ => .error .endInValue
  | bound + 1, frames, s => do
    let progress ← match skipSpace s with
      | [] => .error .endInValue
      | '[' :: r => openFrame .list frames r
      | '{' :: r => openFrame .object frames r
      | r => do closeFrames frames (← skipScalar r)
    match progress with
    | .done rest => return rest
    | .more frames rest => skipValues bound frames rest

/-- The text behind a value that is not looked at. -/
def skipValue (s : List Char) : Except Fault (List Char) := skipValues (s.length + 1) [] s

end Chronograph.Json
