import Chronograph.Code.Literal
import Chronograph.Proofs.Decimal.Notation

/-!
# How literals are read

What a compiler makes of the literals of the emitted code.  This is the other
half of the claim that literals are exact, and is written down independently of
how they are spelled.

* The elements of a braced list are split at a comma with a blank.
* A float literal is digits, a point, digits and the suffix of its type, and is
  rounded correctly.  A minus sign is an operator on what follows, which is why
  minus zero needs no rule of its own.
* An integer expression is a literal, its negation, or a difference in
  parentheses.  A literal has no sign, may not begin with a superfluous zero,
  which would make it octal, and is as wide as its suffix says.  `IntExpr.eval`
  has no result when any value on the way is out of range of its type.
-/

namespace Chronograph

open Float.Model (Format UnpackedFloat)

/-! ## Lists -/

/-- The elements of a list, with a comma and a blank between two of them. -/
def splitAtCommas : List Char → List (List Char)
  | [] => [[]]
  | ',' :: ' ' :: rest => [] :: splitAtCommas rest
  | c :: rest =>
    match splitAtCommas rest with
    | [] => [[c]]
    | first :: others => (c :: first) :: others

/-! ## Floats -/

/-- Digits, a point and digits at the beginning of a text, and what is left. -/
def readPointed (text : List Char) : Option (List Char × List Char × List Char) :=
  match text.dropWhile Char.isDigit with
  | '.' :: rest =>
    let whole := text.takeWhile Char.isDigit
    let fraction := rest.takeWhile Char.isDigit
    if whole = [] ∨ fraction = [] then none
    else some (whole, fraction, rest.dropWhile Char.isDigit)
  | _ => none

/-- The macro `NAN` of the header `cmath`. -/
def nanMacro : List Char := ['N', 'A', 'N']

/-- The macro `INFINITY` of the header `cmath`. -/
def infinityMacro : List Char := ['I', 'N', 'F', 'I', 'N', 'I', 'T', 'Y']

/-- A float literal without sign, or a macro. -/
def readMagnitude (format : Format) (suffix text : List Char) : Option UnpackedFloat :=
  if text = nanMacro then some .notANumber
  else if text = infinityMacro then some (.infinity .positive)
  else
    match readPointed text with
    | some (whole, fraction, rest) =>
      if rest = suffix then
        some (.ofScientific format (digitsValue (whole ++ fraction)) (-(fraction.length : Int)))
      else none
    | none => none

/-- A float literal with an optional minus sign. -/
def readFloat (format : Format) (suffix : List Char) : List Char → Option UnpackedFloat
  | '-' :: rest => (readMagnitude format suffix rest).map UnpackedFloat.neg
  | text => readMagnitude format suffix text

/-- The single-width float of a literal. -/
def readFloat32 (text : List Char) : Option Float32 :=
  (readFloat .binary32 ['f'] text).map fun u => .ofModel (.pack u)

/-- The double-width float of a literal. -/
def readFloat64 (text : List Char) : Option Float :=
  (readFloat .binary64 [] text).map fun u => .ofModel (.pack u)

/-! ## Integers -/

/-- An integer expression; literals are of type `int` or `long long`. -/
inductive IntExpr where
  | literal (n : Nat) (long : Bool)
  | negative (e : IntExpr)
  | difference (a b : IntExpr)
deriving DecidableEq, Repr

/-- The greatest value of a type. -/
def typeMax (long : Bool) : Int := if long then 2 ^ 63 - 1 else 2 ^ 31 - 1

/-- A value of a type, if it is in range. -/
def inType (long : Bool) (v : Int) : Option (Bool × Int) :=
  if -typeMax long - 1 ≤ v ∧ v ≤ typeMax long then some (long, v) else none

/-- Type and value of an expression, unless a value on the way is out of range. -/
def IntExpr.eval : IntExpr → Option (Bool × Int)
  | literal n long => inType long n
  | negative e => do
    let (long, v) ← e.eval
    inType long (-v)
  | difference a b => do
    let (long, v) ← a.eval
    let (long', w) ← b.eval
    inType (long || long') (v - w)

/-- A literal at the beginning of a text, and what is left. -/
def readIntLiteral (text : List Char) : Option (IntExpr × List Char) :=
  let digits := text.takeWhile Char.isDigit
  if digits = [] ∨ digits.head? = some '0' ∧ digits ≠ ['0'] then none
  else
    match text.dropWhile Char.isDigit with
    | 'L' :: 'L' :: rest => some (.literal (digitsValue digits) true, rest)
    | rest => some (.literal (digitsValue digits) false, rest)

/-- A literal with an optional minus sign. -/
def readSigned : List Char → Option (IntExpr × List Char)
  | '-' :: rest => (readIntLiteral rest).map fun (e, rest) => (.negative e, rest)
  | text => readIntLiteral text

/-- A whole integer expression. -/
def readInt : List Char → Option IntExpr
  | '(' :: text =>
    match readSigned text with
    | some (a, ' ' :: '-' :: ' ' :: rest) =>
      match readIntLiteral rest with
      | some (b, [')']) => some (.difference a b)
      | _ => none
    | _ => none
  | text =>
    match readSigned text with
    | some (e, []) => some e
    | _ => none

/-! ## Splitting -/

theorem splitAtCommas_of_not_mem {l : List Char} (h : ',' ∉ l) : splitAtCommas l = [l] := by
  induction l with
  | nil => rfl
  | cons c l ih =>
      have hc : c ≠ ',' := fun hc => h (hc ▸ List.mem_cons_self)
      rw [splitAtCommas, ih fun hl => h (List.mem_cons_of_mem c hl)]
      intro rest hrest
      exact absurd hrest hc

theorem splitAtCommas_append {l : List Char} (h : ',' ∉ l) (rest : List Char) :
    splitAtCommas (l ++ ',' :: ' ' :: rest) = l :: splitAtCommas rest := by
  induction l with
  | nil => rfl
  | cons c l ih =>
      have hc : c ≠ ',' := fun hc => h (hc ▸ List.mem_cons_self)
      rw [List.cons_append, splitAtCommas, ih fun hl => h (List.mem_cons_of_mem c hl)]
      intro rest hrest
      exact absurd hrest hc

/-- **Literals without commas are found again** in a list of them. -/
theorem splitAtCommas_intercalate {ls : List (List Char)} (hne : ls ≠ [])
    (h : ∀ l ∈ ls, ',' ∉ l) : splitAtCommas ([',', ' '].intercalate ls) = ls := by
  induction ls with
  | nil => exact absurd rfl hne
  | cons l ls ih =>
      have hl := h l List.mem_cons_self
      cases ls with
      | nil =>
          rw [List.intercalate_singleton]
          exact splitAtCommas_of_not_mem hl
      | cons l' ls =>
          rw [List.intercalate_cons_cons, List.append_assoc, List.cons_append, List.cons_append,
            List.nil_append, splitAtCommas_append hl,
            ih (List.cons_ne_nil _ _) fun x hx => h x (List.mem_cons_of_mem l hx)]

end Chronograph
