import Chronograph.Json.Skip
import Chronograph.NameMap

/-!
# Reading JSON

Readers of the types that texts are read into.  A list and an object are read
element by element; a map takes any keys; a record knows the names of its
fields, passes over unknown ones, and may also be written as the list of its
fields in order; a variant is one of some names.

The loops are bounded by the length of the text, of which every element takes
at least one character.
-/

namespace Chronograph.Json

variable {α : Type}

/-- The fault of a value that is not of the expected type, at its first
character. -/
def wrongTypeAt (expected : Expected) (s : List Char) : Fault :=
  let number (r : Except Fault (Number × List Char)) : Fault := match r with
    | .ok (n, _) => .wrongType (.number n) expected
    | .error f => f
  let ident (rest : List Char) (r : List Char) (found : Found) : Fault :=
    match expectIdent rest r with
    | .ok _ => .wrongType found expected
    | .error f => f
  match s with
  | 'n' :: r => ident "ull".toList r .null
  | 't' :: r => ident "rue".toList r (.boolean true)
  | 'f' :: r => ident "alse".toList r (.boolean false)
  | '-' :: r => number (unsignedNumber true r)
  | '"' :: r =>
    match textBody r with
    | .ok (t, _) => .wrongType (.text (String.ofList t)) expected
    | .error f => f
  | '[' :: _ => .wrongType .list expected
  | '{' :: _ => .wrongType .object expected
  | _ => if startsWithDigit s then number (unsignedNumber false s) else .expectedValue

/-! ## Single values -/

/-- A string. -/
def readText : Reader String := fun s =>
  match skipSpace s with
  | [] => .error .endInValue
  | '"' :: r => do
    let (t, rest) ← textBody r
    return (String.ofList t, rest)
  | r => .error (wrongTypeAt .text r)

/-- A truth value. -/
def readBool : Reader Bool := fun s =>
  match skipSpace s with
  | [] => .error .endInValue
  | 't' :: r => do return (true, ← expectIdent "rue".toList r)
  | 'f' :: r => do return (false, ← expectIdent "alse".toList r)
  | r => .error (wrongTypeAt .boolean r)

/-- The value `null`. -/
def readNull : Reader Unit := fun s =>
  match skipSpace s with
  | [] => .error .endInValue
  | 'n' :: r => do return ((), ← expectIdent "ull".toList r)
  | r => .error (wrongTypeAt .null r)

/-- A number of any kind, where a number of some type is expected. -/
def readNumberAs (expected : Expected) : Reader Number := fun s =>
  match skipSpace s with
  | [] => .error .endInValue
  | '-' :: r => unsignedNumber true r
  | r => if startsWithDigit r then unsignedNumber false r else .error (wrongTypeAt expected r)

/-- A number, which keeps its kind. -/
def readNumber : Reader Number := readNumberAs .number

/-- A number as a float. -/
def readFloat : Reader Float := fun s => do
  let (n, rest) ← readNumberAs .float s
  return (n.toFloat, rest)

/-- A whole number of 64 bits. -/
def readWord : Reader UInt64 := fun s => do
  match ← readNumberAs .word s with
  | (.natural n, rest) => return (n, rest)
  | (.negative n, _) => .error (.wrongValue (.number (.negative n)) .word)
  | (.float x, _) => .error (.wrongType (.number (.float x)) .word)

/-! ## Lists -/

/-- Whether a list or an object goes on, and the text from there: from the next
element, or from behind the closing bracket. -/
inductive Next where
  | stop (rest : List Char)
  | go (rest : List Char)

/-- The next element of a list, or its end. -/
def nextElement (first : Bool) (s : List Char) : Except Fault Next :=
  match skipSpace s with
  | [] => .error .endInList
  | c :: r =>
    if c = ']' then .ok (.stop r)
    else if first then .ok (.go (c :: r))
    else if c = ',' then
      match skipSpace r with
      | [] => .error .endInValue
      | ']' :: _ => .error .trailingComma
      | next => .ok (.go next)
    else .error .expectedListCommaOrEnd

/-- The elements of a list, up to and with its closing bracket. -/
def listElements (item : Reader α) : Nat → Bool → Reader (List α)
  | 0, _, _ => .error .endInList
  | bound + 1, first, s => do
    match ← nextElement first s with
    | .stop rest => return ([], rest)
    | .go r =>
      let (x, r) ← item r
      let (xs, rest) ← listElements item bound false r
      return (x :: xs, rest)

/-- A list. -/
def readList (item : Reader α) : Reader (List α) := fun s =>
  match skipSpace s with
  | [] => .error .endInValue
  | '[' :: r => listElements item (r.length + 1) true r
  | r => .error (wrongTypeAt .list r)

/-! ## Objects -/

/-- The next key of an object, from its opening quote, or the object's end. -/
def nextKey (first : Bool) (s : List Char) : Except Fault Next :=
  match skipSpace s with
  | [] => .error .endInObject
  | c :: r =>
    if c = '}' then .ok (.stop r)
    else if first then
      if c = '"' then .ok (.go (c :: r)) else .error .keyNotText
    else if c = ',' then
      match skipSpace r with
      | [] => .error .endInValue
      | '"' :: k => .ok (.go ('"' :: k))
      | '}' :: _ => .error .trailingComma
      | _ => .error .keyNotText
    else .error .expectedObjectCommaOrEnd

/-- The text behind a colon. -/
def expectColon (s : List Char) : Except Fault (List Char) :=
  match skipSpace s with
  | [] => .error .endInObject
  | ':' :: r => .ok r
  | _ => .error .expectedColon

/-- The entries of a map, up to and with its closing brace, added to a map; a
later value takes the place of an earlier one. -/
def mapEntries (item : Reader α) : Nat → Bool → NameMap α → Reader (NameMap α)
  | 0, _, _, _ => .error .endInObject
  | bound + 1, first, m, s => do
    match ← nextKey first s with
    | .stop rest => return (m, rest)
    | .go r =>
      let (key, r) ← readText r
      let (value, r) ← item (← expectColon r)
      mapEntries item bound false (m.insert key value) r

/-- A map from names to values. -/
def readMap (item : Reader α) : Reader (NameMap α) := fun s =>
  match skipSpace s with
  | [] => .error .endInValue
  | '{' :: r => mapEntries item (r.length + 1) true .empty r
  | r => .error (wrongTypeAt .object r)

/-! ## Records -/

/-- A field of a record: its name, whether it must be there, and how a value
for it is read into the record. -/
structure Field (α : Type) where
  name : String
  required : Bool
  read : α → Reader α

/-- The field whose value has a reader of its own and is put into the record. -/
def Field.of {β : Type} (name : String) (required : Bool) (value : Reader β)
    (put : α → β → α) : Field α where
  name
  required
  read record s := do
    let (v, rest) ← value s
    return (put record v, rest)

/-- A type of records: its name in messages, the record in which no field has
been read, and the fields in order. -/
structure RecordFormat (α : Type) where
  name : String
  start : α
  fields : List (Field α)

namespace RecordFormat

/-- The index of the first field from `fields` on that must be there. -/
def firstRequired? : List (Field α) → Nat → Option Nat
  | [], _ => none
  | f :: rest, index => if f.required then some index else firstRequired? rest (index + 1)

/-- The fault of a record in which a field of this index is missing. -/
def missing (format : RecordFormat α) (seen : List String) : Option Fault :=
  (format.fields.find? fun f => f.required && !seen.contains f.name).map fun f =>
    .missingField f.name

/-- The fields of a record that is written as an object. -/
def objectFields (format : RecordFormat α) :
    Nat → Bool → List String → α → Reader α
  | 0, _, _, _, _ => .error .endInObject
  | bound + 1, first, seen, record, s => do
    match ← nextKey first s with
    | .stop rest =>
      match format.missing seen with
      | some fault => .error fault
      | none => return (record, rest)
    | .go r =>
      let (key, r) ← readText r
      match format.fields.find? (·.name == key) with
      | none =>
        let rest ← skipValue (← expectColon r)
        objectFields format bound false seen record rest
      | some f =>
        if seen.contains key then .error (.duplicateField key)
        else
          let (record, rest) ← f.read record (← expectColon r)
          objectFields format bound false (key :: seen) record rest

/-- The text behind a record that is written as a list and has all its fields. -/
def endOfList (s : List Char) : Except Fault (List Char) :=
  match skipSpace s with
  | [] => .error .endInList
  | ']' :: r => .ok r
  | ',' :: r =>
    match skipSpace r with
    | ']' :: _ => .error .trailingComma
    | _ => .error .trailingCharacters
  | _ => .error .trailingCharacters

/-- The fields of a record that is written as a list, from the field of an
index on. -/
def listFields (format : RecordFormat α) : List (Field α) → Nat → α → Reader α
  | [], _, record, s => do return (record, ← endOfList s)
  | f :: fields, index, record, s => do
    match ← nextElement (index == 0) s with
    | .stop rest =>
      match firstRequired? (f :: fields) index with
      | some i => .error (.wrongLength i format.name format.fields.length)
      | none => return (record, rest)
    | .go r =>
      let (record, r) ← f.read record r
      listFields format fields (index + 1) record r

/-- A record. -/
def read (format : RecordFormat α) : Reader α := fun s =>
  match skipSpace s with
  | [] => .error .endInValue
  | '{' :: r => format.objectFields (r.length + 1) true [] format.start r
  | '[' :: r => format.listFields format.fields 0 format.start r
  | r => .error (wrongTypeAt (.record format.name) r)

end RecordFormat

/-! ## Variants -/

/-- The value of a variant's name. -/
def variantOf (known : List (String × α)) (name : String) : Except Fault α :=
  match NameMap.lookup name known with
  | some value => .ok value
  | none => .error (.unknownVariant name (known.map Prod.fst))

/-- One of some names: as a string, or as an object with that name as its only
key and the value `null`. -/
def readVariant (known : List (String × α)) : Reader α := fun s =>
  match skipSpace s with
  | [] => .error .endInValue
  | '"' :: r => do
    let (name, rest) ← readText ('"' :: r)
    return (← variantOf known name, rest)
  | '{' :: r => do
    match ← nextKey true r with
    | .stop _ => .error .expectedValue
    | .go r =>
      let (name, r) ← readText r
      let value ← variantOf known name
      let (_, r) ← readNull (← expectColon r)
      match skipSpace r with
      | [] => .error .endInObject
      | '}' :: rest => return (value, rest)
      | _ => .error .expectedValue
  | _ => .error .expectedValue

/-! ## Whole texts -/

/-- The value of a text that holds nothing else. -/
def readWhole (reader : Reader α) (text : String) : Except Fault α := do
  let (value, rest) ← reader text.toList
  if (skipSpace rest).isEmpty then return value else .error .trailingCharacters

end Chronograph.Json
