/-!
# The tree of a code unit

What the generator emits, before it is text: items at namespace scope and
statements inside functions.  A unit is a list of items; of the namespaces at
its top level the first is the unit's own, and functions are looked up there.
-/

namespace Chronograph

/-- A statement of a function body. -/
inductive Stmt where
  /-- A line of code, indented to the depth at which it stands. -/
  | line (text : String)
  | comment (text : String)
  | blank
  /-- Code that is printed as it is, whatever the depth. -/
  | verbatim (text : String)
  /-- Statements in braces after a header; an empty header opens a bare scope. -/
  | block (header : String) (body : List Stmt)
  /-- The clock is read before the operator at this position. -/
  | timerStart (position : Nat)
  /-- The time since the clock was read is stored under the operator's name. -/
  | timerStop (position : Nat) (operator : String)

/-- A parameter of a function. -/
structure Param where
  type : String
  name : String
deriving DecidableEq

/-- A function definition. -/
structure Function where
  returns : String
  name : String
  params : List Param
  body : List Stmt

/-- A construct at namespace scope. -/
inductive Item where
  | comment (text : String)
  /-- An include directive for a header. -/
  | header (name : String)
  | blank
  /-- A namespace with the items inside it. -/
  | scope (name : String) (items : List Item)
  /-- A function declared with C linkage. -/
  | foreign (signature : String)
  | typeAlias (name target : String)
  /-- A variable; a length makes it an array of that many elements. -/
  | global (type name : String) (length : Option UInt64) (init : Option String)
  | function (f : Function)

/-- A code unit. -/
structure CodeUnit where
  items : List Item

/-- The name and the items of the first namespace among `items`. -/
def firstScope? : List Item → Option (String × List Item)
  | [] => none
  | .scope name items :: _ => some (name, items)
  | _ :: rest => firstScope? rest

/-- The first function of a name among `items`. -/
def firstFunction? (name : String) : List Item → Option Function
  | [] => none
  | .function f :: rest => if f.name = name then some f else firstFunction? name rest
  | _ :: rest => firstFunction? name rest

namespace CodeUnit

/-- The namespace of a unit: its name and items. -/
def scope? (u : CodeUnit) : Option (String × List Item) := firstScope? u.items

/-- A function of the unit's namespace. -/
def function? (u : CodeUnit) (name : String) : Option Function :=
  u.scope?.bind fun s => firstFunction? name s.2

end CodeUnit

end Chronograph
