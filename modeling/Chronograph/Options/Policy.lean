import Chronograph.Json.Reader
import Chronograph.Json.Value
import Chronograph.Text.Blank

/-!
# Averaging policies

Runs need not have timed the same operators.  The policy says which operators
an average is given for, and by how many runs a total is divided.  Users may
spell a policy in several ways; JSON has one spelling for each.
-/

namespace Chronograph

/-- How runs with different operators are averaged. -/
inductive Policy where
  /-- Every operator of any run, over the runs that timed it. -/
  | union
  /-- The operators of the first run, over all runs. -/
  | firstCall
deriving DecidableEq, Repr

namespace Policy

/-- The name of a policy. -/
def name : Policy → String
  | union => "union"
  | firstCall => "first-call"

/-- A text that names no policy, trimmed and in lower case. -/
structure Unknown where
  text : String
deriving DecidableEq, Repr

/-- The message about a text that names no policy. -/
def Unknown.message (u : Unknown) : String := "unknown aggregation policy '" ++ u.text ++ "'"

/-- The policy a user names: blanks around the name and the case of ASCII
letters do not matter. -/
def parse (text : String) : Except Unknown Policy :=
  let word := asciiLower (trimmed text)
  if word = "union" then .ok union
  else if word = "first-call" ∨ word = "first_call" ∨ word = "first" then .ok firstCall
  else .error ⟨word⟩

/-- The policies by their names in JSON. -/
def variants : List (String × Policy) := [("union", union), ("first-call", firstCall)]

/-- A policy in JSON. -/
def read : Json.Reader Policy := Json.readVariant variants

/-- A policy as JSON. -/
def toJson (p : Policy) : Json.Value := .text p.name

theorem parse_name (p : Policy) : (parse p.name).toOption = some p := by
  cases p <;> decide +kernel

end Policy

end Chronograph
