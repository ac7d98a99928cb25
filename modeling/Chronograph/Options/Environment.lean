import Chronograph.Options.Basic

/-!
# Options from the environment

Four variables change the default options.  A variable that is not set, or
whose value is blank, changes nothing; neither does a policy that is not known.
A truth value is true for four words and false for every other text.
-/

namespace Chronograph

/-- The variables of an environment. -/
abbrev Environment := String → Option String

/-- The value of a variable that is set and not blank. -/
def Environment.value? (env : Environment) (name : String) : Option String :=
  (env name).filter fun v => !isBlankText v.toList

/-- Whether a text is one of the words for true. -/
def isTrueWord (text : String) : Bool :=
  ["1", "true", "yes", "on"].contains (asciiLower (trimmed text))

/-- The default options, changed by the variables of an environment. -/
def Options.ofEnvironment (env : Environment) : Options :=
  let base : Options := {}
  { utility := ((env.value? "PROFGEN_UTILITY_FUNCTIONS").map isTrueWord).getD base.utility
    synchronized := ((env.value? "PROFGEN_SYNC_HISTORY").map isTrueWord).getD base.synchronized
    policy := ((env.value? "PROFGEN_AGGREGATION").bind
      fun v => (Policy.parse v).toOption).getD base.policy
    namespacePrefix :=
      ((env.value? "PROFGEN_NAMESPACE_PREFIX").map trimmed).getD base.namespacePrefix }

end Chronograph
