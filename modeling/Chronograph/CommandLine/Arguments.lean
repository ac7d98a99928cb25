import Chronograph.Options.Basic

/-!
# Arguments

The words of the command line.  A command has options of its own, and two for
logging that may also stand before it; those are checked, and change nothing
that a command does.  An option may be given once; its value is the next word
or follows an equals sign, and a word that starts with a hyphen, other than the
hyphen alone, is not taken as a value.
-/

namespace Chronograph.CommandLine

/-- Why the words give no command: they are wrong, or ask for something else. -/
inductive Usage where
  | wrong | help | version
deriving DecidableEq, Repr

/-- What `generate` is told. -/
structure GenerateArgs where
  graph : String
  out : Option String := none
  noUtility : Bool := false
  unsynchronized : Bool := false
  policy : Option Policy := none
  namespacePrefix : Option String := none

/-- What `summarize` is told. -/
structure SummarizeArgs where
  history : String
  policy : Policy := .union
  json : Bool := false

/-- A command with its arguments. -/
inductive Command where
  | generate (args : GenerateArgs)
  | summarize (args : SummarizeArgs)

/-- The options that are given, on top of others. -/
def GenerateArgs.apply (args : GenerateArgs) (base : Options) : Options where
  utility := base.utility && !args.noUtility
  synchronized := base.synchronized && !args.unsynchronized
  policy := args.policy.getD base.policy
  namespacePrefix := args.namespacePrefix.getD base.namespacePrefix

/-! ## Scanning -/

/-- An option: its name, its letter, and for one with a value what values it
takes. -/
structure Flag where
  name : String
  letter : Option Char := none
  accepts : Option (String → Bool) := none

/-- The options of a command that were given, with their values. -/
abbrev Given := List (String × String)

/-- A path may not be empty. -/
def isPath (value : String) : Bool := !value.isEmpty

/-- A word that names a policy. -/
def isPolicy (value : String) : Bool := (Policy.parse value).toOption.isSome

/-- The names of the log levels. -/
def isLogLevel (value : String) : Bool :=
  ["trace", "debug", "info", "warn", "error"].contains value

/-- The options for logging, known everywhere. -/
def globalFlags : List Flag :=
  [{ name := "log-level", accepts := some isLogLevel }, { name := "log-json" }]

/-- The options of `generate`. -/
def generateFlags : List Flag :=
  [{ name := "graph", accepts := some isPath },
    { name := "out", letter := some 'o', accepts := some isPath },
    { name := "no-utility" }, { name := "unsynchronized" },
    { name := "aggregation", accepts := some isPolicy },
    { name := "namespace-prefix", accepts := some fun _ => true }] ++ globalFlags

/-- The options of `summarize`. -/
def summarizeFlags : List Flag :=
  [{ name := "history", accepts := some isPath },
    { name := "aggregation", accepts := some isPolicy }, { name := "json" }] ++ globalFlags

/-- A word as it begins: an option by name, letters, the end of all options, or
a plain word. -/
inductive Word where
  /-- Two hyphens and a name, with a value behind an equals sign if it has one. -/
  | named (name : String) (value : Option String)
  /-- One hyphen, a letter and what follows it. -/
  | lettered (letter : Char) (rest : List Char)
  | endOfOptions
  | plain (text : String)

/-- A text up to the first equals sign, and what follows that. -/
def splitAtEquals : List Char → List Char × Option (List Char)
  | [] => ([], none)
  | '=' :: rest => ([], some rest)
  | c :: rest => let (name, value) := splitAtEquals rest; (c :: name, value)

/-- How a word begins. -/
def Word.ofString (word : String) : Word :=
  match word.toList with
  | ['-', '-'] => endOfOptions
  | '-' :: '-' :: rest =>
    let (name, value) := splitAtEquals rest
    named (String.ofList name) (value.map String.ofList)
  | '-' :: letter :: rest => lettered letter rest
  | _ => plain word

/-- An option with a value, added to those that were given. -/
def addGiven (flag : Flag) (value : String) (given : Given) : Except Usage Given :=
  if given.any (·.1 == flag.name) then .error .wrong
  else if (flag.accepts.getD fun _ => true) value then .ok ((flag.name, value) :: given)
  else .error .wrong

/-- A given option and the words left: its value is the one attached to it, or
the next word. -/
def takeValue (flag : Flag) (attached : Option String) (words : List String) (given : Given) :
    Except Usage (Given × List String) :=
  match flag.accepts, attached with
  | none, none => do return (← addGiven flag "" given, words)
  | none, some _ => .error .wrong
  | some _, some value => do return (← addGiven flag value given, words)
  | some _, none =>
    match words with
    | [] => .error .wrong
    | value :: rest =>
      match Word.ofString value with
      | .plain _ => do return (← addGiven flag value given, rest)
      | _ => .error .wrong

/-- The value attached to a letter: what follows it, without an equals sign. -/
def attachedValue : List Char → Option String
  | [] => none
  | '=' :: rest => some (String.ofList rest)
  | rest => some (String.ofList rest)

/-- The options at the start of some words, and the plain word behind them with
what follows it.  Each step takes a word, so their number bounds the steps. -/
def scan (flags : List Flag) (top : Bool) :
    Nat → Given → List String → Except Usage (Given × Option (String × List String))
  | 0, given, _ => .ok (given, none)
  | _ + 1, given, [] => .ok (given, none)
  | bound + 1, given, word :: words =>
    match Word.ofString word with
    | .endOfOptions => if words.isEmpty then .ok (given, none) else .error .wrong
    | .plain text => .ok (given, some (text, words))
    | .named name attached =>
      if name == "help" && attached.isNone then .error .help
      else if top && name == "version" && attached.isNone then .error .version
      else
        match flags.find? (·.name == name) with
        | none => .error .wrong
        | some flag => do
          let (given, words) ← takeValue flag attached words given
          scan flags top bound given words
    | .lettered letter rest =>
      if letter == 'h' then .error .help
      else if top && letter == 'V' then .error .version
      else
        match flags.find? (·.letter == some letter) with
        | none => .error .wrong
        | some flag => do
          let (given, words) ← takeValue flag (attachedValue rest) words given
          scan flags top bound given words

/-- The options of a command, which takes no plain words. -/
def scanCommand (flags : List Flag) (words : List String) : Except Usage Given := do
  match ← scan flags false (words.length + 1) [] words with
  | (given, none) => return given
  | (_, some _) => .error .wrong

/-- The value that was given to an option. -/
def Given.value? (given : Given) (name : String) : Option String :=
  (given.find? (·.1 == name)).map (·.2)

/-- Whether an option was given. -/
def Given.has (given : Given) (name : String) : Bool := given.any (·.1 == name)

/-- The policy that was given. -/
def Given.policy? (given : Given) : Option Policy :=
  (given.value? "aggregation").bind fun v => (Policy.parse v).toOption

/-! ## Commands -/

/-- The command that some words ask for. -/
def Command.parse (words : List String) : Except Usage Command := do
  match ← scan globalFlags true (words.length + 1) [] words with
  | (_, some ("generate", rest)) =>
    let given ← scanCommand generateFlags rest
    match given.value? "graph" with
    | none => .error .wrong
    | some graph =>
      return .generate {
        graph, out := given.value? "out"
        noUtility := given.has "no-utility", unsynchronized := given.has "unsynchronized"
        policy := given.policy?, namespacePrefix := given.value? "namespace-prefix" }
  | (_, some ("summarize", rest)) =>
    let given ← scanCommand summarizeFlags rest
    match given.value? "history" with
    | none => .error .wrong
    | some history =>
      return .summarize { history, policy := given.policy?.getD .union, json := given.has "json" }
  | (_, some ("help", rest)) =>
    match rest with
    | [] => .error .help
    | [command] =>
      if ["generate", "summarize", "help"].contains command then .error .help else .error .wrong
    | _ => .error .wrong
  | _ => .error .wrong

end Chronograph.CommandLine
