import Chronograph.CommandLine.Arguments
import Chronograph.CommandLine.Files
import Chronograph.Graph.Conversion
import Chronograph.Module.Assembly
import Chronograph.Options.Environment
import Chronograph.Timing.History
import Chronograph.Timing.Table

/-!
# Running commands

What a command does, given access to files and an environment: `generate` reads
a description and writes the module, `summarize` reads a history and prints its
summary.  A command that fails says what it was about and what the cause was.
-/

namespace Chronograph.CommandLine

/-- What a command failed at, and why. -/
structure Report where
  context : String
  cause : String

/-- A text with four spaces in front of every line. -/
def indented (s : List Char) : List Char :=
  (' ' :: ' ' :: ' ' :: ' ' :: s).flatMap fun c => if c = '\n' then "\n    ".toList else [c]

/-- The text of a report. -/
def Report.text (r : Report) : String :=
  "Error: " ++ r.context ++ "\n\nCaused by:\n" ++ String.ofList (indented r.cause.toList) ++ "\n"

/-- What the caller of a program sees of it. -/
structure Outcome where
  code : UInt32
  stdout : String := ""
  stderr : String := ""

/-- The outcome of a command: what it prints, or its report. -/
def Outcome.ofResult : Except Report String → Outcome
  | .ok text => { code := 0, stdout := text }
  | .error report => { code := 1, stderr := report.text }

variable {m : Type → Type} [Monad m]

/-- The message of a fault of a generation. -/
def generationMessage : GenerationFault → String
  | .graph fault => fault.message
  | .layout fault => "a margin of " ++ fault.margin.repr ++ " ends inside a character"

/-- The module for the description in a file, and the fault that prevents it. -/
def moduleText (env : Environment) (args : GenerateArgs) (description : String) :
    Except Report String :=
  match Graph.ofJson description with
  | .error fault => .error ⟨"invalid graph description " ++ args.graph, fault.message⟩
  | .ok graph =>
    match (generate graph (args.apply (Options.ofEnvironment env))).outcome with
    | .error fault =>
      .error ⟨"failed to generate code for " ++ args.graph, generationMessage fault⟩
    | .ok text => .ok text

/-- Runs `generate`: what it prints, or its report. -/
def runGenerate (files : FileAccess m) (env : Environment) (args : GenerateArgs) :
    m (Except Report String) := do
  match ← files.readText args.graph with
  | .error fault =>
    return .error ⟨"failed to read graph description " ++ args.graph, fault.message⟩
  | .ok description =>
    match moduleText env args description with
    | .error report => return .error report
    | .ok text =>
      match args.out with
      | none => return .ok text
      | some path =>
        match ← files.write path text.toUTF8 with
        | .error fault => return .error ⟨"failed to write " ++ path, fault.message⟩
        | .ok () => return .ok ""

/-- The summary of the history in a text, as a table or as JSON. -/
def summaryText (args : SummarizeArgs) (text : String) : Except Report String :=
  match History.ofJson text args.policy with
  | .error fault => .error ⟨"invalid call history " ++ args.history, fault.message⟩
  | .ok history =>
    let rows := summaryRows history.average
    .ok (if args.json then rowsJson rows ++ "\n" else table rows history.length)

/-- Runs `summarize`: what it prints, or its report. -/
def runSummarize (files : FileAccess m) (args : SummarizeArgs) : m (Except Report String) := do
  match ← files.readText args.history with
  | .error fault =>
    return .error ⟨"failed to read call history " ++ args.history, fault.message⟩
  | .ok text => return summaryText args text

/-- Runs a command. -/
def Command.run (files : FileAccess m) (env : Environment) : Command → m (Except Report String)
  | .generate args => runGenerate files env args
  | .summarize args => runSummarize files args

/-- How the program is used. -/
def usageText : String :=
  "Usage: profgen [--log-level LEVEL] [--log-json] COMMAND\n\n"
    ++ "Commands:\n"
    ++ "  generate   --graph FILE [-o FILE] [--no-utility] [--unsynchronized]\n"
    ++ "             [--aggregation POLICY] [--namespace-prefix PREFIX]\n"
    ++ "  summarize  --history FILE [--aggregation POLICY] [--json]\n"

/-- The version of the program. -/
def versionText : String := "profgen 0.1.0\n"

/-- Runs the program on its words. -/
def runProgram (files : FileAccess m) (env : Environment) (words : List String) : m Outcome := do
  match Command.parse words with
  | .ok command => return .ofResult (← command.run files env)
  | .error .help => return { code := 0, stdout := usageText }
  | .error .version => return { code := 0, stdout := versionText }
  | .error .wrong => return { code := 2, stderr := usageText }

end Chronograph.CommandLine
