import Chronograph.CommandLine.Run

/-!
# The program

The command line on the files and the environment of the system.
-/

namespace Chronograph.CommandLine

/-- Whether a code of the system, in either sign, is a given one. -/
def isCode (code expected : UInt32) : Bool := code == expected || -code == expected

/-- A fault of the system as a fault of a file. -/
def FileFault.ofSystem : IO.Error → FileFault
  | .noFileOrDirectory .. => .notFound
  | .permissionDenied _ code message =>
    if isCode code 13 then .permissionDenied else .other message
  | .inappropriateType _ code _ => if isCode code 21 then .isDirectory else .notDirectory
  | .invalidArgument _ code message =>
    if isCode code 36 then .nameTooLong else .other message
  | error => .other (toString error)

/-- Access to the files of the system. -/
def systemFiles : FileAccess IO where
  read path := do
    match ← (IO.FS.readBinFile path).toBaseIO with
    | .ok bytes => return .ok bytes
    | .error error => return .error (.ofSystem error)
  write path bytes := do
    match ← (IO.FS.writeBinFile path bytes).toBaseIO with
    | .ok () => return .ok ()
    | .error error => return .error (.ofSystem error)

/-- The names of the variables that options come from. -/
def variableNames : List String :=
  ["PROFGEN_UTILITY_FUNCTIONS", "PROFGEN_SYNC_HISTORY", "PROFGEN_AGGREGATION",
    "PROFGEN_NAMESPACE_PREFIX"]

/-- The environment of the system. -/
def systemEnvironment : IO Environment := do
  let values ← variableNames.mapM fun name => do return (name, ← IO.getEnv name)
  return fun name => (values.find? (·.1 == name)).bind (·.2)

end Chronograph.CommandLine

open Chronograph.CommandLine in
/-- Runs the program. -/
def main (words : List String) : IO UInt32 := do
  let outcome ← runProgram systemFiles (← systemEnvironment) words
  IO.print outcome.stdout
  IO.eprint outcome.stderr
  return outcome.code
