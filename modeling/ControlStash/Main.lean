import ControlStash.CommandLine.Response

/-!
# The command line

Reads the arguments, the environment and the program's file, and writes the response.
-/

namespace ControlStash.CommandLine

/-- The number of actions that a run is given; no run takes as many in a lifetime. -/
def patience : Nat := 1000000000000000000

/-- What went wrong when a file was read. -/
def readErrorOf : IO.Error → ReadError
  | .noFileOrDirectory _ _ _ => .notFound
  | .inappropriateType _ 20 _ => .notDirectory
  | .inappropriateType _ 21 _ => .isDirectory
  | .invalidArgument _ 36 _ => .nameTooLong
  | e => .other e.toString

/-- Reads a file. -/
def readProgram (path : String) : IO (Except ReadError ByteArray) := do
  try
    return .ok (← IO.FS.readBinFile path)
  catch e =>
    return .error (readErrorOf e)

/-- The response to an invocation. -/
def respond (log? : Option String) : Invocation → IO (Option Response)
  | .help => return some .help
  | .version => return some .version
  | .misused => return some .misused
  | .run path limits => return respondToRun log? path limits (← readProgram path) patience

/-- Writes the log events that the filter in the environment lets pass. -/
def writeLog (response : Response) (log? : Option String) : IO Unit := do
  if let some log := log? then
    for event in response.loggedEvents log do
      IO.eprintln event.target

end ControlStash.CommandLine

open ControlStash.CommandLine in
/-- Runs the command line and gives its exit code. -/
def main (args : List String) : IO UInt32 := do
  let steps? ← IO.getEnv Flag.stepLimit.variableName
  let depth? ← IO.getEnv Flag.maxControlDepth.variableName
  let vars (name : String) : Option String :=
    if name = Flag.stepLimit.variableName then steps? else depth?
  let log? ← IO.getEnv "RUST_LOG"
  match ← respond log? (parse vars args) with
  | none => return 3
  | some response =>
    writeLog response log?
    IO.print response.stdout
    IO.eprint response.stderr
    return response.exitCode.toUInt32
