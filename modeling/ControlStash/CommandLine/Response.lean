import ControlStash.CommandLine.Invocation
import ControlStash.CommandLine.LogFilter
import ControlStash.Run
import ControlStash.Wire.Decode

/-!
# Responses of the command line

What the command line answers to an invocation: its exit code and the text of its two output streams.
The exit code is 0 for success, 1 for wrong arguments and for programs that cannot be read, 3 for
faults of a run, and 101 for an unusable log filter.
-/

namespace ControlStash.CommandLine

/-- Why a file could not be read as text. -/
inductive ReadError where
  | notFound
  | notDirectory
  | isDirectory
  | nameTooLong
  | notText
  | other (reason : String)
  deriving DecidableEq, Repr

/-- The wording of a read error. -/
def ReadError.message : ReadError → String
  | .notFound => "No such file or directory (os error 2)"
  | .notDirectory => "Not a directory (os error 20)"
  | .isDirectory => "Is a directory (os error 21)"
  | .nameTooLong => "File name too long (os error 36)"
  | .notText => "stream did not contain valid UTF-8"
  | .other reason => reason

/-- What the command line answers. -/
inductive Response where
  | help
  | version
  | misused
  /-- The log filter is unusable. -/
  | unfiltered
  | cannotRead (path : String) (error : ReadError)
  | malformed (error : Wire.DecodeError)
  | ran (report : Report)

/-- Answers to `run` under a log filter, if there is one, given what reading the program's file came to;
`none` if the run is not finished after `fuel` actions. -/
def respondToRun (log? : Option String) (path : String) (limits : Limits)
    (content : Except ReadError ByteArray) (fuel : Nat) : Option Response :=
  if log?.any fun log => (LogFilter.parse? log).isNone then some .unfiltered
  else
    match content with
    | .error e => some (.cannotRead path e)
    | .ok bytes =>
      match String.fromUTF8? bytes with
      | none => some (.cannotRead path .notText)
      | some text =>
        match Program.ofText text with
        | .error e => some (.malformed e)
        | .ok p => (p.run limits false fuel).map .ran

/-- The text that explains the arguments. -/
def usage : String :=
  "Run Golite programs\n\n" ++
  "Usage: golite run [OPTIONS] <PROGRAM>\n\n" ++
  "Options:\n" ++
  "      --step-limit <STEP_LIMIT>                Steps each execution context may take\n" ++
  "      --max-control-depth <MAX_CONTROL_DEPTH>  Maximum control-stack entries per context\n" ++
  "  -h, --help                                   Print help\n" ++
  "  -V, --version                                Print version\n"

namespace Response

/-- The exit code of a response. -/
def exitCode : Response → Nat
  | .help => 0
  | .version => 0
  | .misused => 1
  | .unfiltered => 101
  | .cannotRead _ _ => 1
  | .malformed _ => 1
  | .ran report =>
    match report.result with
    | .ok _ => 0
    | .error _ => 3

/-- The text on standard output: the printed lines, and the value of a run that succeeded. -/
def stdout : Response → String
  | .help => usage
  | .version => "golite 0.1.0\n"
  | .misused => ""
  | .unfiltered => ""
  | .cannotRead _ _ => ""
  | .malformed _ => ""
  | .ran report =>
    let printed := report.output.foldl (fun out line => out ++ line ++ "\n") ""
    match report.result with
    | .ok v => printed ++ report.store.display v ++ "\n"
    | .error _ => printed

/-- The text on standard error. -/
def stderr : Response → String
  | .help => ""
  | .version => ""
  | .misused => usage
  | .unfiltered => "the log filter has a part that begins or ends inside a character\n"
  | .cannotRead path e => "error: cannot read '" ++ path ++ "': " ++ e.message ++ "\n"
  | .malformed .notJson => "error: malformed program: not JSON\n"
  | .malformed (.malformed c) => "error: " ++ c.programMessage ++ "\n"
  | .ran report =>
    match report.result with
    | .ok _ => ""
    | .error e => "runtime error: " ++ e.message ++ "\n"

/-- The kinds of log events of a run, each once. -/
def runEvents (report : Report) : List LogEvent :=
  [ ⟨"golite::commands", .debug, ["message", "input", "config"]⟩,
    ⟨"golite_vm::runtime", .debug, ["message", "step_limit", "max_control_depth", "globals"]⟩,
    ⟨"golite_vm::runtime", .debug, ["message", "steps", "ok"]⟩ ] ++
  (if report.steps = 0 then []
    else [⟨"golite_vm::execute", .trace, ["step", "tag", "control", "stash"]⟩]) ++
  (if report.goroutines = 0 then [] else [⟨"golite_vm::goroutine", .debug, ["message", "id"]⟩]) ++
  (if report.groupCalls.adds = 0 then []
    else [⟨"golite_vm::builtins", .debug, ["message", "delta", "counter"]⟩]) ++
  (if report.groupCalls.waits = 0 then []
    else [ ⟨"golite_vm::builtins", .debug, ["message", "counter"]⟩,
      ⟨"golite_vm::builtins", .debug, ["message"]⟩ ])

/-- The kinds of log events of a response. -/
def events : Response → List LogEvent
  | .ran report => runEvents report
  | _ => []

/-- The kinds of events that a log filter lets pass. -/
def loggedEvents (response : Response) (log : String) : List LogEvent :=
  match LogFilter.parse? log with
  | some filter => response.events.filter filter.passes
  | none => []

/-- Whether a log filter has a part that is no directive, which is reported before a run. -/
def reportsFilter (log : String) : Bool :=
  match LogFilter.parse? log with
  | some filter => filter.malformed
  | none => false

/-- Whether anything is written on standard error under a log filter. It is looked at only for a run. -/
def writesToStderr (response : Response) (log : String) : Bool :=
  match response with
  | .help => false
  | .version => false
  | .misused => true
  | response =>
    reportsFilter log || !response.stderr.isEmpty || !(response.loggedEvents log).isEmpty

end Response

end ControlStash.CommandLine
