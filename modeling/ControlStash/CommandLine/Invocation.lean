import ControlStash.Decimal.Notation
import ControlStash.Machine.Basic

/-!
# Invocations of the command line

`run PROGRAM` executes a program; `--step-limit` and `--max-control-depth` set the limits, each with
its value in the next argument or behind an equals sign, and `--` ends the options. A limit that is
not given as an option is taken from a variable of the environment. Arguments are read from left to
right, and the first that asks for help or is wrong decides.
-/

namespace ControlStash.CommandLine

/-- What the arguments ask for. -/
inductive Invocation where
  | help
  | version
  /-- The arguments are wrong. -/
  | misused
  | run (path : String) (limits : Limits)
  deriving DecidableEq, Repr

/-- A variable of the environment, if it is set. -/
abbrev Variables := String → Option String

/-- The options that take a value. -/
inductive Flag where
  | stepLimit
  | maxControlDepth
  deriving DecidableEq, Repr

/-- The option with a given name, without its dashes. -/
def Flag.ofName? : String → Option Flag
  | "step-limit" => some .stepLimit
  | "max-control-depth" => some .maxControlDepth
  | _ => none

/-- The variable that stands in for an option. -/
def Flag.variableName : Flag → String
  | .stepLimit => "GOLITE_STEP_LIMIT"
  | .maxControlDepth => "GOLITE_MAX_CONTROL_DEPTH"

/-- What has been given so far. -/
structure Given where
  path? : Option String := none
  steps? : Option Nat := none
  depth? : Option Nat := none

namespace Given

/-- Takes an option's value; `none` if it is no limit or the option has one already. -/
def setFlag? (g : Given) (flag : Flag) (value : String) : Option Given :=
  match Decimal.parseWord? value, flag with
  | none, _ => none
  | some n, .stepLimit => if g.steps?.isSome then none else some { g with steps? := some n }
  | some n, .maxControlDepth => if g.depth?.isSome then none else some { g with depth? := some n }

/-- Takes the program's path; `none` if it is empty or there is one already. -/
def setPath? (g : Given) (path : String) : Option Given :=
  if path.isEmpty || g.path?.isSome then none else some { g with path? := some path }

/-- A limit as given, else from its variable, else its default; `none` if the variable is wrong. -/
def limit? (vars : Variables) (flag : Flag) (given : Option Nat) (default : Nat) : Option Nat :=
  match given, vars flag.variableName with
  | some n, _ => some n
  | none, some value => Decimal.parseWord? value
  | none, none => some default

/-- The invocation once all arguments are read. -/
def finish (vars : Variables) (g : Given) : Invocation :=
  match g.path?, limit? vars .stepLimit g.steps? ({} : Limits).steps,
      limit? vars .maxControlDepth g.depth? ({} : Limits).depth with
  | some path, some steps, some depth => .run path ⟨steps, depth⟩
  | _, _, _ => .misused

end Given

/-- Reads the arguments after `--`, which are all paths. -/
def parsePaths (vars : Variables) : List String → Given → Invocation
  | [], g => g.finish vars
  | arg :: args, g =>
    match g.setPath? arg with
    | some g => parsePaths vars args g
    | none => .misused

/-- A long option taken apart: its name, and the value behind an equals sign if there is one. -/
def splitLong (cs : List Char) : String × Option String :=
  (String.ofList (cs.takeWhile (· != '=')),
    match cs.dropWhile (· != '=') with
    | [] => none
    | _ :: value => some (String.ofList value))

/-- What an argument is by its first characters. -/
inductive Shape where
  | endOfOptions
  | long (name : String) (value? : Option String)
  /-- Short options in one argument, the first of them apart. -/
  | short (letter : Char)
  | plain

/-- Tells options and plain arguments apart; a single dash is plain. -/
def shape (arg : String) : Shape :=
  match arg.toList with
  | ['-', '-'] => .endOfOptions
  | '-' :: '-' :: cs =>
    let (name, value?) := splitLong cs
    .long name value?
  | '-' :: letter :: _ => .short letter
  | _ => .plain

/-- Reads the arguments of `run`. -/
def parseRun (vars : Variables) : List String → Given → Invocation
  | [], g => g.finish vars
  | arg :: args, g =>
    match shape arg with
    | .endOfOptions => parsePaths vars args g
    | .short letter => if letter = 'h' then .help else .misused
    | .plain =>
      match g.setPath? arg with
      | some g => parseRun vars args g
      | none => .misused
    | .long "help" none => .help
    | .long name value? =>
      match Flag.ofName? name, value? with
      | none, _ => .misused
      | some flag, some value =>
        match g.setFlag? flag value with
        | some g => parseRun vars args g
        | none => .misused
      | some flag, none =>
        match args with
        | [] => .misused
        | value :: args =>
          match shape value, g.setFlag? flag value with
          | .plain, some g => parseRun vars args g
          | _, _ => .misused

/-- Reads all arguments. -/
def parse (vars : Variables) : List String → Invocation
  | [] => .misused
  | "run" :: args => parseRun vars args {}
  | ["help"] => .help
  | ["help", "run"] => .help
  | ["help", "help"] => .help
  | arg :: _ =>
    match shape arg with
    | .long "help" none => .help
    | .long "version" none => .version
    | .short 'h' => .help
    | .short 'V' => .version
    | _ => .misused

end ControlStash.CommandLine
