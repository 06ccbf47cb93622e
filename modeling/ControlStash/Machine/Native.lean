import ControlStash.Machine.Basic

/-!
# Built-in functions

The functions that every program finds bound in its outermost frame. Their values carry a name and an
arity only; the name is resolved when they are called.
-/

namespace ControlStash

/-- The built-in functions. -/
inductive Native where
  | print
  | arrayLength
  | waitGroupAdd
  | waitGroupWait
  deriving DecidableEq, Repr

namespace Native

/-- All built-in functions. -/
def all : List Native :=
  [.print, .arrayLength, .waitGroupAdd, .waitGroupWait]

/-- The name of a built-in function. -/
def name : Native → String
  | print => "print"
  | arrayLength => "array_length"
  | waitGroupAdd => "waitGroupAdd"
  | waitGroupWait => "waitGroupWait"

/-- The number of arguments of a built-in function. -/
def arity : Native → Nat
  | print => 1
  | arrayLength => 1
  | waitGroupAdd => 1
  | waitGroupWait => 0

/-- The value that a built-in function's name is bound to. -/
def value (native : Native) : Value :=
  .builtin ⟨native.name, native.arity⟩

/-- The built-in function with a given name. -/
def ofName? (sym : String) : Option Native :=
  all.find? fun native => native.name == sym

/-- The bindings of the outermost frame. -/
def bindings : List (String × Value) :=
  all.map fun native => (native.name, native.value)

/-- What a built-in function comes to. -/
inductive Reply where
  | value (v : Value) (shared : Shared)
  | fault (e : Fault) (shared : Shared)
  /-- The caller sleeps in the wait group; the value is undefined once it is released. -/
  | asleep (shared : Shared)

/-- The reply to a context that has looked at the wait group. -/
def Reply.ofVerdict (shared : Shared) : WaitGroup.Verdict → Reply
  | .released => .value .undefined shared
  | .deadlocked counter => .fault (.deadlock counter) shared
  | .asleep => .asleep shared

/-- Begins to wait on the wait group. -/
def wait (role : Role) (s : Shared) : Reply :=
  let (verdict, group) := s.group.wait role
  let groupCalls := { s.groupCalls with waits := s.groupCalls.waits + 1 }
  .ofVerdict { s with group, groupCalls } verdict

/-- Calls a built-in function. -/
def call (role : Role) (s : Shared) : Native → List Value → Reply
  | .print, [v] =>
    let line := s.store.display v
    .value .undefined { s with output := s.output.push line }
  | .arrayLength, [.array ref] =>
    let size := (s.store.elements ref).size
    .value (.int (Int64.ofNat size)) s
  | .arrayLength, [v] => .fault (.typeError (.lengthOperand v.type)) s
  | .waitGroupAdd, [.int delta] =>
    match s.group.add delta with
    | .ok group =>
      let groupCalls := { s.groupCalls with adds := s.groupCalls.adds + 1 }
      .value .undefined { s with group, groupCalls }
    | .error counter => .fault (.waitGroupMisuse counter) s
  | .waitGroupAdd, [v] => .fault (.typeError (.groupDelta v.type)) s
  | .waitGroupWait, [] => wait role s
  | native, args => .fault (.arityMismatch native.arity args.length) s

/-- Calls the built-in function that a value names. -/
def invoke (role : Role) (s : Shared) (b : Builtin) (args : List Value) : Reply :=
  match ofName? b.name with
  | some native => native.call role s args
  | none => .fault (.unboundName b.name) s

end Native

end ControlStash
