import ControlStash.Machine.Item
import ControlStash.Store.Show
import ControlStash.WaitGroup

/-!
# Machines

The state of one execution context is its control stack, its stash of values, its environment and the
number of steps taken; what all contexts of a run share is the store, the printed lines and the wait
group. One step of a machine ends in an `Outcome`: mostly in the next state, but it may also put the
context to sleep in the wait group, ask for a goroutine, or end.
-/

namespace ControlStash

/-- The limits on each execution context. -/
structure Limits where
  /-- The number of steps a context may take. -/
  steps : Nat := 1000000
  /-- The number of items that may be scheduled on a control stack. -/
  depth : Nat := 65536
  deriving DecidableEq, Repr

/-- How calls and blocks look after the environment that is to be restored behind them. -/
inductive CallProtocol where
  /-- Every call and every block schedules its own restore. -/
  | plain
  /-- A restore that the next item makes needless is left out, and a call in return position reuses
  the mark of the running function. -/
  | economical
  deriving DecidableEq, Repr

/-- What a run fixes for all its contexts. -/
structure Setting where
  limits : Limits
  /-- The outermost scope of the program, which the frame of every goroutine extends. -/
  globals : Env
  protocol : CallProtocol := .economical

/-- The state of one execution context. -/
structure Machine where
  control : Stack Item
  stash : Stack Value
  env : Env
  steps : Nat

/-- How often built-in functions have worked on the wait group. -/
structure GroupCalls where
  adds : Nat := 0
  waits : Nat := 0
  deriving DecidableEq, Repr

/-- What the contexts of a run share. -/
structure Shared where
  store : Store
  output : Array String
  group : WaitGroup
  /-- The calls that worked on the wait group, for the log. -/
  groupCalls : GroupCalls := {}

/-- What a goroutine is started on. -/
inductive Task where
  | body (c : Command) (env : Env)
  | builtin (b : Builtin) (args : List Value)

/-- The end of one step of a context. -/
inductive Outcome where
  | next (machine : Machine) (shared : Shared)
  /-- The context sleeps in the wait group; `machine` is where it goes on once released. -/
  | asleep (machine : Machine) (shared : Shared)
  /-- A goroutine is to be started before the context goes on. -/
  | launch (task : Task) (machine : Machine) (shared : Shared)
  | stop (result : Except Fault Value) (machine : Machine) (shared : Shared)

namespace Machine

/-- A machine that is about to work on the given items, top first. -/
def start (items : List Item) (env : Env) : Machine :=
  { control := .ofList items, stash := .empty, env := env, steps := 0 }

/-- Puts a value on the stash. -/
@[inline]
def push (m : Machine) (v : Value) : Machine :=
  { m with stash := m.stash.push v }

/-- Ends with a fault. -/
@[inline]
def fail (m : Machine) (s : Shared) (fault : Fault) : Outcome :=
  .stop (.error fault) m s

/-- Ends because the stash holds too little. -/
@[inline]
def underflow (m : Machine) (s : Shared) : Outcome :=
  m.fail s (.stashUnderflow m.steps)

/-- Puts items on the control stack, top first, and goes on in `env`, if the limit allows. -/
@[inline]
def schedule (limits : Limits) (items : List Item) (env : Env) (m : Machine) (s : Shared) :
    Outcome :=
  if items.length + m.control.size ≤ limits.depth then
    .next { m with control := m.control.pushAll items, env := env } s
  else m.fail s (.controlStackOverflow limits.depth)

/-- The result of a machine whose control stack is empty. -/
def finish (m : Machine) : Except Fault Value :=
  match m.stash.toList with
  | [v] => .ok v
  | _ => .error (.invariantViolation m.stash.size)

end Machine

end ControlStash
