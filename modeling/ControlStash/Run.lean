import ControlStash.World

/-!
# Running programs

A program starts with the built-in functions in its outermost frame and its own declarations, not yet
assigned, in the frame of its outermost scope. `Program.run` follows one interleaving of its contexts:
they take turns, the main context first and the goroutines in order of their numbers, and a turn ends
when the context cannot act or has acted a fixed number of times. So a context that waits for another
in a loop of its own does not keep the other from acting. The contexts of a run may start new ones for
ever, so a run is given a number of actions after which it is left unfinished.
-/

namespace ControlStash

/-- One line of a trace: the item that a step takes off the control stack, and the heights of control
stack and stash before the item does its work. -/
structure TraceEntry where
  tag : String
  control : Nat
  stash : Nat
  deriving DecidableEq, Repr

/-- The trace entry of the step that a machine is about to take, if it is about to take one. -/
def Machine.traceStep? (limits : Limits) (m : Machine) : Option TraceEntry :=
  match m.control.pop? with
  | some (item, control) =>
    if limits.steps ≤ m.steps then none else some ⟨item.tag, control.size, m.stash.size⟩
  | none => none

namespace World

/-- The machine of a context that is about to step it. -/
def machine? (w : World) : Context → Option Machine
  | .main =>
    match w.main with
    | .active (.running m) => some m
    | _ => none
  | .goroutine id =>
    match w.commons.phase? id with
    | some (.active (.running m)) => some m
    | _ => none

/-- The trace entry of the next action of a context, if it is a step. -/
def traceStep? (limits : Limits) (w : World) (context : Context) : Option TraceEntry :=
  (w.machine? context).bind (·.traceStep? limits)

/-- The contexts of a run by number: the main context is number zero. -/
def context : Nat → Context
  | 0 => .main
  | id => .goroutine id

/-- The number of the next context that can act, after number `i` and round to it again. -/
def next? (w : World) (i : Nat) : Option Nat :=
  let count := w.commons.goroutines.size + 1
  ((List.range count).map fun k => (i + 1 + k) % count).find? fun k => w.canAct (context k)

/-- The number of actions in a turn. -/
def turnLength : Nat := 512

/-- Whose turn it is, by number, and how many actions are left to it. -/
structure Turn where
  number : Nat
  left : Nat

/-- The turn to act in now, one action being taken off it. -/
def choose? (w : World) (turn : Turn) : Option Turn :=
  if 0 < turn.left && w.canAct (context turn.number) then
    some { turn with left := turn.left - 1 }
  else (w.next? turn.number).map fun number => { number, left := turnLength - 1 }

/-- Lets the contexts act in turn, at most `fuel` times, until none can. With `traced` the entries of
all steps are collected. -/
def run (setting : Setting) (traced : Bool) : (fuel : Nat) → Turn → World →
    Array (Context × TraceEntry) → World × Array (Context × TraceEntry)
  | 0, _, w, trace => (w, trace)
  | fuel + 1, turn, w, trace =>
    match w.choose? turn with
    | none => (w, trace)
    | some turn =>
      let acting := context turn.number
      let trace :=
        if traced then
          match w.traceStep? setting.limits acting with
          | some entry => trace.push (acting, entry)
          | none => trace
        else trace
      (w.act setting acting).run setting traced fuel turn trace

end World

/-- What a run shows when it is finished. -/
structure Report where
  result : Except Fault Value
  /-- The store at the end, in which the result is to be read. -/
  store : Store
  output : Array String
  /-- The number of steps of the main context. -/
  steps : Nat
  /-- The number of names declared in the outermost scope. -/
  globals : Nat
  /-- The number of goroutines started. -/
  goroutines : Nat
  /-- The calls that worked on the wait group. -/
  groupCalls : GroupCalls
  trace : Array (Context × TraceEntry)

namespace Program

/-- The environment and store in which a program starts. -/
def globals (p : Program) : Env × Store :=
  let (outer, store) := (default : Store).root Native.bindings
  store.pushFrame (.ofBindings (p.body.locals.map (·, .unassigned))) outer

/-- What the run of a program fixes for all its contexts. -/
def setting (p : Program) (limits : Limits) : Setting :=
  { limits, globals := p.globals.1 }

/-- The state in which the run of a program starts. -/
def initial (p : Program) : World :=
  let (env, store) := p.globals
  { main := .active (.running (.start [.command p.body] env))
    commons :=
      { shared := { store, output := #[], group := {} }
        goroutines := #[]
        handles := []
        failures := #[] } }

/-- What the run of a program under a call protocol fixes for all its contexts. -/
def settingUnder (p : Program) (protocol : CallProtocol) (limits : Limits) : Setting :=
  { p.setting limits with protocol }

/-- The turn that a run starts with. -/
def firstTurn : World.Turn :=
  ⟨0, World.turnLength⟩

/-- Runs a program under a call protocol; `none` if it is not finished after `fuel` actions. -/
def runUnder (p : Program) (protocol : CallProtocol) (limits : Limits) (traced : Bool)
    (fuel : Nat) : Option Report :=
  let (w, trace) :=
    p.initial.run (p.settingUnder protocol limits) traced fuel firstTurn #[]
  match w.result? with
  | none => none
  | some (result, steps) =>
    some
      { result, steps, trace
        store := w.commons.shared.store
        output := w.commons.shared.output
        globals := p.body.locals.length
        goroutines := w.commons.goroutines.size
        groupCalls := w.commons.shared.groupCalls }

/-- Runs a program; `none` if it is not finished after `fuel` actions. Programs run under the
economical protocol. -/
def run (p : Program) (limits : Limits) (traced : Bool) (fuel : Nat) : Option Report :=
  p.runUnder .economical limits traced fuel

end Program

end ControlStash
