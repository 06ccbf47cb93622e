import ControlStash.Machine.Step

/-!
# The contexts of a run

A run has a main context and any number of goroutines, numbered from one. A `World` is the state of all
of them together, and `World.act` lets one context do its next action: a step of its machine, or one
of the smaller actions that starting, waiting and ending are made of. Each action is one that no other
context can come in between of; any sequence of actions of contexts that can act is an interleaving of
the run.

* Starting a goroutine takes three actions of the starter: it takes a number and counts the goroutine
  as running, launches it, and lists it for joining. The new goroutine can act after the second.
* Waiting takes an action for going to sleep, and one for each look at the counter after a signal.
* A goroutine that has ended first records its failure, if any, and then leaves the wait group.
* The main context that has ended first closes the wait group, then signals, then takes the listed
  goroutines and joins each of them, until none is listed.
-/

namespace ControlStash

/-- What a context that has not ended is about to do. -/
inductive Activity where
  | running (machine : Machine)
  /-- Launch goroutine `id`, which is counted as running already. -/
  | launching (id : Nat) (task : Task) (machine : Machine)
  /-- List goroutine `id` for joining. -/
  | registering (id : Nat) (machine : Machine)
  /-- Look at the wait group again, once more than `since` signals have been given. -/
  | waiting (since : Nat) (machine : Machine)

/-- Where a goroutine stands. -/
inductive GoroutinePhase where
  /-- Its number is taken, and it is not launched yet. -/
  | reserved
  | starting (task : Task)
  | active (activity : Activity)
  /-- A goroutine on the waiting built-in itself, which has no machine. -/
  | waitingBuiltin (since : Nat)
  | ended (failure : Option Fault)
  /-- Its failure is recorded, and it is still counted as running. -/
  | recorded
  | gone
  /-- The host refused to launch it. -/
  | abandoned

/-- Where the main context stands. -/
inductive MainPhase where
  | active (activity : Activity)
  | ended (result : Except Fault Value) (steps : Nat)
  /-- The wait group is closed, and its sleepers are not signalled yet. -/
  | closed (result : Except Fault Value) (steps : Nat)
  /-- The goroutines still to be joined before the list is looked at again. -/
  | joining (result : Except Fault Value) (steps : Nat) (taken : List Nat)
  | finished (result : Except Fault Value) (steps : Nat)

/-- What the actions of all contexts work on. -/
structure Commons where
  shared : Shared
  /-- Goroutine `id` is at place `id - 1`. -/
  goroutines : Array GoroutinePhase
  /-- The goroutines listed for joining. -/
  handles : List Nat
  /-- The failures of goroutines in the order in which they were recorded. -/
  failures : Array (Nat × Fault)

/-- The state of a run. -/
structure World where
  main : MainPhase
  commons : Commons

/-- A context of a run. -/
inductive Context where
  | main
  | goroutine (id : Nat)
  deriving DecidableEq, Repr

/-! ## Parts of an action -/

namespace Commons

/-- Where goroutine `id` stands. -/
def phase? (c : Commons) (id : Nat) : Option GoroutinePhase :=
  c.goroutines[id - 1]?

/-- Moves goroutine `id` on. -/
@[inline]
def setPhase (c : Commons) (id : Nat) (phase : GoroutinePhase) : Commons :=
  { c with goroutines := c.goroutines.setIfInBounds (id - 1) phase }

/-- Whether goroutine `id` has come to its end. -/
def isGone (c : Commons) (id : Nat) : Bool :=
  match c.phase? id with
  | some .gone => true
  | _ => false

/-- Unlists the goroutines that are gone. -/
def reap (c : Commons) : Commons :=
  { c with handles := c.handles.filter fun id => !c.isGone id }

/-- Changes the wait group. -/
@[inline]
def onGroup (c : Commons) (f : WaitGroup → WaitGroup) : Commons :=
  { c with shared := { c.shared with group := f c.shared.group } }

end Commons

/-- What an action of an activity leads to. -/
inductive Progress where
  | goes (activity : Activity)
  | ends (result : Except Fault Value) (steps : Nat)

namespace Activity

/-- Whether an activity can act: a sleeper needs a signal. -/
def canAct (signals : Nat) : Activity → Bool
  | .waiting since _ => since != signals
  | _ => true

/-- The next action of an activity. -/
def act (setting : Setting) (role : Role) (a : Activity) (c : Commons) : Progress × Commons :=
  match a, c with
  | .running m, ⟨shared, goroutines, handles, failures⟩ =>
    match m.advance setting role shared with
    | .next m shared => (.goes (.running m), ⟨shared, goroutines, handles, failures⟩)
    | .asleep m shared =>
      (.goes (.waiting shared.group.signals m), ⟨shared, goroutines, handles, failures⟩)
    | .launch task m shared =>
      let c := (Commons.mk shared goroutines handles failures).reap.onGroup .started
      let id := c.goroutines.size + 1
      (.goes (.launching id task m), { c with goroutines := c.goroutines.push .reserved })
    | .stop result m shared => (.ends result m.steps, ⟨shared, goroutines, handles, failures⟩)
  | .launching id task m, c => (.goes (.registering id m), c.setPhase id (.starting task))
  | .registering id m, c => (.goes (.running m), { c with handles := c.handles ++ [id] })
  | .waiting _ m, c =>
    let (verdict, group) := c.shared.group.look role
    let c := c.onGroup fun _ => group
    match verdict with
    | .released => (.goes (.running m), c)
    | .deadlocked counter => (.ends (.error (.deadlock counter)) m.steps, c)
    | .asleep => (.goes (.waiting group.signals m), c)

/-- The host refuses the launch that an activity is about to make. -/
def refuse (reason : String) (a : Activity) (c : Commons) : Progress × Commons :=
  match a with
  | .launching id _ m =>
    (.ends (.error (.spawnFailed reason)) m.steps, (c.setPhase id .abandoned).onGroup .abandoned)
  | a => (.goes a, c)

end Activity

/-! ## Actions of goroutines -/

namespace GoroutinePhase

/-- Whether a goroutine can act. -/
def canAct (signals : Nat) : GoroutinePhase → Bool
  | .starting _ => true
  | .active a => a.canAct signals
  | .waitingBuiltin since => since != signals
  | .ended _ => true
  | .recorded => true
  | .reserved => false
  | .gone => false
  | .abandoned => false

/-- Where a goroutine stands after an action of its activity. -/
def ofProgress : Progress → GoroutinePhase
  | .goes a => .active a
  | .ends (.ok _) _ => .ended none
  | .ends (.error e) _ => .ended (some e)

/-- Where a goroutine on a built-in stands after the reply to it. -/
def ofReply : Native.Reply → GoroutinePhase × Shared
  | .value _ s => (.ended none, s)
  | .fault e s => (.ended (some e), s)
  | .asleep s => (.waitingBuiltin s.group.signals, s)

/-- The next action of goroutine `id`. -/
def act (setting : Setting) (id : Nat) (phase : GoroutinePhase) (c : Commons) : Commons :=
  match phase with
  | .starting (.body command env) =>
    c.setPhase id
      (.active (.running (.start [.command command, .instruction .mark] env)))
  | .starting (.builtin b args) =>
    let (phase, shared) := ofReply (Native.invoke .goroutine c.shared b args)
    { c with shared }.setPhase id phase
  | .active a =>
    let (progress, c) := a.act setting .goroutine c
    c.setPhase id (ofProgress progress)
  | .waitingBuiltin _ =>
    let (verdict, group) := c.shared.group.look .goroutine
    let (phase, shared) := ofReply (.ofVerdict { c.shared with group } verdict)
    { c with shared }.setPhase id phase
  | .ended none => c.setPhase id .recorded
  | .ended (some e) => { c with failures := c.failures.push (id, e) }.setPhase id .recorded
  | .recorded => (c.onGroup .finished).setPhase id .gone
  | .reserved => c
  | .gone => c
  | .abandoned => c

end GoroutinePhase

/-! ## Actions of the main context -/

namespace MainPhase

/-- Whether the main context can act: joining a goroutine needs it to be gone. -/
def canAct (c : Commons) : MainPhase → Bool
  | .active a => a.canAct c.shared.group.signals
  | .ended _ _ => true
  | .closed _ _ => true
  | .joining _ _ [] => true
  | .joining _ _ (id :: _) => c.isGone id
  | .finished _ _ => false

/-- Where the main context stands after an action of its activity. -/
def ofProgress : Progress → MainPhase
  | .goes a => .active a
  | .ends result steps => .ended result steps

/-- The next action of the main context. -/
def act (setting : Setting) (phase : MainPhase) (c : Commons) : World :=
  match phase with
  | .active a =>
    let (progress, c) := a.act setting .main c
    ⟨ofProgress progress, c⟩
  | .ended result steps => ⟨.closed result steps, c.onGroup .close⟩
  | .closed result steps => ⟨.joining result steps [], c.onGroup .signal⟩
  | .joining result steps [] =>
    match c.handles with
    | [] => ⟨.finished result steps, c⟩
    | taken => ⟨.joining result steps taken, { c with handles := [] }⟩
  | .joining result steps (_ :: taken) => ⟨.joining result steps taken, c⟩
  | .finished result steps => ⟨.finished result steps, c⟩

end MainPhase

namespace World

/-- Whether a context can act. -/
def canAct (w : World) : Context → Bool
  | .main => w.main.canAct w.commons
  | .goroutine id =>
    match w.commons.phase? id with
    | some phase => phase.canAct w.commons.shared.group.signals
    | none => false

/-- The next action of a context. -/
def act (setting : Setting) (context : Context) (w : World) : World :=
  match context, w with
  | .main, ⟨main, commons⟩ => main.act setting commons
  | .goroutine id, ⟨main, commons⟩ =>
    match commons.phase? id with
    | some phase => ⟨main, phase.act setting id commons⟩
    | none => ⟨main, commons⟩

/-- The host refuses the launch that a context is about to make. -/
def refuse (reason : String) (context : Context) (w : World) : World :=
  match context with
  | .main =>
    match w.main with
    | .active a =>
      let (progress, commons) := a.refuse reason w.commons
      ⟨.ofProgress progress, commons⟩
    | _ => w
  | .goroutine id =>
    match w.commons.phase? id with
    | some (.active a) =>
      let (progress, commons) := a.refuse reason w.commons
      ⟨w.main, commons.setPhase id (.ofProgress progress)⟩
    | _ => w

/-- The result of a finished run and the number of steps of its main context. A fault of the main
context comes before failures of goroutines, and of these the first to be recorded counts. -/
def result? (w : World) : Option (Except Fault Value × Nat) :=
  match w.main with
  | .finished (.error e) steps => some (.error e, steps)
  | .finished (.ok v) steps =>
    match w.commons.failures[0]? with
    | some (id, e) => some (.error (.goroutineFailed id e), steps)
    | none => some (.ok v, steps)
  | _ => none

end World

end ControlStash
