import ControlStash.Fault

/-!
# The wait group

A counter that programs raise, that the end of each goroutine lowers, and that a context can wait on.
A context that waits while the counter is positive sleeps until it is signalled and then looks again.
It gives up with a deadlock when nobody is left who could lower the counter: every other context
waits as well or is gone.

A signal wakes all sleepers. Signals are counted, so a context that went to sleep when `n` had been
given is awake exactly when the count is no longer `n`.
-/

namespace ControlStash

/-- The kinds of execution contexts. -/
inductive Role where
  | main
  | goroutine
  deriving DecidableEq, Repr

/-- The state of a wait group. -/
structure WaitGroup where
  counter : Int64 := 0
  /-- The main context is waiting. -/
  mainWaiting : Bool := false
  /-- Goroutines started and not yet finished. -/
  running : Nat := 0
  /-- Goroutines that are waiting. -/
  blocked : Nat := 0
  /-- The main context is done and can no longer move the counter. -/
  closed : Bool := false
  /-- The number of signals given so far. -/
  signals : Nat := 0
  deriving DecidableEq, Repr

/-- What a waiting context finds when it looks at the counter. -/
inductive WaitGroup.Verdict where
  | released
  | deadlocked (counter : Int64)
  | asleep
  deriving DecidableEq, Repr

namespace WaitGroup

instance : Inhabited WaitGroup := ⟨{}⟩

/-- The number of contexts that can still change the counter. -/
def live (group : WaitGroup) : Nat :=
  (group.running - group.blocked) + (if !group.closed && !group.mainWaiting then 1 else 0)

/-- Wakes all sleepers. -/
def signal (group : WaitGroup) : WaitGroup :=
  { group with signals := group.signals + 1 }

/-- The sum of two integers, cut off at the ends of their range. -/
def saturatingAdd (a b : Int64) : Int64 :=
  Int64.ofInt (max Int64.minValue.toInt (min Int64.maxValue.toInt (a.toInt + b.toInt)))

/-- Adds to the counter and wakes the sleepers if it becomes zero. A sum below zero is refused and
given back. -/
def add (group : WaitGroup) (delta : Int64) : Except Int64 WaitGroup :=
  let counter := saturatingAdd group.counter delta
  if counter < 0 then .error counter
  else if counter = 0 then .ok { group with counter }.signal
  else .ok { group with counter }

/-- A context begins to wait. -/
def enter (group : WaitGroup) : Role → WaitGroup
  | .main => { group with mainWaiting := true }
  | .goroutine => { group with blocked := group.blocked + 1 }

/-- What a waiting context finds. -/
def verdict (group : WaitGroup) : Verdict :=
  if 0 < group.counter then
    if group.live = 0 then .deadlocked group.counter else .asleep
  else .released

/-- A context stops waiting, and the others look again at who is left. -/
def leave (group : WaitGroup) : Role → WaitGroup
  | .main => { group with mainWaiting := false }.signal
  | .goroutine => { group with blocked := group.blocked - 1 }.signal

/-- The main context is done. Its signal is given separately. -/
def close (group : WaitGroup) : WaitGroup :=
  { group with closed := true }

/-- A goroutine is about to start. -/
def started (group : WaitGroup) : WaitGroup :=
  { group with running := group.running + 1 }

/-- A goroutine has ended: the counter goes down by one unless it is zero. -/
def finished (group : WaitGroup) : WaitGroup :=
  { group with running := group.running - 1, counter := max (group.counter - 1) 0 }.signal

/-- A goroutine that was about to start did not. -/
def abandoned (group : WaitGroup) : WaitGroup :=
  { group with running := group.running - 1 }.signal

/-- Whether any context is waiting. -/
def isWaiting (group : WaitGroup) : Bool :=
  group.mainWaiting || 0 < group.blocked

/-- A context looks at the counter; unless it goes back to sleep it stops waiting. -/
def look (group : WaitGroup) (role : Role) : Verdict × WaitGroup :=
  match group.verdict with
  | .asleep => (.asleep, group)
  | verdict => (verdict, group.leave role)

/-- A context begins to wait and looks at the counter. -/
def wait (group : WaitGroup) (role : Role) : Verdict × WaitGroup :=
  (group.enter role).look role

end WaitGroup

end ControlStash
