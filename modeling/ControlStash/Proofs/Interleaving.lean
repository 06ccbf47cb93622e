import ControlStash.Proofs.Closures

/-!
# Interleavings

A run may let any context act that can, and the host may refuse any launch. `World.Reachable` has
all worlds that come about in this way, whatever the order of the actions; the worlds that
`World.run` goes through are among them (`World.Reachable.run`).

A `Discipline` says what is required of the store, of machines, of the tasks of goroutines and of
the faults and values that contexts end in. If every step of a machine keeps it, all reachable worlds do
(`Discipline.Kept.reachable`): what is shown of one step of one context holds in every context of
every interleaving.
-/

namespace ControlStash

/-- The kind of a context. -/
def Context.role : Context → Role
  | .main => .main
  | .goroutine _ => .goroutine

/-- The worlds that come about from a world when contexts that can act do so in any order and the
host refuses any launches. -/
inductive World.Reachable (setting : Setting) (start : World) : World → Prop
  | start : Reachable setting start start
  | act {w : World} (context : Context) : Reachable setting start w → w.canAct context = true →
    Reachable setting start (w.act setting context)
  | refuse {w : World} (reason : String) (context : Context) : Reachable setting start w →
    Reachable setting start (w.refuse reason context)

namespace World

variable {setting : Setting} {start w : World}

theorem canAct_of_choose? {turn turn' : Turn} (chosen : w.choose? turn = some turn') :
    w.canAct (context turn'.number) = true := by
  unfold choose? at chosen
  split at chosen
  · next acts =>
    cases chosen
    exact (Bool.and_eq_true_iff.mp acts).2
  · obtain ⟨number, found, rfl⟩ := Option.map_eq_some_iff.mp chosen
    exact List.find?_some (p := fun k => w.canAct (context k)) found

/-- The contexts taking turns is one of the orders in which they can act. -/
theorem Reachable.run (reachable : Reachable setting start w) (traced : Bool) (fuel : Nat)
    (turn : Turn) (trace : Array (Context × TraceEntry)) :
    Reachable setting start (w.run setting traced fuel turn trace).1 := by
  induction fuel generalizing w turn trace with
  | zero => exact reachable
  | succ fuel ih =>
    unfold World.run
    cases chosen : w.choose? turn with
    | none => exact reachable
    | some turn' => exact ih (.act _ reachable (canAct_of_choose? chosen)) _ _

end World

/-! ## Disciplines -/

/-- Requirements on the parts of a world. -/
structure Discipline where
  store : Store → Prop
  machine : Machine → Prop
  /-- What a goroutine may be started on. -/
  task : Task → Prop
  /-- What a context may end in. -/
  fault : Fault → Prop
  /-- What a context may end with. -/
  value : Value → Prop := fun _ => True

namespace Discipline

variable (d : Discipline)

/-- The requirement on a result. -/
def Result : Except Fault Value → Prop
  | .error e => d.fault e
  | .ok v => d.value v

/-- The requirement on the end of a step. -/
def Outcome : Outcome → Prop
  | .next m s => d.machine m ∧ d.store s.store
  | .asleep m s => d.machine m ∧ d.store s.store
  | .launch task m s => d.task task ∧ d.machine m ∧ d.store s.store
  | .stop result _ s => d.Result result ∧ d.store s.store

/-- The requirement on an activity. -/
def Activity : Activity → Prop
  | .running m => d.machine m
  | .launching _ task m => d.task task ∧ d.machine m
  | .registering _ m => d.machine m
  | .waiting _ m => d.machine m

/-- The requirement on what an activity leads to. -/
def Progress : Progress → Prop
  | .goes a => d.Activity a
  | .ends result _ => d.Result result

/-- The requirement on a goroutine. -/
def Goroutine : GoroutinePhase → Prop
  | .starting task => d.task task
  | .active a => d.Activity a
  | .ended (some e) => d.fault e
  | _ => True

/-- The requirement on the main context. -/
def Main : MainPhase → Prop
  | .active a => d.Activity a
  | .ended result _ => d.Result result
  | .closed result _ => d.Result result
  | .joining result _ _ => d.Result result
  | .finished result _ => d.Result result

/-- The requirement on what the contexts share. -/
structure Commons (c : Commons) : Prop where
  store : d.store c.shared.store
  goroutines : ∀ phase ∈ c.goroutines, d.Goroutine phase
  failures : ∀ failure ∈ c.failures, d.fault failure.2

/-- The requirement on a world. -/
structure World (w : World) : Prop where
  main : d.Main w.main
  commons : d.Commons w.commons

/-- The discipline is kept by every step, and nothing but a step can break it. -/
structure Kept (setting : Setting) : Prop where
  ordinary : ∀ e : Fault, e.isOrdinary = true → d.fault e
  start : ∀ c env, d.task (.body c env) →
    d.machine (.start [.command c, .instruction .mark] env)
  step : ∀ role m s, d.machine m → d.store s.store → d.Outcome (m.advance setting role s)

end Discipline

namespace Discipline

variable {d : Discipline} {setting : Setting} {c : ControlStash.Commons}

theorem Commons.onGroup (obeys : d.Commons c) (f : WaitGroup → WaitGroup) :
    d.Commons (c.onGroup f) :=
  ⟨obeys.store, obeys.goroutines, obeys.failures⟩

theorem Commons.setPhase (obeys : d.Commons c) (id : Nat) (phase : GoroutinePhase)
    (required : d.Goroutine phase) : d.Commons (c.setPhase id phase) := by
  refine ⟨obeys.store, fun other member => ?_, obeys.failures⟩
  rcases Array.mem_or_eq_of_mem_setIfInBounds member with old | rfl
  · exact obeys.goroutines other old
  · exact required

theorem Commons.phase? {id : Nat} {phase : GoroutinePhase} (obeys : d.Commons c)
    (found : c.phase? id = some phase) : d.Goroutine phase :=
  obeys.goroutines phase (Array.mem_of_getElem? found)

namespace Kept

variable (kept : d.Kept setting)

include kept

/-- An action of an activity keeps the discipline. -/
theorem act_activity {a : ControlStash.Activity} (role : Role) (activity : d.Activity a)
    (obeys : d.Commons c) :
    d.Progress (a.act setting role c).1 ∧ d.Commons (a.act setting role c).2 := by
  cases a with
  | running m =>
    have step := kept.step role m c.shared activity obeys.store
    unfold Activity.act
    dsimp only
    revert step
    cases m.advance setting role c.shared with
    | next m s => exact fun step => ⟨step.1, step.2, obeys.goroutines, obeys.failures⟩
    | asleep m s => exact fun step => ⟨step.1, step.2, obeys.goroutines, obeys.failures⟩
    | launch task m s =>
      intro step
      refine ⟨⟨step.1, step.2.1⟩, step.2.2, fun phase member => ?_, obeys.failures⟩
      rcases Array.mem_push.mp member with old | rfl
      · exact obeys.goroutines phase old
      · trivial
    | stop result m s => exact fun step => ⟨step.1, step.2, obeys.goroutines, obeys.failures⟩
  | launching id task m => exact ⟨activity.2, obeys.setPhase id _ activity.1⟩
  | registering id m => exact ⟨activity, obeys.store, obeys.goroutines, obeys.failures⟩
  | waiting since m =>
    unfold Activity.act
    dsimp only
    rcases c.shared.group.look role with ⟨verdict, group⟩
    have changed := obeys.onGroup fun _ => group
    cases verdict with
    | released => exact ⟨activity, changed⟩
    | asleep => exact ⟨activity, changed⟩
    | deadlocked counter => exact ⟨kept.ordinary _ rfl, changed⟩

/-- A refused launch keeps the discipline. -/
theorem refuse_activity {a : ControlStash.Activity} (reason : String) (activity : d.Activity a)
    (obeys : d.Commons c) :
    d.Progress (a.refuse reason c).1 ∧ d.Commons (a.refuse reason c).2 := by
  cases a with
  | launching id task m =>
    exact ⟨kept.ordinary _ rfl, (obeys.setPhase id .abandoned trivial).onGroup _⟩
  | running m => exact ⟨activity, obeys⟩
  | registering id m => exact ⟨activity, obeys⟩
  | waiting since m => exact ⟨activity, obeys⟩

omit kept in
theorem ofProgress_goroutine {progress : ControlStash.Progress} (required : d.Progress progress) :
    d.Goroutine (.ofProgress progress) := by
  rcases progress with a | ⟨_ | v, steps⟩
  · exact required
  · exact required
  · trivial

omit kept in
theorem ofProgress_main {progress : ControlStash.Progress} (required : d.Progress progress) :
    d.Main (.ofProgress progress) := by
  cases progress <;> exact required

/-- A goroutine on a built-in function keeps the discipline. -/
theorem ofReply {reply : Native.Reply} {id : Nat} (obeys : d.Commons c)
    (same : reply.store = c.shared.store)
    (ordinary : ∀ e s, reply = .fault e s → e.isOrdinary = true) :
    d.Commons ({ c with shared := (GoroutinePhase.ofReply reply).2 }.setPhase id
      (GoroutinePhase.ofReply reply).1) := by
  have store : d.store reply.store := by
    rw [same]
    exact obeys.store
  have changed : d.Commons { c with shared := (GoroutinePhase.ofReply reply).2 } := by
    refine ⟨?_, obeys.goroutines, obeys.failures⟩
    cases reply <;> exact store
  refine changed.setPhase id _ ?_
  cases reply with
  | fault e s => exact kept.ordinary e (ordinary e s rfl)
  | value v s => trivial
  | asleep s => trivial

/-- An action of a goroutine keeps the discipline. -/
theorem act_goroutine {phase : GoroutinePhase} (id : Nat) (goroutine : d.Goroutine phase)
    (obeys : d.Commons c) : d.Commons (phase.act setting id c) := by
  cases phase with
  | starting task =>
    cases task with
    | body command env => exact obeys.setPhase id _ (kept.start _ _ goroutine)
    | builtin b args =>
      exact kept.ofReply obeys (Native.store_invoke _ _ _ _)
        fun e s reply => Native.isOrdinary_of_invoke reply
  | active a =>
    have acted := kept.act_activity .goroutine goroutine obeys
    exact acted.2.setPhase id _ (ofProgress_goroutine acted.1)
  | waitingBuiltin since =>
    unfold GoroutinePhase.act
    dsimp only
    rcases c.shared.group.look .goroutine with ⟨verdict, group⟩
    exact kept.ofReply obeys (Native.store_ofVerdict _ _)
      fun e s reply => Native.isOrdinary_of_ofVerdict reply
  | ended failure =>
    cases failure with
    | none => exact obeys.setPhase id .recorded trivial
    | some e =>
      have grown : d.Commons { c with failures := c.failures.push (id, e) } := by
        refine ⟨obeys.store, obeys.goroutines, fun failure member => ?_⟩
        rcases Array.mem_push.mp member with old | rfl
        · exact obeys.failures failure old
        · exact goroutine
      exact grown.setPhase id .recorded trivial
  | recorded => exact (obeys.onGroup _).setPhase id .gone trivial
  | reserved => exact obeys
  | gone => exact obeys
  | abandoned => exact obeys

/-- An action of the main context keeps the discipline. -/
theorem act_main {phase : MainPhase} (main : d.Main phase) (obeys : d.Commons c) :
    d.World (phase.act setting c) := by
  cases phase with
  | active a =>
    have acted := kept.act_activity .main main obeys
    exact ⟨ofProgress_main acted.1, acted.2⟩
  | ended result steps => exact ⟨main, obeys.onGroup _⟩
  | closed result steps => exact ⟨main, obeys.onGroup _⟩
  | joining result steps taken =>
    cases taken with
    | nil =>
      unfold MainPhase.act
      dsimp only
      split
      · exact ⟨main, obeys⟩
      · exact ⟨main, obeys.store, obeys.goroutines, obeys.failures⟩
    | cons id taken => exact ⟨main, obeys⟩
  | finished result steps => exact ⟨main, obeys⟩

/-- An action of a context keeps the discipline. -/
theorem act {w : ControlStash.World} (obeys : d.World w) (context : Context) :
    d.World (w.act setting context) := by
  cases context with
  | main => exact kept.act_main obeys.main obeys.commons
  | goroutine id =>
    unfold World.act
    dsimp only
    split
    · next phase found =>
      exact ⟨obeys.main, kept.act_goroutine id (obeys.commons.phase? found) obeys.commons⟩
    · exact obeys

/-- A launch that the host refuses to a context keeps the discipline. -/
theorem refuse {w : ControlStash.World} (obeys : d.World w) (reason : String) (context : Context) :
    d.World (w.refuse reason context) := by
  unfold World.refuse
  split
  · split
    · next a active =>
      have main := obeys.main
      rw [active] at main
      have refused := kept.refuse_activity reason main obeys.commons
      exact ⟨ofProgress_main refused.1, refused.2⟩
    · exact obeys
  · split
    · next a found =>
      have refused := kept.refuse_activity reason (obeys.commons.phase? found) obeys.commons
      exact ⟨obeys.main, refused.2.setPhase _ _ (ofProgress_goroutine refused.1)⟩
    · exact obeys

/-- A discipline that every step keeps holds in all reachable worlds. -/
theorem reachable {start w : ControlStash.World} (obeys : d.World start)
    (reachable : World.Reachable setting start w) : d.World w := by
  induction reachable with
  | start => exact obeys
  | act context _ _ ih => exact kept.act ih context
  | refuse reason context _ ih => exact kept.refuse ih reason context

end Kept

variable {w : ControlStash.World}

/-- The machine of a context that is about to step it meets the requirement. -/
theorem World.machine? {context : Context} {m : Machine} (obeys : d.World w)
    (found : w.machine? context = some m) : d.machine m := by
  unfold ControlStash.World.machine? at found
  split at found
  · split at found
    · next active =>
      cases found
      have main := obeys.main
      rw [active] at main
      exact main
    · cases found
  · split at found
    · next active =>
      cases found
      exact obeys.commons.phase? active
    · cases found

/-- A run ends with a value that is allowed. -/
theorem World.value_of_result? {v : Value} {steps : Nat} (obeys : d.World w)
    (ended : w.result? = some (.ok v, steps)) : d.value v := by
  unfold ControlStash.World.result? at ended
  split at ended
  · cases ended
  · next finished =>
    split at ended
    · cases ended
    · cases ended
      have main := obeys.main
      rw [finished] at main
      exact main
  · cases ended

/-- A run ends in a fault that is allowed, or in one that a goroutine has ended in. -/
theorem World.result? {e : Fault} {steps : Nat} (obeys : d.World w)
    (ended : w.result? = some (.error e, steps)) :
    d.fault e ∨ ∃ id source, e = .goroutineFailed id source ∧ d.fault source := by
  unfold ControlStash.World.result? at ended
  split at ended
  · next finished =>
    cases ended
    have main := obeys.main
    rw [finished] at main
    exact .inl main
  · split at ended
    · next id source found =>
      cases ended
      exact .inr ⟨id, source, rfl, obeys.commons.failures _ (Array.mem_of_getElem? found)⟩
    · cases ended
  · cases ended

end Discipline

end ControlStash
