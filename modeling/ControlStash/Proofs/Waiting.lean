import ControlStash.Proofs.Roster

/-!
# Waiting on the group

What the books of the wait group are good for. A context is told of a deadlock only when nobody else
could lower the counter (`wait_group_exact`), and a context that sleeps has something to sleep for and
somebody who can wake it, so that contexts never all sleep (`sleepers_are_woken`).
-/

namespace ControlStash

open WaitGroup (Deed Does)

/-! ## Deadlocks -/

namespace Roster.Books

variable {r : Roster} {deed : Deed} {new : Stance} {group : WaitGroup} {counter : Int64}

/-- A look that finds a deadlock finds the counter positive and nobody left to change it. -/
theorem alone_of_looks {role : Role} {r : Roster} (books : r.Books)
    (looks : WaitGroup.Looks role r.group (.deadlocked counter) group) :
    r.group.counter = counter ∧ 0 < counter ∧
      ∀ stance ∈ r.main :: r.goroutines, stance ≠ .busy := by
  cases looks with
  | deadlocked positive alone =>
    exact ⟨rfl, positive, fun stance member => books.not_busy_of_live alone member⟩

/-- The main context finds a deadlock only if no goroutine is busy. -/
theorem alone_main (books : r.Books) (does : Does .main r.main r.group deed new group)
    (found : deed.found? = some (.deadlocked counter)) :
    r.group.counter = counter ∧ 0 < counter ∧ ∀ stance ∈ r.goroutines, stance ≠ .busy := by
  generalize before : r.main = old at does
  cases does with
  | wait waited =>
    cases found
    obtain ⟨same, positive, others⟩ :=
      (books.enterMain before).alone_of_looks (WaitGroup.looks_of_look waited)
    exact ⟨same, positive, fun stance member => others stance (List.mem_cons_of_mem _ member)⟩
  | look looked =>
    cases found
    obtain ⟨same, positive, others⟩ := books.alone_of_looks (WaitGroup.looks_of_look looked)
    exact ⟨same, positive, fun stance member => others stance (List.mem_cons_of_mem _ member)⟩
  | _ => cases found

/-- A goroutine finds a deadlock only if no other context is busy. -/
theorem alone_goroutine (books : r.Books) {place : Nat} {old : Stance}
    (here : r.goroutines[place]? = some old) (does : Does .goroutine old r.group deed new group)
    (found : deed.found? = some (.deadlocked counter)) :
    r.group.counter = counter ∧ 0 < counter ∧ r.main ≠ .busy ∧
      ∀ other stance, other ≠ place → r.goroutines[other]? = some stance → stance ≠ .busy := by
  cases does with
  | wait waited =>
    cases found
    obtain ⟨same, positive, others⟩ :=
      (books.enterGoroutine here).alone_of_looks (WaitGroup.looks_of_look waited)
    refine ⟨same, positive, others _ List.mem_cons_self, fun other stance apart there => ?_⟩
    have kept : (r.goroutines.set place (.waiting r.group.signals))[other]? = some stance := by
      rw [List.getElem?_set_ne (Ne.symm apart), there]
    exact others stance (List.mem_cons_of_mem _ (List.mem_of_getElem? kept))
  | look looked =>
    cases found
    obtain ⟨same, positive, others⟩ := books.alone_of_looks (WaitGroup.looks_of_look looked)
    refine ⟨same, positive, others _ List.mem_cons_self, fun other stance _ there => ?_⟩
    exact others stance (List.mem_cons_of_mem _ (List.mem_of_getElem? there))
  | _ => cases found

end Roster.Books

/-- Only a goroutine that is busy finishes. -/
theorem WaitGroup.Does.of_finish {role : Role} {old new : Stance} {group group' : WaitGroup}
    (does : Does role old group .finish new group') :
    role = .goroutine ∧ old = .busy ∧ new = .gone := by
  cases does with
  | finish goroutine => exact ⟨goroutine, rfl, rfl⟩

namespace World

variable {setting : Setting} {w : World} {context : Context} {counter : Int64}

theorem mem_goroutines {id : Nat} :
    .goroutine id ∈ w.goroutines ↔ ∃ place, id = place + 1 ∧ place < w.commons.goroutines.size := by
  simp only [goroutines, List.mem_map, List.mem_range, Context.goroutine.injEq]
  constructor
  · rintro ⟨place, bound, rfl⟩
    exact ⟨place, rfl, bound⟩
  · rintro ⟨place, rfl, bound⟩
    exact ⟨place, bound, rfl⟩

theorem eq_main_or_goroutine (member : context ∈ w.contexts) :
    context = .main ∨ ∃ place phase, context = .goroutine (place + 1) ∧
      w.commons.goroutines[place]? = some phase := by
  rcases List.mem_cons.mp member with main | goroutine
  · exact .inl main
  · obtain ⟨place, bound, rfl⟩ := List.mem_map.mp goroutine
    exact .inr ⟨place, _, rfl, Array.getElem?_eq_getElem (List.mem_range.mp bound)⟩

/-- Goroutines are numbered from one. -/
theorem pos_of_mem_contexts {id : Nat} (member : .goroutine id ∈ w.contexts) : 0 < id := by
  rcases eq_main_or_goroutine member with main | ⟨place, phase, same, -⟩
  · cases main
  · cases same
    exact Nat.succ_pos place

theorem stance_goroutine {place : Nat} {phase : GoroutinePhase}
    (there : w.commons.goroutines[place]? = some phase) :
    w.stance (.goroutine (place + 1)) = phase.stance := by
  have found : w.commons.phase? (place + 1) = some phase := there
  simp only [stance, found]

/-- Where a goroutine is after its action. -/
theorem phase?_act_goroutine (setting : Setting) {id : Nat} {phase : GoroutinePhase}
    (errands : w.Errands) (found : w.commons.phase? id = some phase) :
    (w.act setting (.goroutine id)).commons.phase? id =
      some (phase.after setting id w.commons).1 := by
  have here := phase.phase?_after setting errands (errand?_goroutine found) found
  obtain ⟨bound, -⟩ := Array.getElem?_eq_some_iff.mp here
  rw [act_goroutine found]
  exact Array.getElem?_setIfInBounds_self_of_lt bound

theorem not_busy_iff {stance : Stance} :
    stance ≠ .busy ↔ stance.isWaiting = true ∨ stance.hasLeft = true := by
  cases stance <;> simp [Stance.isWaiting, Stance.hasLeft]

/-- A context that ends in a deadlock has found the counter positive, and every other context waiting
or gone. -/
theorem Accounted.alone (accounted : w.Accounted) (member : context ∈ w.contexts)
    (ended : (w.act setting context).fault? context = some (.deadlock counter)) :
    w.commons.shared.group.counter = counter ∧ 0 < counter ∧
      ∀ other ∈ w.contexts, other ≠ context → w.stance other ≠ .busy := by
  obtain ⟨main, c⟩ := w
  rcases eq_main_or_goroutine member with rfl | ⟨place, phase, rfl, there⟩
  · obtain ⟨same, positive, others⟩ := accounted.books.alone_main (main.does_act setting c)
      ((main.deadlock_act setting c counter).mp ended)
    refine ⟨same, positive, fun other listed apart => ?_⟩
    rcases eq_main_or_goroutine listed with rfl | ⟨place, phase, rfl, there⟩
    · exact absurd rfl apart
    · rw [stance_goroutine there]
      exact others _ (List.mem_of_getElem? (Commons.getElem?_stances_of there))
  · have found : c.phase? (place + 1) = some phase := there
    have here : c.stances[place]? = some phase.stance := Commons.getElem?_stances_of there
    have deadlocked : (phase.deed setting c.shared).found? = some (.deadlocked counter) := by
      have after : (phase.after setting (place + 1) c).1.fault? = some (.deadlock counter) := by
        have acted := phase?_act_goroutine setting accounted.errands found
        rw [fault?, acted] at ended
        exact ended
      refine (phase.deadlock_after setting (place + 1) c ?_ counter).mp after
      -- A goroutine that has ended already is recorded, and does not end again.
      cases phase with
      | ended failure => cases failure <;> cases after
      | _ => rfl
    obtain ⟨same, positive, mainBusy, others⟩ := accounted.books.alone_goroutine here
      (phase.does_after setting (place + 1) c) deadlocked
    refine ⟨same, positive, fun other listed apart => ?_⟩
    rcases eq_main_or_goroutine listed with rfl | ⟨place', phase', rfl, there'⟩
    · exact mainBusy
    · rw [stance_goroutine there']
      exact others place' _ (fun same => apart (by rw [same])) (Commons.getElem?_stances_of there')

/-- The numbers of the wait group are those of the contexts of a world, and nothing is ever taken off
a number that is zero already. -/
structure Tallied (setting : Setting) (w : World) : Prop where
  /-- Goroutines count from the taking of their numbers until they finish or are given up. -/
  running : w.commons.shared.group.running = w.goroutines.countP (w.stance · ≠ .gone)
  blocked : w.commons.shared.group.blocked =
    w.goroutines.countP fun context => (w.stance context).isWaiting
  mainWaiting : w.commons.shared.group.mainWaiting = true ↔ (w.stance .main).isWaiting = true
  blocked_le_running : w.commons.shared.group.blocked ≤ w.commons.shared.group.running
  blocked_pos : ∀ context ∈ w.goroutines, (w.stance context).isWaiting = true →
    0 < w.commons.shared.group.blocked
  running_pos : ∀ context ∈ w.goroutines, w.deed setting context = .finish →
    0 < w.commons.shared.group.running
  /-- A launch that the host may still refuse is that of a goroutine which counts. -/
  running_pos_of_launch : ∀ k id, w.errand? k = some (.launch id) →
    0 < w.commons.shared.group.running
  nonneg : 0 ≤ w.commons.shared.group.counter
  live : w.commons.shared.group.live =
    w.contexts.countP fun context => !(w.stance context).isWaiting && !(w.stance context).hasLeft

theorem stance_of_finish {context : Context} (finishes : w.deed setting context = .finish) :
    w.stance context = .busy := by
  obtain ⟨main, c⟩ := w
  cases context with
  | main =>
    have does := main.does_act setting c
    rw [show main.deed setting c.shared = .finish from finishes] at does
    cases does.of_finish.1
  | goroutine id =>
    rcases found : c.phase? id with _ | phase
    · simp only [deed, found] at finishes
      cases finishes
    · rw [deed_goroutine found] at finishes
      have does := phase.does_after setting id c
      rw [finishes] at does
      simp only [stance, found]
      exact does.of_finish.2.1

theorem Accounted.tallied (accounted : w.Accounted) (setting : Setting) : w.Tallied setting := by
  have books := accounted.books
  have running : w.commons.shared.group.running = w.goroutines.countP (w.stance · ≠ .gone) := by
    have counted := books.running
    rw [← map_stance_goroutines, List.countP_map] at counted
    exact counted
  have blocked : w.commons.shared.group.blocked =
      w.goroutines.countP fun context => (w.stance context).isWaiting := by
    have counted := books.blocked
    rw [← map_stance_goroutines, List.countP_map] at counted
    exact counted
  refine ⟨running, blocked, ?_, books.blocked_le_running, fun context member waits => ?_,
    fun context member finishes => ?_, fun k id launch => ?_, books.nonneg, ?_⟩
  · exact Bool.eq_iff_iff.mp books.mainWaiting
  · rw [blocked]
    exact List.countP_pos_iff.mpr ⟨context, member, waits⟩
  · rw [running]
    refine List.countP_pos_iff.mpr ⟨context, member, ?_⟩
    simp [stance_of_finish finishes]
  · obtain ⟨place, -, -, waits⟩ := accounted.errands.reserved k id launch
    have here : w.roster.goroutines[place]? = some .busy := Commons.getElem?_stances_of waits
    exact books.running_pos here (by simp)
  · have counted := books.live_eq
    rw [← map_stance_contexts, List.countP_map] at counted
    refine counted.trans (List.countP_congr fun context _ => ?_)
    rw [Function.comp_apply]
    cases w.stance context <;> simp [Stance.isWaiting, Stance.hasLeft]

end World

/-- The numbers of the wait group are exact in every reachable world, and deadlocks are real: a
context ends in one only if the counter is positive and every other context waits or is gone. -/
theorem wait_group_exact (program : Program) (limits : Limits) {w : World}
    (reachable : World.Reachable (program.setting limits) program.initial w) :
    w.Tallied (program.setting limits) ∧
    ∀ context ∈ w.contexts, ∀ counter,
      (w.act (program.setting limits) context).fault? context = some (.deadlock counter) →
        w.commons.shared.group.counter = counter ∧ 0 < counter ∧
          ∀ other ∈ w.contexts, other ≠ context →
            (w.stance other).isWaiting = true ∨ (w.stance other).hasLeft = true := by
  have accounted := World.Accounted.reachable reachable
  refine ⟨accounted.tallied _, fun context member counter ended => ?_⟩
  obtain ⟨same, positive, others⟩ := accounted.alone member ended
  exact ⟨same, positive, fun other listed apart => World.not_busy_iff.mp (others other listed apart)⟩

/-- The main context and a goroutine wait for each other. -/
def gridlock : Program :=
  ⟨.seq [.callNamed "waitGroupAdd" [.lit (.int 1)], .goNamed "waitGroupWait" [],
    .callNamed "waitGroupWait" []]⟩

/-- The main context sleeps, and the goroutine is about to wait as well. -/
def gridlocked : World :=
  (gridlock.initial.run (gridlock.setting {}) false 15 ⟨0, World.turnLength⟩ #[]).1

theorem wait_group_exact_gridlocked :
    gridlocked.Tallied (gridlock.setting {}) ∧
    (gridlocked.act (gridlock.setting {}) (.goroutine 1)).fault? (.goroutine 1) =
      some (.deadlock 1) ∧
    gridlocked.commons.shared.group.counter = 1 ∧
    ((gridlocked.stance .main).isWaiting = true ∨ (gridlocked.stance .main).hasLeft = true) := by
  have reachable : World.Reachable (gridlock.setting {}) gridlock.initial gridlocked :=
    World.Reachable.run .start false 15 ⟨0, World.turnLength⟩ #[]
  have ended : (gridlocked.act (gridlock.setting {}) (.goroutine 1)).fault? (.goroutine 1) =
      some (.deadlock 1) := rfl
  have goroutine : .goroutine 1 ∈ gridlocked.contexts := by decide +kernel
  obtain ⟨tallied, sound⟩ := wait_group_exact gridlock {} reachable
  obtain ⟨same, -, others⟩ := sound (.goroutine 1) goroutine 1 ended
  exact ⟨tallied, ended, same, others .main List.mem_cons_self nofun⟩

/-! ## Sleepers -/

namespace World

variable {setting : Setting} {w : World} {context : Context}

/-- A context waits, and no signal has been given since it last looked. -/
def Asleep (w : World) (context : Context) : Prop :=
  (w.stance context).isWaiting = true ∧ w.canAct context = false

theorem asleep_iff : w.Asleep context ↔ w.stance context = .waiting w.commons.shared.group.signals := by
  have activity : ∀ (signals : Nat) (a : Activity),
      a.stance.isWaiting = true ∧ a.canAct signals = false ↔ a.stance = .waiting signals := by
    intro signals a
    cases a <;> simp [Activity.stance, Activity.canAct, Stance.isWaiting]
  unfold Asleep
  cases context with
  | main =>
    obtain ⟨main, c⟩ := w
    cases main with
    | active a => exact activity _ a
    | _ => simp [stance, MainPhase.stance, Stance.isWaiting]
  | goroutine id =>
    unfold stance canAct
    dsimp only
    cases w.commons.phase? id with
    | none => simp [Stance.isWaiting]
    | some phase =>
      cases phase with
      | active a => exact activity _ a
      | _ => simp [GoroutinePhase.stance, GoroutinePhase.canAct, Stance.isWaiting]

/-- A sleeper has something to sleep for and somebody who can wake it. -/
theorem Accounted.reason (accounted : w.Accounted) (member : context ∈ w.contexts)
    (asleep : w.Asleep context) :
    0 < w.commons.shared.group.counter ∧
      (0 < w.commons.shared.group.live ∨ w.stance .main = .closing) := by
  refine accounted.alert ?_
  rw [← map_stance_contexts]
  exact List.mem_map.mpr ⟨context, member, asleep_iff.mp asleep⟩

/-- A context with a launch to make is there, is busy and can act. -/
theorem launcher_acts {k id : Nat} (launch : w.errand? k = some (.launch id)) :
    ∃ launcher ∈ w.contexts, w.stance launcher = .busy ∧ w.canAct launcher = true := by
  have acts : ∀ (a : Activity) (signals : Nat), a.errand? = some (.launch id) →
      a.canAct signals = true := by
    intro a signals errand
    cases a with
    | waiting since m => cases errand
    | _ => rfl
  obtain ⟨main, c⟩ := w
  cases k with
  | zero =>
    refine ⟨.main, List.mem_cons_self, MainPhase.stance_of_errand launch, ?_⟩
    cases main with
    | active a => exact acts a _ launch
    | _ => cases launch
  | succ place =>
    obtain ⟨phase, there, errand⟩ := Option.bind_eq_some_iff.mp launch
    obtain ⟨bound, -⟩ := Array.getElem?_eq_some_iff.mp there
    have found : c.phase? (place + 1) = some phase := there
    refine ⟨.goroutine (place + 1), List.mem_cons_of_mem _ (mem_goroutines.mpr ⟨place, rfl, bound⟩),
      (stance_goroutine there).trans (GoroutinePhase.stance_of_errand errand), ?_⟩
    simp only [canAct, found]
    cases phase with
    | active a => exact acts a _ errand
    | _ => cases errand

/-- A context that is busy can act, unless it is a goroutine whose launch is still to be made by
another. -/
theorem Accounted.busy_acts (accounted : w.Accounted) (member : context ∈ w.contexts)
    (busy : w.stance context = .busy) :
    ∃ other ∈ w.contexts, w.stance other = .busy ∧ w.canAct other = true := by
  have activity : ∀ (signals : Nat) (a : Activity), a.stance = .busy → a.canAct signals = true := by
    intro signals a busy
    cases a with
    | waiting since m => cases busy
    | _ => rfl
  rcases eq_main_or_goroutine member with rfl | ⟨place, phase, rfl, there⟩
  · refine ⟨.main, List.mem_cons_self, busy, ?_⟩
    obtain ⟨main, c⟩ := w
    cases main with
    | active a => exact activity _ a busy
    | ended result steps => rfl
    | _ => cases busy
  · by_cases unlaunched : phase = .reserved
    · subst unlaunched
      obtain ⟨k, launch⟩ := accounted.errands.launcher place there
      exact launcher_acts launch
    · refine ⟨.goroutine (place + 1), member, busy, ?_⟩
      rw [stance_goroutine there] at busy
      have found : w.commons.phase? (place + 1) = some phase := there
      simp only [canAct, found]
      cases phase with
      | reserved => exact absurd rfl unlaunched
      | active a => exact activity _ a busy
      | waitingBuiltin since => cases busy
      | gone => cases busy
      | abandoned => cases busy
      | _ => rfl

/-- As long as a context is left, some context that is left can act. -/
theorem Accounted.someone_acts (accounted : w.Accounted) (member : context ∈ w.contexts)
    (left : w.stance context ≠ .gone) :
    ∃ other ∈ w.contexts, w.stance other ≠ .gone ∧ w.canAct other = true := by
  have busy : ∀ {other : Context}, other ∈ w.contexts → w.stance other = .busy →
      ∃ other ∈ w.contexts, w.stance other ≠ .gone ∧ w.canAct other = true := by
    intro other listed busy
    obtain ⟨actor, there, busy, acts⟩ := accounted.busy_acts listed busy
    exact ⟨actor, there, by simp [busy], acts⟩
  have closing : w.main.stance = .closing →
      ∃ other ∈ w.contexts, w.stance other ≠ .gone ∧ w.canAct other = true := by
    intro closing
    have left : w.stance .main ≠ .gone := by simp [stance, closing]
    refine ⟨.main, List.mem_cons_self, left, ?_⟩
    obtain ⟨main, c⟩ := w
    cases main with
    | closed result steps => rfl
    | active a => cases a <;> cases closing
    | _ => cases closing
  by_cases acts : w.canAct context = true
  · exact ⟨context, member, left, acts⟩
  · cases stands : w.stance context with
    | busy => exact busy member stands
    | gone => exact absurd stands left
    | closing =>
      rcases List.mem_cons.mp member with rfl | goroutine
      · exact closing stands
      · have listed : w.stance context ∈ w.roster.goroutines := by
          rw [← map_stance_goroutines]
          exact List.mem_map_of_mem goroutine
        exact absurd stands (accounted.books.notClosing _ listed)
    | waiting since =>
      have asleep : w.Asleep context := ⟨by rw [stands]; rfl, by simpa using acts⟩
      rcases (accounted.reason member asleep).2 with live | pending
      · have counted := accounted.books.live_eq
        rw [← map_stance_contexts, List.countP_map] at counted
        obtain ⟨other, there, stands⟩ := List.countP_pos_iff.mp (Nat.lt_of_lt_of_eq live counted)
        exact busy there (by simpa using stands)
      · exact closing pending

end World

/-- A context that sleeps does so while the counter is positive, and somebody is left who can lower
it, unless the main context is just about to wake all sleepers. So contexts never all sleep: as long as
one of them is left, one can act. -/
theorem sleepers_are_woken (program : Program) (limits : Limits) {w : World}
    (reachable : World.Reachable (program.setting limits) program.initial w) :
    (∀ context ∈ w.contexts, w.Asleep context → 0 < w.commons.shared.group.counter ∧
      (w.stance .main ≠ .closing → 0 < w.commons.shared.group.live)) ∧
    ∀ context ∈ w.contexts, w.stance context ≠ .gone →
      ∃ other ∈ w.contexts, w.stance other ≠ .gone ∧ ¬ w.Asleep other ∧ w.canAct other = true := by
  have accounted := World.Accounted.reachable reachable
  refine ⟨fun context member asleep => ?_, fun context member left => ?_⟩
  · obtain ⟨positive, others⟩ := accounted.reason member asleep
    exact ⟨positive, others.resolve_right⟩
  · obtain ⟨other, there, left, acts⟩ := accounted.someone_acts member left
    refine ⟨other, there, left, fun asleep => ?_, acts⟩
    rw [asleep.2] at acts
    cases acts

theorem sleepers_are_woken_gridlocked :
    gridlocked.Asleep .main ∧ 0 < gridlocked.commons.shared.group.live ∧
      ∃ other ∈ gridlocked.contexts, gridlocked.canAct other = true := by
  have reachable : World.Reachable (gridlock.setting {}) gridlock.initial gridlocked :=
    World.Reachable.run .start false 15 ⟨0, World.turnLength⟩ #[]
  have asleep : gridlocked.Asleep .main := ⟨rfl, rfl⟩
  obtain ⟨woken, progress⟩ := sleepers_are_woken gridlock {} reachable
  obtain ⟨other, there, -, -, acts⟩ := progress .main List.mem_cons_self (by decide +kernel)
  exact ⟨asleep, (woken .main List.mem_cons_self asleep).2 (by decide +kernel), other, there, acts⟩

end ControlStash
