import Mathlib.Logic.Relation
import ControlStash.Proofs.Interleaving

/-!
# Stretches of a run

Statements about one context often speak of two moments of a run and of all moments between them:
a call is entered and comes to its end, and its mark stays on the control stack meanwhile. A
`World.Stretch` is the part of a run between two such moments. Any context may act in it, in any
order, and the host may refuse launches; one context is watched, and its machine meets a condition
all along.

Whatever the others do, the machine of the watched context stays as it is or takes a step
(`World.Next.held?`). So an invariant of steps holds all along a stretch (`World.Stretch.carries`).
-/

namespace ControlStash

/-- The machine of an activity. -/
def Activity.machine : Activity → Machine
  | .running m => m
  | .launching _ _ m => m
  | .registering _ m => m
  | .waiting _ m => m

/-- The machine with which an activity goes on. -/
def Progress.machine? : Progress → Option Machine
  | .goes a => some a.machine
  | .ends _ _ => none

/-- The machine with which a context goes on after a step, unless the step ends it. -/
def Outcome.machine? : Outcome → Option Machine
  | .next m _ => some m
  | .asleep m _ => some m
  | .launch _ m _ => some m
  | .stop _ _ _ => none

/-- A machine takes a step and goes on. -/
def Machine.Goes (setting : Setting) (role : Role) (s : Shared) (m m' : Machine) : Prop :=
  ∃ o, Move setting.protocol setting.globals role m s o ∧ o.machine? = some m'

namespace World

/-- The machine of a context that has not ended, whatever the context is about to do. -/
def held? (w : World) : Context → Option Machine
  | .main =>
    match w.main with
    | .active a => some a.machine
    | _ => none
  | .goroutine id =>
    match w.commons.phase? id with
    | some (.active a) => some a.machine
    | _ => none

theorem held?_main {w : World} {m : Machine} :
    w.held? .main = some m ↔ ∃ a, w.main = .active a ∧ a.machine = m := by
  obtain ⟨main, commons⟩ := w
  cases main <;> simp [held?]

theorem held?_goroutine {w : World} {id : Nat} {m : Machine} :
    w.held? (.goroutine id) = some m ↔
      ∃ a, w.commons.phase? id = some (.active a) ∧ a.machine = m := by
  rcases found : w.commons.phase? id with _ | phase
  · simp [held?, found]
  · cases phase <;> simp [held?, found]

/-- A machine that is about to be stepped is held. -/
theorem held?_of_machine? {w : World} {context : Context} {m : Machine}
    (running : w.machine? context = some m) : w.held? context = some m := by
  cases context with
  | main =>
    unfold machine? at running
    dsimp only at running
    split at running
    · next active =>
      cases running
      exact held?_main.mpr ⟨_, active, rfl⟩
    · cases running
  | goroutine id =>
    unfold machine? at running
    dsimp only at running
    split at running
    · next active =>
      cases running
      exact held?_goroutine.mpr ⟨_, active, rfl⟩
    · cases running

/-- A context that is about to step its machine can do so. -/
theorem canAct_of_machine? {w : World} {context : Context} {m : Machine}
    (running : w.machine? context = some m) : w.canAct context = true := by
  unfold machine? at running
  unfold canAct
  cases context with
  | main =>
    dsimp only at running ⊢
    split at running
    · next active =>
      rw [active]
      rfl
    · cases running
  | goroutine id =>
    dsimp only at running ⊢
    split at running
    · next active =>
      rw [active]
      rfl
    · cases running

/-- After a step with nothing special about it the context is about to take the next. -/
theorem machine?_act_of_next {setting : Setting} {w : World} {context : Context} {m m' : Machine}
    {s : Shared} (running : w.machine? context = some m)
    (next : m.advance setting context.role w.commons.shared = .next m' s) :
    (w.act setting context).machine? context = some m' ∧
      (w.act setting context).commons.shared = s := by
  obtain ⟨main, ⟨shared, goroutines, handles, failures⟩⟩ := w
  unfold machine? at running
  cases context with
  | main =>
    dsimp only at running
    split at running
    · cases running
      have next : m.advance setting .main shared = .next m' s := next
      simp only [act, MainPhase.act, Activity.act, next]
      exact ⟨rfl, trivial⟩
    · cases running
  | goroutine id =>
    dsimp only at running
    split at running
    · next active =>
      cases running
      have next : m.advance setting .goroutine shared = .next m' s := next
      have place : id - 1 < goroutines.size := by
        obtain ⟨bound, -⟩ := Array.getElem?_eq_some_iff.mp active
        exact bound
      simp only [act, active, GoroutinePhase.act, Activity.act, next]
      refine ⟨?_, rfl⟩
      simp only [machine?, Commons.phase?, Commons.setPhase, GoroutinePhase.ofProgress,
        Array.getElem?_setIfInBounds_self_of_lt place]
    · cases running

/-- One action of a run: a context that can act does so, or the host refuses a launch. -/
inductive Next (setting : Setting) : World → World → Prop
  | act {w : World} (context : Context) : w.canAct context = true →
    Next setting w (w.act setting context)
  | refuse {w : World} (reason : String) (context : Context) :
    Next setting w (w.refuse reason context)

/-- The part of a run from a world to a later one, in which the machine of a context meets a
condition after every action. -/
def Stretch (setting : Setting) (context : Context) (P : Machine → Prop) : World → World → Prop :=
  Relation.ReflTransGen fun w w' => Next setting w w' ∧ ∃ m, w'.held? context = some m ∧ P m

theorem Reachable.next {setting : Setting} {start w w' : World}
    (reachable : Reachable setting start w) (next : Next setting w w') :
    Reachable setting start w' := by
  cases next with
  | act context acts => exact .act context reachable acts
  | refuse reason context => exact .refuse reason context reachable

theorem Stretch.reachable {setting : Setting} {context : Context} {P : Machine → Prop}
    {start w w' : World} (stretch : Stretch setting context P w w')
    (reachable : Reachable setting start w) : Reachable setting start w' := by
  induction stretch with
  | refl => exact reachable
  | tail _ step ih => exact ih.next step.1

theorem Stretch.act {setting : Setting} {context acting : Context} {P : Machine → Prop}
    {w w' : World} {m : Machine} (stretch : Stretch setting context P w w')
    (acts : w'.canAct acting = true) (held : (w'.act setting acting).held? context = some m)
    (met : P m) : Stretch setting context P w (w'.act setting acting) :=
  stretch.tail ⟨.act acting acts, m, held, met⟩

/-- The world after a context has acted a number of times in a row. -/
def acts (setting : Setting) (context : Context) : Nat → World → World
  | 0, w => w
  | k + 1, w => (w.acts setting context k).act setting context

theorem Reachable.acts {setting : Setting} {start w : World} {context : Context} {k : Nat}
    (reachable : Reachable setting start w)
    (able : ∀ j < k, (w.acts setting context j).canAct context = true) :
    Reachable setting start (w.acts setting context k) := by
  induction k with
  | zero => exact reachable
  | succ k ih =>
    have before := ih fun j below => able j (Nat.lt_succ_of_lt below)
    exact .act context before (able k (Nat.lt_succ_self k))

theorem Stretch.acts {setting : Setting} {context : Context} {P : Machine → Prop} {w : World}
    {k : Nat} (able : ∀ j < k, (w.acts setting context j).canAct context = true ∧
      ∃ m, (w.acts setting context (j + 1)).held? context = some m ∧ P m) :
    Stretch setting context P w (w.acts setting context k) := by
  induction k with
  | zero => exact .refl
  | succ k ih =>
    obtain ⟨acts, m, held, met⟩ := able k (Nat.lt_succ_self k)
    exact (ih fun j below => able j (Nat.lt_succ_of_lt below)).act acts held met

end World

/-! ## What an action does to the machine of a context -/

namespace Commons

/-- No goroutine is active that was not active before with the same activity. -/
def Quiet (c c' : Commons) : Prop :=
  ∀ id a, c'.phase? id = some (.active a) → c.phase? id = some (.active a)

theorem phase?_setPhase {c : Commons} {id id' : Nat} {phase phase' : GoroutinePhase}
    (found : (c.setPhase id' phase').phase? id = some phase) :
    (phase = phase' ∧ id' - 1 = id - 1) ∨ c.phase? id = some phase := by
  unfold setPhase phase? at *
  rw [Array.getElem?_setIfInBounds] at found
  split at found
  · next same =>
    split at found
    · cases found
      exact .inl ⟨rfl, same⟩
    · cases found
  · exact .inr found

/-- A goroutine that moves to a phase without activity leaves the others as they are. -/
theorem Quiet.setPhase {c : Commons} (id : Nat) (phase : GoroutinePhase)
    (inactive : ∀ a, phase ≠ .active a) : Quiet c (c.setPhase id phase) := by
  intro id' a found
  rcases phase?_setPhase found with ⟨same, -⟩ | old
  · exact absurd same.symm (inactive a)
  · exact old

end Commons

namespace Activity

variable {setting : Setting} {role : Role} {a : Activity} {c : Commons} {m : Machine}

/-- An action of an activity leaves its machine as it is, or steps it. -/
theorem machine?_act (goes : (a.act setting role c).1.machine? = some m) :
    m = a.machine ∨ a.machine.Goes setting role c.shared m := by
  cases a with
  | running n =>
    have moves : (n.advance setting role c.shared).isStop = false →
        Move setting.protocol setting.globals role n c.shared (n.advance setting role c.shared) :=
      Machine.move_of_advance
    unfold act at goes
    dsimp only at goes
    revert moves goes
    cases n.advance setting role c.shared with
    | next n' s => exact fun goes moves => .inr ⟨_, moves rfl, goes⟩
    | asleep n' s => exact fun goes moves => .inr ⟨_, moves rfl, goes⟩
    | launch task n' s => exact fun goes moves => .inr ⟨_, moves rfl, goes⟩
    | stop result n' s => exact fun goes _ => by cases goes
  | launching id task n =>
    cases goes
    exact .inl rfl
  | registering id n =>
    cases goes
    exact .inl rfl
  | waiting since n =>
    unfold act at goes
    dsimp only at goes
    revert goes
    rcases c.shared.group.look role with ⟨verdict, group⟩
    cases verdict with
    | released => exact fun goes => .inl (Option.some.inj goes).symm
    | deadlocked counter => exact fun goes => by cases goes
    | asleep => exact fun goes => .inl (Option.some.inj goes).symm

theorem quiet_act : c.Quiet (a.act setting role c).2 := by
  cases a with
  | running n =>
    unfold act
    dsimp only
    cases n.advance setting role c.shared with
    | launch task n' s =>
      intro id b found
      unfold Commons.phase? at *
      rw [Array.getElem?_push] at found
      split at found
      · cases found
      · exact found
    | _ => exact fun _ _ found => found
  | launching id task n => exact .setPhase id _ (by simp)
  | registering id n => exact fun _ _ found => found
  | waiting since n =>
    unfold act
    dsimp only
    rcases c.shared.group.look role with ⟨verdict, group⟩
    cases verdict <;> exact fun _ _ found => found

theorem machine?_refuse (reason : String) (goes : (a.refuse reason c).1.machine? = some m) :
    m = a.machine := by
  cases a <;> cases goes <;> rfl

theorem quiet_refuse {reason : String} : c.Quiet (a.refuse reason c).2 := by
  cases a with
  | launching id task n => exact Commons.Quiet.setPhase id .abandoned (by simp)
  | _ => exact fun _ _ found => found

end Activity

namespace World

variable {setting : Setting} {context : Context} {w w' : World} {m m' : Machine}

theorem machine?_ofProgress_main {progress : Progress} {a : Activity}
    (active : MainPhase.ofProgress progress = .active a) : progress = .goes a := by
  cases progress <;> cases active
  rfl

theorem machine?_ofProgress_goroutine {progress : Progress} {a : Activity}
    (active : GoroutinePhase.ofProgress progress = .active a) : progress = .goes a := by
  rcases progress with b | ⟨_ | _, _⟩ <;> cases active
  rfl

theorem quiet_act_goroutine {phase : GoroutinePhase} {id : Nat} {c : Commons}
    (idle : ∀ a, phase ≠ .active a) (launched : ∀ task, phase ≠ .starting task) :
    c.Quiet (phase.act setting id c) := by
  cases phase with
  | starting task => exact absurd rfl (launched task)
  | active a => exact absurd rfl (idle a)
  | waitingBuiltin since =>
    unfold GoroutinePhase.act
    dsimp only
    rcases c.shared.group.look .goroutine with ⟨verdict, group⟩
    refine .setPhase (c := { c with shared := _ }) id _ fun a => ?_
    cases verdict <;> simp [Native.Reply.ofVerdict, GoroutinePhase.ofReply]
  | ended failure => cases failure <;> exact Commons.Quiet.setPhase id .recorded (by simp)
  | recorded => exact Commons.Quiet.setPhase id .gone (by simp)
  | reserved => exact fun _ _ found => found
  | gone => exact fun _ _ found => found
  | abandoned => exact fun _ _ found => found

/-- An action of a goroutine leaves the machine of a goroutine as it is, or steps it. -/
theorem machine_act_goroutine {phase : GoroutinePhase} {id id' : Nat} {c : Commons}
    {a a' : Activity} (found : c.phase? id' = some phase)
    (before : c.phase? id = some (.active a))
    (after : (phase.act setting id' c).phase? id = some (.active a')) :
    a'.machine = a.machine ∨ a.machine.Goes setting .goroutine c.shared a'.machine := by
  have unchanged : c.phase? id = some (.active a') → a'.machine = a.machine := by
    intro same
    rw [before] at same
    cases same
    rfl
  -- Two numbers may stand for the same goroutine, since goroutine `id` is at place `id - 1`.
  have acting : id' - 1 = id - 1 → phase = .active a := by
    intro place
    unfold Commons.phase? at found before
    rw [place, before] at found
    exact (Option.some.inj found).symm
  cases phase with
  | active b =>
    rcases Commons.phase?_setPhase after with ⟨made, place⟩ | old
    · cases acting place
      have goes : (a.act setting .goroutine c).1 = .goes a' :=
        machine?_ofProgress_goroutine made.symm
      refine Activity.machine?_act ?_
      rw [goes]
      rfl
    · exact .inl (unchanged (Activity.quiet_act _ _ old))
  | starting task =>
    refine .inl (unchanged ?_)
    cases task with
    | body command env =>
      rcases Commons.phase?_setPhase after with ⟨-, place⟩ | old
      · cases acting place
      · exact old
    | builtin b args =>
      rcases Commons.phase?_setPhase after with ⟨-, place⟩ | old
      · cases acting place
      · exact old
  | _ => exact .inl (unchanged (quiet_act_goroutine (by simp) (by simp) _ _ after))

/-- Whichever context acts, the machine of a context stays as it is or takes a step. -/
theorem Next.held? (next : Next setting w w') (before : w.held? context = some m)
    (after : w'.held? context = some m') :
    m' = m ∨ m.Goes setting context.role w.commons.shared m' := by
  obtain ⟨main, c⟩ := w
  cases context with
  | main =>
    obtain ⟨a, active, rfl⟩ := held?_main.mp before
    obtain ⟨a', active', rfl⟩ := held?_main.mp after
    obtain rfl : main = .active a := active
    cases next with
    | act acting =>
      cases acting with
      | main =>
        have goes : (a.act setting .main c).1 = .goes a' := machine?_ofProgress_main active'
        refine Activity.machine?_act ?_
        exact congrArg Progress.machine? goes
      | goroutine id =>
        left
        unfold World.act at active'
        dsimp only at active'
        split at active' <;> cases active' <;> rfl
    | refuse reason acting =>
      left
      cases acting with
      | main =>
        have goes : (a.refuse reason c).1 = .goes a' := machine?_ofProgress_main active'
        refine Activity.machine?_refuse (c := c) reason ?_
        rw [goes]
        rfl
      | goroutine id =>
        unfold World.refuse at active'
        dsimp only at active'
        split at active' <;> cases active' <;> rfl
  | goroutine id =>
    obtain ⟨a, active, rfl⟩ := held?_goroutine.mp before
    obtain ⟨a', active', rfl⟩ := held?_goroutine.mp after
    have unchanged : c.phase? id = some (.active a') → a'.machine = a.machine := by
      intro same
      rw [show c.phase? id = _ from active] at same
      cases same
      rfl
    cases next with
    | act acting =>
      cases acting with
      | main =>
        refine .inl (unchanged ?_)
        cases main with
        | active b => exact Activity.quiet_act _ _ active'
        | joining result steps taken =>
          cases taken with
          | nil =>
            unfold World.act MainPhase.act at active'
            dsimp only at active'
            split at active' <;> exact active'
          | cons first taken => exact active'
        | _ => exact active'
      | goroutine id' =>
        unfold World.act at active'
        dsimp only at active'
        split at active'
        · next phase found => exact machine_act_goroutine found active active'
        · exact .inl (unchanged active')
    | refuse reason acting =>
      left
      cases acting with
      | main =>
        unfold World.refuse at active'
        dsimp only at active'
        split at active'
        · exact unchanged (Activity.quiet_refuse _ _ active')
        · exact unchanged active'
      | goroutine id' =>
        unfold World.refuse at active'
        dsimp only at active'
        split at active'
        · next b found =>
          rcases Commons.phase?_setPhase active' with ⟨made, place⟩ | old
          · have goes : (b.refuse reason c).1 = .goes a' :=
              machine?_ofProgress_goroutine made.symm
            unfold Commons.phase? at found
            rw [place, show c.goroutines[id - 1]? = _ from active] at found
            cases found
            refine Activity.machine?_refuse (c := c) reason ?_
            rw [goes]
            rfl
          · exact unchanged (Activity.quiet_refuse _ _ old)
        · exact unchanged active'

/-- What every step keeps as long as a condition is met holds all along a stretch. -/
theorem Stretch.carries {P : Machine → Prop} (Inv : Machine → Prop)
    (stretch : Stretch setting context P w w')
    (held : w.held? context = some m) (start : Inv m)
    (step : ∀ v n n', Stretch setting context P w v → v.held? context = some n → Inv n →
      n.Goes setting context.role v.commons.shared n' → P n' → Inv n') :
    ∃ m', w'.held? context = some m' ∧ Inv m' := by
  induction stretch with
  | refl => exact ⟨m, held, start⟩
  | tail before next ih =>
    obtain ⟨n, held, kept⟩ := ih
    obtain ⟨action, n', held', met⟩ := next
    refine ⟨n', held', ?_⟩
    rcases action.held? held held' with rfl | goes
    · exact kept
    · exact step _ n n' before held kept goes met

end World

/-- The machine of a context that has not ended meets the requirement. -/
theorem Discipline.World.held? {d : Discipline} {w : ControlStash.World} {context : Context}
    {m : Machine} (obeys : d.World w) (found : w.held? context = some m) : d.machine m := by
  have machine : ∀ {a : ControlStash.Activity}, d.Activity a → d.machine a.machine := by
    intro a activity
    cases a with
    | launching id task n => exact activity.2
    | _ => exact activity
  cases context with
  | main =>
    obtain ⟨a, active, rfl⟩ := World.held?_main.mp found
    have main := obeys.main
    rw [active] at main
    exact machine main
  | goroutine id =>
    obtain ⟨a, active, rfl⟩ := World.held?_goroutine.mp found
    exact machine (obeys.commons.phase? active)

end ControlStash
