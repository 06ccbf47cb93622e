import ControlStash.Proofs.Joining
import ControlStash.Proofs.Sentinel

/-!
# Machines and their contexts

A machine belongs to one context. After any action the machine of a context is the one it had
before, the one that its own step leads to, or the one that a goroutine begins with
(`World.Source`). So an invariant of machines asks only for what a step does, and, where it speaks
of arrays as well, for what the same step does to the store.

What others do leaves a machine that is about to be stepped where it is (`World.machine?_others`).
So a context that needs nothing of what contexts share does, in the actions that are its own, what
it would do alone, whatever comes in between them (`World.Course.alone`).
-/

namespace ControlStash

namespace Activity

variable {setting : Setting} {role : Role} {a a' : Activity} {c : Commons}

/-- An activity that goes on has the machine that it had, or has stepped it. -/
theorem source_act (goes : (a.act setting role c).1 = .goes a') :
    a'.machine = a.machine ∨ ∃ m, a = .running m ∧
      (m.advance setting role c.shared).machine? = some a'.machine ∧
      (a.act setting role c).2.shared.store = (m.advance setting role c.shared).shared.store := by
  cases a with
  | running m =>
    refine .inr ⟨m, rfl, ?_⟩
    unfold act at goes ⊢
    dsimp only at goes ⊢
    revert goes
    cases m.advance setting role c.shared with
    | stop result n s => exact nofun
    | _ =>
      intro goes
      cases goes
      exact ⟨rfl, rfl⟩
  | launching id task m =>
    cases goes
    exact .inl rfl
  | registering id m =>
    cases goes
    exact .inl rfl
  | waiting since m =>
    left
    unfold act at goes
    dsimp only at goes
    revert goes
    rcases c.shared.group.look role with ⟨verdict, group⟩
    cases verdict with
    | deadlocked counter => exact nofun
    | _ =>
      intro goes
      cases goes
      rfl

end Activity

/-- What a goroutine does besides moving on makes no goroutine active. -/
theorem GoroutinePhase.quiet_after {setting : Setting} {id : Nat} {phase : GoroutinePhase}
    {c : Commons} : c.Quiet (phase.after setting id c).2 := by
  cases phase with
  | active a => exact Activity.quiet_act
  | starting task => cases task <;> exact fun _ _ found => found
  | ended failure => cases failure <;> exact fun _ _ found => found
  | _ => exact fun _ _ found => found

namespace World

variable {setting : Setting} {w w' : World} {context : Context} {m : Machine}

/-- Where the machine comes from that a context has after an action. -/
inductive Source (setting : Setting) (w w' : World) (context : Context) (m : Machine) : Prop
  | kept : w.held? context = some m → Source setting w w' context m
  | stepped {before : Machine} : w.machine? context = some before →
    (before.advance setting context.role w.commons.shared).machine? = some m →
    w'.commons.shared.store =
      (before.advance setting context.role w.commons.shared).shared.store →
    Source setting w w' context m
  | begun {id : Nat} {c : Command} {env : Env} : context = .goroutine id →
    m = .start [.command c, .instruction .mark] env → Source setting w w' context m

/-- The machine of a goroutine that was active before with the same activity. -/
theorem Source.of_phase? {id : Nat} {a : Activity}
    (found : w.commons.phase? id = some (.active a)) :
    Source setting w w' (.goroutine id) a.machine :=
  .kept (held?_goroutine.mpr ⟨a, found, rfl⟩)

/-- The machine of the main context after an action of its own. -/
theorem source_main (held : (w.act setting .main).held? .main = some m) :
    Source setting w (w.act setting .main) .main m := by
  obtain ⟨main, c⟩ := w
  obtain ⟨a', active, rfl⟩ := held?_main.mp held
  cases main with
  | active a =>
    rcases Activity.source_act (machine?_ofProgress_main active) with same | ⟨n, rfl, goes, store⟩
    · exact .kept (held?_main.mpr ⟨a, rfl, same.symm⟩)
    · exact .stepped rfl goes store
  | joining result steps taken =>
    cases taken with
    | nil =>
      unfold World.act MainPhase.act at active
      dsimp only at active
      split at active <;> cases active
    | cons id taken => cases active
  | _ => cases active

/-- The machine of a goroutine after an action of any goroutine. -/
theorem source_goroutine {id id' : Nat}
    (held : (w.act setting (.goroutine id')).held? (.goroutine id) = some m) :
    Source setting w (w.act setting (.goroutine id')) (.goroutine id) m := by
  obtain ⟨a', active, rfl⟩ := held?_goroutine.mp held
  rcases found : w.commons.phase? id' with _ | phase
  · simp only [act, found] at active
    exact .of_phase? active
  · rw [act_goroutine found] at active ⊢
    rcases Commons.phase?_setPhase active with ⟨made, place⟩ | old
    · -- Two numbers may stand for the same goroutine, since goroutine `id` is at place `id - 1`.
      have same : w.commons.phase? id = some phase := by
        unfold Commons.phase? at found ⊢
        rw [← place]
        exact found
      cases phase with
      | active a =>
        rcases Activity.source_act (machine?_ofProgress_goroutine made.symm) with
          kept | ⟨n, rfl, goes, store⟩
        · rw [kept]
          exact .of_phase? same
        · refine .stepped ?_ goes store
          simp only [machine?, same]
      | starting task =>
        cases task with
        | body c env =>
          cases made
          exact .begun rfl rfl
        | builtin b args =>
          unfold GoroutinePhase.after at made
          dsimp only at made
          revert made
          cases Native.invoke .goroutine w.commons.shared b args
          all_goals
            intro made
            cases made
      | waitingBuiltin since =>
        unfold GoroutinePhase.after at made
        dsimp only at made
        revert made
        rcases w.commons.shared.group.look .goroutine with ⟨verdict, group⟩
        cases verdict
        all_goals
          intro made
          cases made
      | ended failure => cases failure <;> cases made
      | _ => cases made
    · exact .of_phase? (GoroutinePhase.quiet_after _ _ old)

/-- A refused launch gives no context another machine. -/
theorem source_refuse {reason : String} {acting : Context}
    (held : (w.refuse reason acting).held? context = some m) : w.held? context = some m := by
  have refusal := w.refusal reason acting
  generalize w.refuse reason acting = w' at refusal held
  have quiet : ∀ {id id' : Nat} {a : Activity},
      ((w.commons.setPhase id' .abandoned).onGroup .abandoned).phase? id = some (.active a) →
        w.commons.phase? id = some (.active a) :=
    fun {id id' a} found => Commons.Quiet.setPhase id' .abandoned nofun id a found
  cases refusal with
  | none => exact held
  | main launch =>
    cases context with
    | main => cases held
    | goroutine id =>
      obtain ⟨a, active, rfl⟩ := held?_goroutine.mp held
      exact held?_goroutine.mpr ⟨a, quiet active, rfl⟩
  | goroutine found launch =>
    cases context with
    | main => exact held
    | goroutine id =>
      obtain ⟨a, active, rfl⟩ := held?_goroutine.mp held
      refine held?_goroutine.mpr ⟨a, ?_, rfl⟩
      rcases Commons.phase?_setPhase active with ⟨made, -⟩ | old
      · cases made
      · exact quiet old

/-- Whatever happens, the machine of a context comes from the machine that it had, unless the
context is a goroutine that begins. -/
theorem source_proceed {action : Action}
    (held : (w.proceed setting action).held? context = some m) :
    Source setting w (w.proceed setting action) context m := by
  cases action with
  | act acting =>
    cases acting with
    | main =>
      cases context with
      | main => exact source_main held
      | goroutine id =>
        obtain ⟨a, active, rfl⟩ := held?_goroutine.mp held
        obtain ⟨main, c⟩ := w
        by_cases running : ∃ b, main = .active b
        · obtain ⟨b, rfl⟩ := running
          exact .of_phase? (Activity.quiet_act id a active)
        · obtain ⟨group, handles, same⟩ :=
            main.commons_act setting c fun b running' => running ⟨b, running'⟩
          have same' : (World.proceed setting ⟨main, c⟩ (.act .main)).commons = _ := same
          rw [same'] at active
          exact .of_phase? active
    | goroutine id' =>
      cases context with
      | main =>
        have kept : (w.act setting (.goroutine id')).main = w.main := main_act_goroutine id'
        obtain ⟨a, active, rfl⟩ := held?_main.mp held
        exact .kept (held?_main.mpr ⟨a, kept.symm.trans active, rfl⟩)
      | goroutine id => exact source_goroutine held
  | refuse reason acting => exact .kept (source_refuse held)
  | relist handles => exact .kept held

/-! ## What others do -/

theorem machine?_main : w.machine? .main = some m ↔ w.main = .active (.running m) := by
  unfold machine?
  dsimp only
  split
  · next n active => simp [active]
  · next idle => exact ⟨nofun, fun active => absurd active (idle m)⟩

theorem machine?_goroutine {id : Nat} :
    w.machine? (.goroutine id) = some m ↔ w.commons.phase? id = some (.active (.running m)) := by
  unfold machine?
  dsimp only
  split
  · next n active => simp [active]
  · next idle => exact ⟨nofun, fun active => absurd active (idle m)⟩

/-- A machine that is about to be stepped stays where it is when other contexts act and when
launches are refused. -/
theorem machine?_others {action : Action} (errands : w.Errands) (allowed : w.Allows action)
    (numbered : context ≠ .goroutine 0) (others : action ≠ .act context)
    (running : w.machine? context = some m) :
    (w.proceed setting action).machine? context = some m := by
  cases action with
  | act acting =>
    rcases eq_main_or_goroutine allowed.1 with rfl | ⟨place, phase, rfl, there⟩
    · cases context with
      | main => exact absurd rfl others
      | goroutine id =>
        have found := machine?_goroutine.mp running
        refine machine?_goroutine.mpr ?_
        obtain ⟨main, c⟩ := w
        by_cases active : ∃ a, main = .active a
        · obtain ⟨a, rfl⟩ := active
          exact (a.effect_act setting .main c).getElem? errands (k := 0) rfl found nofun
        · obtain ⟨group, handles, same⟩ :=
            main.commons_act setting c fun a running' => active ⟨a, running'⟩
          have same' : (World.proceed setting ⟨main, c⟩ (.act .main)).commons = _ := same
          rw [same']
          exact found
    · cases context with
      | main =>
        have kept : (w.act setting (.goroutine (place + 1))).main = w.main := main_act_goroutine _
        exact machine?_main.mpr (kept.trans (machine?_main.mp running))
      | goroutine id =>
        have found := machine?_goroutine.mp running
        have acting : w.commons.phase? (place + 1) = some phase := there
        have apart : place ≠ id - 1 := by
          rintro rfl
          have positive : 0 < id := Nat.pos_of_ne_zero fun zero => numbered (by rw [zero])
          exact others (by rw [Nat.sub_add_cancel positive])
        refine machine?_goroutine.mpr ?_
        rw [proceed, act_goroutine acting]
        refine (Array.getElem?_setIfInBounds_ne apart).trans ?_
        exact (phase.effect_after setting _ w.commons).getElem? errands (errand?_goroutine acting)
          found nofun
  | refuse reason acting =>
    have refusal := w.refusal reason acting
    rw [proceed]
    generalize w.refuse reason acting = w' at refusal
    cases refusal with
    | none => exact running
    | main launch =>
      cases context with
      | main =>
        rw [machine?_main.mp running] at launch
        cases launch
      | goroutine id =>
        refine machine?_goroutine.mpr ?_
        exact Commons.Effect.refuse.getElem? errands (k := 0) launch (machine?_goroutine.mp running)
          nofun
    | @goroutine own id' a acting launch =>
      cases context with
      | main => exact running
      | goroutine id =>
        have found := machine?_goroutine.mp running
        refine machine?_goroutine.mpr ?_
        have apart : own - 1 ≠ id - 1 := by
          intro same
          unfold Commons.phase? at acting found
          rw [same, found] at acting
          cases acting
          cases launch
        refine (Array.getElem?_setIfInBounds_ne apart).trans ?_
        exact Commons.Effect.refuse.getElem? errands ((errand?_goroutine acting).trans launch) found
          nofun
  | relist handles => exact running

/-- Any action keeps the errands. -/
theorem Errands.proceed (errands : w.Errands) (action : Action) :
    (w.proceed setting action).Errands := by
  cases action with
  | act context => exact errands.act context
  | refuse reason context => exact errands.refuse reason context
  | relist handles => exact errands

/-- The errands fit the goroutines all along a course. -/
theorem Course.errands {start : World} {later : List (World × Action)}
    (course : Course setting start later w) (errands : start.Errands) : w.Errands := by
  induction course with
  | start => exact errands
  | step action _ _ ih => exact ih.proceed action

/-- How often a context has acted. -/
def turnsOf (context : Context) (past : List (World × Action)) : Nat :=
  past.countP fun event => event.2 = .act context

/-- A context that goes through stages whatever contexts share goes from one to the next with each
action of its own. What happens in between does not matter. -/
theorem Course.alone {start : World} {later : List (World × Action)} {n : Nat}
    (stage : Nat → Machine) (course : Course setting start later w) (errands : start.Errands)
    (numbered : context ≠ .goroutine 0) (running : start.machine? context = some (stage 0))
    (each : ∀ k < n, ∀ s, (stage k).advance setting context.role s = .next (stage (k + 1)) s) :
    turnsOf context later ≤ n ∧ w.machine? context = some (stage (turnsOf context later)) ∨
      ∃ u, (u, .act context) ∈ later ∧ u.machine? context = some (stage n) := by
  induction course with
  | start => exact .inl ⟨Nat.zero_le n, running⟩
  | @step later w action course allowed ih =>
    rcases ih with ⟨below, there⟩ | ⟨u, event, there⟩
    · by_cases own : action = .act context
      · subst own
        have counted :
            turnsOf context (later ++ [(w, .act context)]) = turnsOf context later + 1 := by
          simp [turnsOf, List.countP_append]
        rcases Nat.lt_or_eq_of_le below with more | last
        · rw [counted]
          exact .inl ⟨more, (machine?_act_of_next there (each _ more _)).1⟩
        · rw [last] at there
          exact .inr ⟨w, List.mem_append_right _ (List.mem_singleton.mpr rfl), there⟩
      · have counted : turnsOf context (later ++ [(w, action)]) = turnsOf context later := by
          simp [turnsOf, List.countP_append, own]
        rw [counted]
        exact .inl ⟨below, machine?_others (course.errands errands) allowed numbered own there⟩
    · exact .inr ⟨u, List.mem_append_left _ event, there⟩

end World

end ControlStash
