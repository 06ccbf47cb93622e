import Mathlib.Logic.Function.Basic
import ControlStash.Proofs.Deed

/-!
# Starting goroutines

A context that starts a goroutine has two errands to run after it has taken a number: it launches the
goroutine, and it lists it for joining. `Errands` is the invariant behind them: a goroutine that is
not launched yet is waited on by exactly one context, which has its launch as errand, and a goroutine
has a greater number than the context that starts it. It holds in every reachable world
(`World.Errands.reachable`).

Contexts go by their numbers here, as in `World.context`: the main context is number zero. Goroutine
`id` is at place `id - 1`.
-/

namespace ControlStash

/-- What a context has still to do for a goroutine that it starts. -/
inductive Errand where
  | launch (id : Nat)
  | register (id : Nat)
  deriving DecidableEq, Repr

/-- The errand of an activity. -/
def Activity.errand? : Activity → Option Errand
  | .launching id _ _ => some (.launch id)
  | .registering id _ => some (.register id)
  | _ => none

/-- The errand that an activity goes on with. -/
def Progress.errand? : Progress → Option Errand
  | .goes a => a.errand?
  | .ends _ _ => none

/-- The errand of a goroutine. -/
def GoroutinePhase.errand? : GoroutinePhase → Option Errand
  | .active a => a.errand?
  | _ => none

/-- The errand of the main context. -/
def MainPhase.errand? : MainPhase → Option Errand
  | .active a => a.errand?
  | _ => none

/-- The errand of the context with a number. -/
def World.errand? (w : World) : Nat → Option Errand
  | 0 => w.main.errand?
  | place + 1 => (w.commons.goroutines[place]?).bind (·.errand?)

/-- A context with an errand is busy. -/
theorem Activity.stance_of_errand {a : Activity} {errand : Errand} (runs : a.errand? = some errand) :
    a.stance = .busy := by
  cases a with
  | waiting since m => cases runs
  | _ => rfl

@[inherit_doc Activity.stance_of_errand]
theorem GoroutinePhase.stance_of_errand {phase : GoroutinePhase} {errand : Errand}
    (runs : phase.errand? = some errand) : phase.stance = .busy := by
  cases phase with
  | active a => exact a.stance_of_errand runs
  | _ => cases runs

@[inherit_doc Activity.stance_of_errand]
theorem MainPhase.stance_of_errand {main : MainPhase} {errand : Errand}
    (runs : main.errand? = some errand) : main.stance = .busy := by
  cases main with
  | active a => exact a.stance_of_errand runs
  | _ => cases runs

theorem GoroutinePhase.errand?_ofProgress (progress : Progress) :
    (ofProgress progress).errand? = progress.errand? := by
  rcases progress with a | ⟨_ | v, steps⟩ <;> rfl

theorem MainPhase.errand?_ofProgress (progress : Progress) :
    (ofProgress progress).errand? = progress.errand? := by
  cases progress <;> rfl

/-! ## What an action does for other goroutines -/

/-- What a context with an errand does to goroutines other than itself, and to the list of those to
be joined, and its errand afterwards. -/
inductive Commons.Effect : Option Errand → Commons → Option Errand → Commons → Prop
  | work {c c' : Commons} : c'.goroutines = c.goroutines → c'.handles = c.handles →
    Effect none c none c'
  | reserve {c c' : Commons} : c'.goroutines = c.goroutines.push .reserved →
    c'.handles = c.reap.handles → Effect none c (some (.launch (c.goroutines.size + 1))) c'
  | launch {c : Commons} {id : Nat} {task : Task} :
    Effect (some (.launch id)) c (some (.register id)) (c.setPhase id (.starting task))
  | register {c : Commons} {id : Nat} :
    Effect (some (.register id)) c none { c with handles := c.handles ++ [id] }
  | refuse {c : Commons} {id : Nat} :
    Effect (some (.launch id)) c none ((c.setPhase id .abandoned).onGroup .abandoned)

namespace Activity

theorem effect_act (setting : Setting) (role : Role) (a : Activity) (c : Commons) :
    Commons.Effect a.errand? c (a.act setting role c).1.errand? (a.act setting role c).2 := by
  cases a with
  | running m =>
    unfold act
    dsimp only
    cases m.advance setting role c.shared with
    | next m' s => exact .work rfl rfl
    | asleep m' s => exact .work rfl rfl
    | launch task m' s => exact .reserve rfl rfl
    | stop result m' s => exact .work rfl rfl
  | launching id task m => exact .launch
  | registering id m => exact .register
  | waiting since m =>
    unfold act
    dsimp only
    rcases c.shared.group.look role with ⟨found, group⟩
    cases found <;> exact .work rfl rfl

end Activity

namespace GoroutinePhase

variable {setting : Setting} {id : Nat} {phase : GoroutinePhase} {c : Commons}

theorem effect_after (setting : Setting) (id : Nat) (phase : GoroutinePhase) (c : Commons) :
    Commons.Effect phase.errand? c (phase.after setting id c).1.errand?
      (phase.after setting id c).2 := by
  have ofReply : ∀ reply : Native.Reply, (ofReply reply).1.errand? = none := by
    intro reply
    cases reply <;> rfl
  cases phase with
  | starting task =>
    cases task with
    | body command env => exact .work rfl rfl
    | builtin b args =>
      unfold after
      dsimp only
      rw [ofReply]
      exact .work rfl rfl
  | active a =>
    unfold after
    dsimp only
    rw [errand?_ofProgress]
    exact a.effect_act setting .goroutine c
  | waitingBuiltin since =>
    unfold after
    dsimp only
    rw [ofReply]
    exact .work rfl rfl
  | ended failure => cases failure <;> exact .work rfl rfl
  | recorded => exact .work rfl rfl
  | reserved => exact .work rfl rfl
  | gone => exact .work rfl rfl
  | abandoned => exact .work rfl rfl

/-- A goroutine that is launched does not go back. -/
theorem after_ne_reserved (launched : phase ≠ .reserved) :
    (phase.after setting id c).1 ≠ .reserved := by
  have ofReply : ∀ reply : Native.Reply, (ofReply reply).1 ≠ .reserved := by
    intro reply
    cases reply <;> simp [GoroutinePhase.ofReply]
  cases phase with
  | starting task =>
    cases task with
    | body command env => simp [after]
    | builtin b args => exact ofReply _
  | active a =>
    unfold after
    dsimp only
    rcases (a.act setting .goroutine c).1 with a' | ⟨_ | v, steps⟩ <;> simp [ofProgress]
  | waitingBuiltin since => exact ofReply _
  | ended failure => cases failure <;> simp [after]
  | recorded => simp [after]
  | reserved => exact absurd rfl launched
  | gone => simp [after]
  | abandoned => simp [after]

end GoroutinePhase

/-- The main context that has ended changes nothing of the goroutines but their list. -/
theorem MainPhase.commons_act (setting : Setting) (c : Commons) {main : MainPhase}
    (ended : ∀ a, main ≠ .active a) :
    ∃ group handles, (main.act setting c).commons =
      { c with shared := { c.shared with group }, handles } := by
  cases main with
  | active a => exact absurd rfl (ended a)
  | ended result steps => exact ⟨_, _, rfl⟩
  | closed result steps => exact ⟨_, _, rfl⟩
  | joining result steps taken =>
    cases taken with
    | nil =>
      unfold act
      dsimp only
      split <;> exact ⟨_, _, rfl⟩
    | cons id taken => exact ⟨_, _, rfl⟩
  | finished result steps => exact ⟨_, _, rfl⟩

/-! ## The invariant -/

/-- The errands of contexts fit the goroutines: each that is not launched is the errand of exactly one
context, and each context starts goroutines with greater numbers than its own. -/
structure Errands (errand? : Nat → Option Errand) (phases : Array GoroutinePhase) : Prop where
  launcher : ∀ place, phases[place]? = some .reserved → ∃ k, errand? k = some (.launch (place + 1))
  reserved : ∀ k id, errand? k = some (.launch id) →
    ∃ place, id = place + 1 ∧ k ≤ place ∧ phases[place]? = some .reserved
  unique : ∀ k k' id, errand? k = some (.launch id) → errand? k' = some (.launch id) → k = k'
  earlier : ∀ k id, errand? k = some (.register id) → k < id

/-- The errands in a world fit its goroutines. -/
def World.Errands (w : World) : Prop :=
  ControlStash.Errands w.errand? w.commons.goroutines

namespace Errands

variable {errand? : Nat → Option Errand} {phases : Array GoroutinePhase} {c c' : Commons}
  {e e' : Option Errand} {k : Nat}

/-- A goroutine may go to any other phase after its launch. -/
theorem settle (errands : Errands errand? phases) {place : Nat} {old new : GoroutinePhase}
    (found : phases[place]? = some old) (launched : old ≠ .reserved) (settled : new ≠ .reserved) :
    Errands errand? (phases.setIfInBounds place new) := by
  have kept : ∀ other : Nat, (phases.setIfInBounds place new)[other]? = some .reserved ↔
      phases[other]? = some .reserved := by
    intro other
    rw [Array.getElem?_setIfInBounds]
    split
    · next here =>
      subst here
      obtain ⟨bound, -⟩ := Array.getElem?_eq_some_iff.mp found
      rw [if_pos bound, found]
      simp [launched, settled]
    · exact Iff.rfl
  refine ⟨fun other unlaunched => errands.launcher other ((kept other).mp unlaunched),
    fun k id launches => ?_, errands.unique, errands.earlier⟩
  obtain ⟨other, number, later, unlaunched⟩ := errands.reserved k id launches
  exact ⟨other, number, later, (kept other).mpr unlaunched⟩

/-- A context that gives up an errand other than a launch, or takes up listing a goroutine with a
greater number, is no matter for the rest. -/
theorem update (errands : Errands errand? phases) (other : ∀ id, errand? k ≠ some (.launch id))
    (after : ∀ id, e' ≠ some (.launch id)) (later : ∀ id, e' = some (.register id) → k < id) :
    Errands (Function.update errand? k e') phases := by
  have launches : ∀ k' id, Function.update errand? k e' k' = some (.launch id) ↔
      errand? k' = some (.launch id) := by
    intro k' id
    by_cases same : k' = k
    · subst same
      rw [Function.update_self]
      exact ⟨fun launch => absurd launch (after id), fun launch => absurd launch (other id)⟩
    · rw [Function.update_of_ne same]
  refine ⟨fun place unlaunched => ?_, fun k' id launch => ?_, fun k₁ k₂ id first second => ?_,
    fun k' id registers => ?_⟩
  · obtain ⟨k', launch⟩ := errands.launcher place unlaunched
    exact ⟨k', (launches k' _).mpr launch⟩
  · exact errands.reserved k' id ((launches k' id).mp launch)
  · exact errands.unique k₁ k₂ id ((launches k₁ id).mp first) ((launches k₂ id).mp second)
  · by_cases same : k' = k
    · subst same
      rw [Function.update_self] at registers
      exact later id registers
    · rw [Function.update_of_ne same] at registers
      exact errands.earlier k' id registers

/-- The launch of a goroutine is over, whether it has succeeded or not. -/
theorem launched (errands : Errands errand? phases) {id : Nat} {new : GoroutinePhase}
    (launch : errand? k = some (.launch id)) (settled : new ≠ .reserved)
    (after : ∀ id', e' ≠ some (.launch id')) (later : ∀ id', e' = some (.register id') → id' = id) :
    Errands (Function.update errand? k e') (phases.setIfInBounds (id - 1) new) := by
  obtain ⟨place, rfl, above, unlaunched⟩ := errands.reserved k id launch
  rw [Nat.add_sub_cancel]
  obtain ⟨bound, -⟩ := Array.getElem?_eq_some_iff.mp unlaunched
  have here : (phases.setIfInBounds place new)[place]? = some new :=
    Array.getElem?_setIfInBounds_self_of_lt bound
  have elsewhere : ∀ other : Nat, other ≠ place →
      (phases.setIfInBounds place new)[other]? = phases[other]? := by
    intro other apart
    exact Array.getElem?_setIfInBounds_ne (Ne.symm apart)
  -- Of two contexts with one goroutine to launch both would be `k`, whose errand is over.
  have others : ∀ k' id', Function.update errand? k e' k' = some (.launch id') →
      k' ≠ k ∧ errand? k' = some (.launch id') ∧ id' ≠ place + 1 := by
    intro k' id' launch'
    by_cases same : k' = k
    · subst same
      rw [Function.update_self] at launch'
      exact absurd launch' (after id')
    · rw [Function.update_of_ne same] at launch'
      refine ⟨same, launch', fun collide => ?_⟩
      subst collide
      exact same (errands.unique k' k _ launch' launch)
  refine ⟨fun other waits => ?_, fun k' id' launch' => ?_, fun k₁ k₂ id' first second => ?_,
    fun k' id' registers => ?_⟩
  · by_cases same : other = place
    · subst same
      rw [here, Option.some_inj] at waits
      exact absurd waits settled
    · rw [elsewhere other same] at waits
      obtain ⟨k', launch'⟩ := errands.launcher other waits
      refine ⟨k', ?_⟩
      rw [Function.update_of_ne ?_, launch']
      intro collide
      subst collide
      rw [launch] at launch'
      cases launch'
      exact same rfl
  · obtain ⟨-, launch', apart⟩ := others k' id' launch'
    obtain ⟨other, rfl, above', waits⟩ := errands.reserved k' id' launch'
    refine ⟨other, rfl, above', ?_⟩
    rw [elsewhere other fun same => apart (congrArg (· + 1) same)]
    exact waits
  · exact errands.unique k₁ k₂ id' (others k₁ id' first).2.1 (others k₂ id' second).2.1
  · by_cases same : k' = k
    · subst same
      rw [Function.update_self] at registers
      rw [later id' registers]
      exact Nat.lt_succ_of_le above
    · rw [Function.update_of_ne same] at registers
      exact errands.earlier k' id' registers

/-- A context takes the next number for a goroutine. -/
theorem reserving (errands : Errands errand? phases) (idle : errand? k = none)
    (known : k ≤ phases.size) :
    Errands (Function.update errand? k (some (.launch (phases.size + 1)))) (phases.push .reserved) := by
  have old : ∀ {place : Nat} {phase : GoroutinePhase}, phases[place]? = some phase →
      (phases.push .reserved)[place]? = some phase := by
    intro place phase found
    obtain ⟨bound, -⟩ := Array.getElem?_eq_some_iff.mp found
    rw [Array.getElem?_push_lt bound, ← found, Array.getElem?_eq_getElem bound]
  have fresh : ∀ k', errand? k' ≠ some (.launch (phases.size + 1)) := by
    intro k' launch
    obtain ⟨place, number, -, waits⟩ := errands.reserved k' _ launch
    obtain ⟨bound, -⟩ := Array.getElem?_eq_some_iff.mp waits
    omega
  refine ⟨fun place waits => ?_, fun k' id launch => ?_, fun k₁ k₂ id first second => ?_,
    fun k' id registers => ?_⟩
  · rw [Array.getElem?_push] at waits
    split at waits
    · next last =>
      subst last
      exact ⟨k, Function.update_self ..⟩
    · obtain ⟨k', launch⟩ := errands.launcher place waits
      refine ⟨k', ?_⟩
      rw [Function.update_of_ne ?_, launch]
      intro same
      rw [same, idle] at launch
      cases launch
  · by_cases same : k' = k
    · subst same
      rw [Function.update_self] at launch
      cases launch
      exact ⟨phases.size, rfl, known, Array.getElem?_push_size⟩
    · rw [Function.update_of_ne same] at launch
      obtain ⟨place, number, above, waits⟩ := errands.reserved k' id launch
      exact ⟨place, number, above, old waits⟩
  · by_cases mine : k₁ = k
    · by_cases yours : k₂ = k
      · rw [mine, yours]
      · subst mine
        rw [Function.update_self] at first
        cases first
        rw [Function.update_of_ne yours] at second
        exact absurd second (fresh k₂)
    · rw [Function.update_of_ne mine] at first
      by_cases yours : k₂ = k
      · subst yours
        rw [Function.update_self] at second
        cases second
        exact absurd first (fresh k₁)
      · rw [Function.update_of_ne yours] at second
        exact errands.unique k₁ k₂ id first second
  · by_cases same : k' = k
    · subst same
      rw [Function.update_self] at registers
      cases registers
    · rw [Function.update_of_ne same] at registers
      exact errands.earlier k' id registers

/-- An action of a context that is there keeps the invariant, its own phase apart. -/
theorem effect (errands : Errands errand? c.goroutines) (effect : c.Effect e e' c')
    (mine : errand? k = e) (known : k ≤ c.goroutines.size) :
    Errands (Function.update errand? k e') c'.goroutines := by
  cases effect with
  | work goroutines handles =>
    rw [goroutines, ← mine, Function.update_eq_self]
    exact errands
  | reserve goroutines handles =>
    rw [goroutines]
    exact errands.reserving mine known
  | launch => exact errands.launched mine (by simp) (by simp) (by simp)
  | register => exact errands.update (by simp [mine]) (by simp) (by simp)
  | refuse => exact errands.launched mine (by simp) (by simp) (by simp)

end Errands

namespace Commons.Effect

variable {c c' : Commons} {e e' : Option Errand} {errand? : Nat → Option Errand} {k : Nat}

/-- Whoever acts, no other context gets an errand or loses one. -/
theorem errand?_bind (effect : c.Effect e e' c') (errands : Errands errand? c.goroutines)
    (mine : errand? k = e) (place : Nat) :
    (c'.goroutines[place]?).bind (·.errand?) = (c.goroutines[place]?).bind (·.errand?) := by
  have set : ∀ {id : Nat} {new : GoroutinePhase}, errand? k = some (.launch id) →
      new.errand? = none → ((c.goroutines.setIfInBounds (id - 1) new)[place]?).bind (·.errand?) =
        (c.goroutines[place]?).bind (·.errand?) := by
    intro id new launch none
    obtain ⟨there, rfl, -, waits⟩ := errands.reserved k id launch
    rw [Nat.add_sub_cancel, Array.getElem?_setIfInBounds]
    split
    · next here =>
      subst here
      obtain ⟨bound, -⟩ := Array.getElem?_eq_some_iff.mp waits
      rw [if_pos bound, waits]
      exact none
    · rfl
  cases effect with
  | work goroutines handles => rw [goroutines]
  | reserve goroutines handles =>
    rw [goroutines, Array.getElem?_push]
    split
    · next last =>
      subst last
      rw [Array.getElem?_eq_none (Nat.le_refl _)]
      rfl
    · rfl
  | launch => exact set mine rfl
  | register => rfl
  | refuse => exact set mine rfl

/-- A goroutine that is launched is not moved on by others. -/
theorem getElem? (effect : c.Effect e e' c') (errands : Errands errand? c.goroutines)
    (mine : errand? k = e) {place : Nat} {phase : GoroutinePhase}
    (found : c.goroutines[place]? = some phase) (settled : phase ≠ .reserved) :
    c'.goroutines[place]? = some phase := by
  have set : ∀ {id : Nat} {new : GoroutinePhase}, errand? k = some (.launch id) →
      (c.goroutines.setIfInBounds (id - 1) new)[place]? = some phase := by
    intro id new launch
    obtain ⟨there, rfl, -, waits⟩ := errands.reserved k id launch
    rw [Nat.add_sub_cancel, Array.getElem?_setIfInBounds_ne ?_, found]
    intro same
    rw [same, found] at waits
    exact settled (Option.some.inj waits)
  cases effect with
  | work goroutines handles => rw [goroutines, found]
  | reserve goroutines handles =>
    obtain ⟨bound, -⟩ := Array.getElem?_eq_some_iff.mp found
    rw [goroutines, Array.getElem?_push_lt bound, ← found, Array.getElem?_eq_getElem bound]
  | launch => exact set mine
  | register => exact found
  | refuse => exact set mine

end Commons.Effect

theorem World.errand?_goroutine {w : World} {id : Nat} {phase : GoroutinePhase}
    (found : w.commons.phase? id = some phase) : w.errand? (id - 1 + 1) = phase.errand? := by
  have there : w.commons.goroutines[id - 1]? = some phase := found
  simp only [errand?, there, Option.bind_some]

/-- What a goroutine does besides leaves it where it is. -/
theorem GoroutinePhase.phase?_after {c : Commons} {errand? : Nat → Option Errand} {k id : Nat}
    {phase : GoroutinePhase} (setting : Setting) (errands : Errands errand? c.goroutines)
    (mine : errand? k = phase.errand?) (found : c.phase? id = some phase) :
    (phase.after setting id c).2.phase? id = some phase := by
  by_cases unlaunched : phase = .reserved
  · subst unlaunched
    exact found
  · exact (phase.effect_after setting id c).getElem? errands mine found unlaunched

/-! ## Refused launches -/

/-- What a refused launch leads to. A context that has none to make is not affected. -/
inductive World.Refusal (reason : String) (w : World) : Context → World → Prop
  | none {context : Context} : Refusal reason w context w
  | main {id steps : Nat} : w.main.errand? = some (.launch id) →
    Refusal reason w .main ⟨.ended (.error (.spawnFailed reason)) steps,
      (w.commons.setPhase id .abandoned).onGroup .abandoned⟩
  | goroutine {own id : Nat} {a : Activity} : w.commons.phase? own = some (.active a) →
    a.errand? = some (.launch id) →
    Refusal reason w (.goroutine own) ⟨w.main,
      ((w.commons.setPhase id .abandoned).onGroup .abandoned).setPhase own
        (.ended (some (.spawnFailed reason)))⟩

theorem World.refusal (reason : String) (w : World) (context : Context) :
    w.Refusal reason context (w.refuse reason context) := by
  cases context with
  | main =>
    obtain ⟨main, c⟩ := w
    cases main with
    | active a =>
      cases a with
      | launching id task m => exact .main rfl
      | _ => exact .none
    | _ => exact .none
  | goroutine own =>
    unfold refuse
    dsimp only
    split
    · next a found =>
      cases a with
      | launching id task m => exact .goroutine found rfl
      | _ =>
        dsimp only [Activity.refuse, GoroutinePhase.ofProgress]
        rw [Commons.setPhase_self found]
        exact .none
    · exact .none

/-! ## Reachable worlds -/

namespace World.Errands

variable {main main' : MainPhase} {c c' : Commons} {id : Nat} {phase phase' : GoroutinePhase}

/-- The errands after an action of the main context. -/
theorem errand?_byMain (errands : World.Errands ⟨main, c⟩)
    (effect : c.Effect main.errand? main'.errand? c') :
    World.errand? ⟨main', c'⟩ = Function.update (World.errand? ⟨main, c⟩) 0 main'.errand? := by
  funext k
  cases k with
  | zero => rfl
  | succ place =>
    rw [Function.update_of_ne (Nat.succ_ne_zero place)]
    exact effect.errand?_bind errands (k := 0) rfl place

/-- An action of the main context keeps the invariant. -/
theorem byMain (errands : World.Errands ⟨main, c⟩)
    (effect : c.Effect main.errand? main'.errand? c') : World.Errands ⟨main', c'⟩ := by
  unfold World.Errands
  rw [errands.errand?_byMain effect]
  exact Errands.effect errands effect rfl (Nat.zero_le _)

/-- The errands after an action of a goroutine. -/
theorem errand?_byGoroutine (errands : World.Errands ⟨main, c⟩) (found : c.phase? id = some phase)
    (effect : c.Effect phase.errand? phase'.errand? c') (launched : phase ≠ .reserved) :
    World.errand? ⟨main, c'.setPhase id phase'⟩ =
      Function.update (World.errand? ⟨main, c⟩) (id - 1 + 1) phase'.errand? := by
  have mine : World.errand? ⟨main, c⟩ (id - 1 + 1) = phase.errand? := World.errand?_goroutine found
  have here : c'.goroutines[id - 1]? = some phase := effect.getElem? errands mine found launched
  obtain ⟨bound, -⟩ := Array.getElem?_eq_some_iff.mp here
  funext k
  cases k with
  | zero => rfl
  | succ place =>
    by_cases own : place = id - 1
    · subst own
      rw [Function.update_self]
      simp only [World.errand?, Commons.setPhase, Array.getElem?_setIfInBounds_self_of_lt bound,
        Option.bind_some]
    · rw [Function.update_of_ne fun same => own (Nat.succ.inj same)]
      have kept := effect.errand?_bind errands mine place
      simp only [World.errand?, Commons.setPhase, Array.getElem?_setIfInBounds_ne (Ne.symm own)]
      exact kept

/-- An action of a goroutine keeps the invariant. -/
theorem byGoroutine (errands : World.Errands ⟨main, c⟩) (found : c.phase? id = some phase)
    (effect : c.Effect phase.errand? phase'.errand? c') (launched : phase ≠ .reserved)
    (settled : phase' ≠ .reserved) : World.Errands ⟨main, c'.setPhase id phase'⟩ := by
  have mine : World.errand? ⟨main, c⟩ (id - 1 + 1) = phase.errand? := World.errand?_goroutine found
  obtain ⟨bound, -⟩ := Array.getElem?_eq_some_iff.mp found
  have acted : ControlStash.Errands (Function.update (World.errand? ⟨main, c⟩) (id - 1 + 1)
      phase'.errand?) c'.goroutines := Errands.effect errands effect mine bound
  have here : c'.goroutines[id - 1]? = some phase := effect.getElem? errands mine found launched
  unfold World.Errands
  rw [errands.errand?_byGoroutine found effect launched]
  exact acted.settle here launched settled

variable {setting : Setting} {w : World}

/-- Any action keeps the invariant. -/
theorem act (errands : w.Errands) (context : Context) : (w.act setting context).Errands := by
  obtain ⟨main, c⟩ := w
  cases context with
  | main =>
    cases main with
    | active a =>
      show World.Errands ⟨.ofProgress (a.act setting .main c).1, (a.act setting .main c).2⟩
      refine errands.byMain ?_
      rw [MainPhase.errand?_ofProgress]
      exact a.effect_act setting .main c
    | ended result steps => exact errands.byMain (.work rfl rfl)
    | closed result steps => exact errands.byMain (.work rfl rfl)
    | joining result steps taken =>
      -- Taking the listed goroutines changes neither errands nor phases.
      cases taken with
      | nil =>
        unfold World.act MainPhase.act
        dsimp only
        split <;> exact errands
      | cons id taken => exact errands
    | finished result steps => exact errands
  | goroutine id =>
    unfold World.act
    dsimp only
    split
    · next phase found =>
      by_cases launched : phase = .reserved
      · subst launched
        exact errands
      · rw [GoroutinePhase.act_eq_setPhase found]
        exact errands.byGoroutine found (phase.effect_after setting id c) launched
          (GoroutinePhase.after_ne_reserved launched)
    · exact errands

/-- A refused launch keeps the invariant. -/
theorem refuse (errands : w.Errands) (reason : String) (context : Context) :
    (w.refuse reason context).Errands := by
  have refusal := w.refusal reason context
  generalize w.refuse reason context = w' at refusal
  cases refusal with
  | none => exact errands
  | main launch =>
    refine errands.byMain ?_
    rw [launch]
    exact .refuse
  | goroutine found launch =>
    refine errands.byGoroutine found ?_ (by simp) (by simp)
    rw [show GoroutinePhase.errand? (.active _) = _ from launch]
    exact .refuse

/-- A program starts with no errands. -/
theorem initial (p : Program) : p.initial.Errands := by
  have none : ∀ k, p.initial.errand? k = none := by
    intro k
    cases k <;> rfl
  have no : ∀ {k errand}, p.initial.errand? k = some errand → False := by
    intro k errand some
    rw [none] at some
    cases some
  exact ⟨nofun, fun _ _ launch => (no launch).elim, fun _ _ _ launch => (no launch).elim,
    fun _ _ registers => (no registers).elim⟩

/-- The errands fit the goroutines in every reachable world. -/
theorem reachable {p : Program} (reachable : World.Reachable setting p.initial w) : w.Errands := by
  induction reachable with
  | start => exact initial p
  | act context _ _ ih => exact ih.act context
  | refuse reason context _ ih => exact ih.refuse reason context

end World.Errands

end ControlStash
