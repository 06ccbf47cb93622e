import Mathlib.Logic.Relation
import ControlStash.Proofs.Balance
import ControlStash.Proofs.Fail

/-!
# Runs of the main context alone

A program that starts no goroutine has one context, and nothing ever makes it sleep: a context waits
for others only, and there are none. `Solo` is the invariant behind this. Such a run is a sequence
of steps of one machine, which this module writes in two ways:

* `Ends`: the steps that the machine takes under the limits of a run. `ends_of_runUnder` and
  `runUnder_of_ends` tie them to the report that a run gives.
* `Finishes`: the steps that it takes without limits. A run that no limit puts an end to is one of
  these (`Ends.finishes`), and each of these is a run under all limits from some bound on
  (`Finishes.ends`).
-/

namespace ControlStash

/-! ## One context -/

/-- A reply to the main context leaves no goroutine running, and does not put the
context to sleep. -/
def Native.Reply.Idle : Native.Reply → Prop
  | .value _ s => s.group.running = 0
  | .fault _ s => s.group.running = 0
  | .asleep _ => False

/-- With no goroutine running, nobody but the main context can lower the counter, so it
does not wait. -/
theorem WaitGroup.wait_idle {group : WaitGroup} (idle : group.running = 0) :
    (group.wait .main).1 ≠ .asleep ∧ (group.wait .main).2.running = 0 := by
  have live : (group.enter .main).live = 0 := by simp [live, enter, idle]
  have verdict : (group.enter .main).verdict ≠ .asleep := by
    unfold verdict
    rw [if_pos live]
    split <;> simp
  unfold wait look
  split
  · next asleep => exact absurd asleep verdict
  · exact ⟨verdict, idle⟩

theorem WaitGroup.add_running {group group' : WaitGroup} {delta : Int64}
    (added : group.add delta = .ok group') : group'.running = group.running := by
  unfold add at added
  dsimp only at added
  split at added
  · cases added
  · split at added <;> cases added <;> rfl

theorem Native.invoke_idle {s : Shared} (idle : s.group.running = 0) (b : Builtin)
    (args : List Value) : (invoke .main s b args).Idle := by
  have answers := answers_invoke .main s b args
  generalize invoke .main s b args = reply at answers ⊢
  rcases answers with ⟨-, replies⟩ | -
  · cases replies
    case add added => exact (WaitGroup.add_running added).trans idle
    case wait =>
      have waited := WaitGroup.wait_idle idle
      unfold wait
      revert waited
      rcases s.group.wait .main with ⟨verdict, group⟩
      intro waited
      cases verdict with
      | released => exact waited.2
      | deadlocked counter => exact waited.2
      | asleep => exact absurd rfl waited.1
    all_goals exact idle
  · exact idle

/-- No goroutine has been started and none can be, and the stash is balanced. -/
structure Solo (m : Machine) (s : Shared) : Prop where
  machine : m.Holds Command.startsNone
  store : s.store.Holds (Value.Holds Command.startsNone)
  idle : s.group.running = 0
  balanced : Balanced false m.stash.size m.control.toList

section Steps

variable {protocol : CallProtocol} {globals : Env} {m m' : Machine} {s s' : Shared}

/-- A step is counted. -/
theorem Move.steps_next {role : Role} (move : Move protocol globals role m s (.next m' s')) :
    m'.steps = m.steps + 1 := by
  cases move <;> rfl

theorem Move.idle (idle : s.group.running = 0)
    (move : Move protocol globals .main m s (.next m' s')) : s'.group.running = 0 := by
  cases move
  case native arity b args v K S env k length reply =>
    have replied := Native.invoke_idle idle b args
    rw [reply] at replied
    exact replied
  all_goals exact idle

/-- A machine alone has the values that its next item takes. -/
theorem Solo.taken_le {item : Item} {K : List Item} (solo : Solo m s)
    (top : m.control.toList = item :: K) : item.taken ≤ m.stash.size := by
  have balanced := solo.balanced
  rw [top] at balanced
  exact balanced.taken_le

/-- A machine alone goes on alone, unless its context ends. -/
theorem Solo.move {o : Outcome} (solo : Solo m s) (move : Move protocol globals .main m s o) :
    ∃ m' s', o = .next m' s' ∧ Solo m' s' := by
  have holds := move.holds Command.heritable_startsNone solo.machine solo.store
  have balanced : o.Balanced false := move.balanced (by simp) solo.balanced
  cases o with
  | next m' s' => exact ⟨m', s', rfl, holds.1, holds.2, move.idle solo.idle, balanced⟩
  | asleep m' s' =>
    cases move
    case sleep arity b args K S env k length reply =>
      have replied := Native.invoke_idle solo.idle b args
      rw [reply] at replied
      cases replied
  | launch task m' s' =>
    cases move
    case launch | launchNative =>
      obtain ⟨callee, args, starts⟩ := solo.machine.items _ List.mem_cons_self
      cases starts
  | stop result m' s' => cases move

end Steps

/-! ## Steps under limits -/

/-- The main context, alone, ends under the limits of a setting. -/
inductive Ends (setting : Setting) :
    Machine → Shared → Except Fault Value → Machine → Shared → Prop
  | stop {m s result m' s'} : m.advance setting .main s = .stop result m' s' →
    Ends setting m s result m' s'
  | next {m s m₁ s₁ result m' s'} : m.advance setting .main s = .next m₁ s₁ →
    Ends setting m₁ s₁ result m' s' → Ends setting m s result m' s'

section Limited

variable {setting : Setting} {m m' : Machine} {s s' : Shared} {result : Except Fault Value}

theorem steps_lt_of_advance {role : Role} (goes : m.advance setting role s = .next m' s') :
    m.steps < setting.limits.steps := by
  unfold Machine.advance at goes
  split at goes
  · cases goes
  · dsimp only at goes
    split at goes
    · cases goes
    · omega

/-- A machine alone takes a step and goes on alone, or its context ends. -/
theorem Solo.advance (setting : Setting) (solo : Solo m s) :
    (∃ m' s', m.advance setting .main s = .next m' s' ∧ m'.steps = m.steps + 1 ∧ Solo m' s') ∨
      ∃ result m' s', m.advance setting .main s = .stop result m' s' := by
  rcases Machine.advance_cases setting .main m s with move | ⟨result, m', s', stops, -⟩
  · obtain ⟨m', s', eq, alone⟩ := solo.move move
    rw [eq] at move
    exact .inl ⟨m', s', eq, move.steps_next, alone⟩
  · exact .inr ⟨result, m', s', stops⟩

theorem Solo.of_next (solo : Solo m s) (goes : m.advance setting .main s = .next m' s') :
    Solo m' s' := by
  rcases solo.advance setting with ⟨_, _, goes', -, alone⟩ | ⟨_, _, _, stops⟩
  · rw [goes] at goes'
    cases goes'
    exact alone
  · rw [goes] at stops
    cases stops

/-- The step limit puts an end to every run. -/
theorem Solo.ends (solo : Solo m s) : ∃ result m' s', Ends setting m s result m' s' := by
  induction left : setting.limits.steps - m.steps using Nat.strongRecOn generalizing m s with
  | _ left ih =>
    rcases solo.advance setting with ⟨m₁, s₁, goes, counted, alone⟩ | ⟨result, m', s', stops⟩
    · have within := steps_lt_of_advance goes
      obtain ⟨result, m', s', ends⟩ := ih (setting.limits.steps - m₁.steps) (by omega) alone rfl
      exact ⟨result, m', s', .next goes ends⟩
    · exact ⟨result, m', s', .stop stops⟩

end Limited

/-! ## Steps without limits -/

/-- The least limits that two limits allow for. -/
def Limits.both (a b : Limits) : Limits :=
  ⟨max a.steps b.steps, max a.depth b.depth⟩

theorem Limits.both_le_iff {a b c : Limits} : a.both b ≤ c ↔ a ≤ c ∧ b ≤ c := by
  have unfolded : ∀ x : Limits, x ≤ c ↔ x.steps ≤ c.steps ∧ x.depth ≤ c.depth := fun _ => Iff.rfl
  simp only [unfolded, both, Nat.max_le]
  exact ⟨fun ⟨⟨h₁, h₂⟩, h₃, h₄⟩ => ⟨⟨h₁, h₃⟩, h₂, h₄⟩, fun ⟨⟨h₁, h₃⟩, h₂, h₄⟩ => ⟨⟨h₁, h₂⟩, h₃, h₄⟩⟩

/-- A step of the main context that no limit holds up. -/
def Step (protocol : CallProtocol) (globals : Env) (a b : Machine × Shared) : Prop :=
  a.1.act protocol globals .main a.2 = .next b.1 b.2

/-- Any number of steps of the main context. -/
abbrev Reach (protocol : CallProtocol) (globals : Env) :
    Machine × Shared → Machine × Shared → Prop :=
  Relation.ReflTransGen (Step protocol globals)

/-- The main context, alone, comes to an end. -/
def Finishes (protocol : CallProtocol) (globals : Env) (a : Machine × Shared)
    (result : Except Fault Value) (b : Machine × Shared) : Prop :=
  ∃ c, Reach protocol globals a c ∧ c.1.act protocol globals .main c.2 = .stop result b.1 b.2

section Unlimited

variable {protocol : CallProtocol} {globals : Env} {a b c : Machine × Shared} {m m' : Machine}
  {s s' : Shared} {result : Except Fault Value}

theorem Step.of_move (move : Move protocol globals .main m s (.next m' s')) :
    Step protocol globals (m, s) (m', s') :=
  move.act_eq

theorem Step.move (step : Step protocol globals (m, s) (m', s')) :
    Move protocol globals .main m s (.next m' s') := by
  have goes : (m.act protocol globals .main s).isStop = false := by
    rw [show m.act protocol globals .main s = _ from step]
    rfl
  have move := Machine.move_of_act goes
  rw [show m.act protocol globals .main s = _ from step] at move
  exact move

theorem Step.deterministic (first : Step protocol globals a b)
    (second : Step protocol globals a c) : b = c := by
  have same : Outcome.next b.1 b.2 = .next c.1 c.2 := Eq.trans (Eq.symm first) second
  injection same with machine shared
  exact Prod.ext machine shared

theorem Solo.step (solo : Solo a.1 a.2) (step : Step protocol globals a b) : Solo b.1 b.2 := by
  obtain ⟨m', s', eq, alone⟩ := solo.move (Step.move step)
  cases eq
  exact alone

theorem Solo.reach (solo : Solo a.1 a.2) (reach : Reach protocol globals a b) : Solo b.1 b.2 := by
  induction reach with
  | refl => exact solo
  | tail _ step ih => exact ih.step step

/-- A machine alone takes a step or comes to its end. -/
theorem Solo.act (protocol : CallProtocol) (globals : Env) (solo : Solo a.1 a.2) :
    (∃ b, Step protocol globals a b ∧ Solo b.1 b.2) ∨
      ∃ result, ∃ b : Machine × Shared,
        a.1.act protocol globals .main a.2 = .stop result b.1 b.2 := by
  rcases solo.advance ⟨a.1.room, globals, protocol⟩ with
    ⟨m', s', goes, -, alone⟩ | ⟨result, m', s', stops⟩
  · exact .inl ⟨(m', s'), goes, alone⟩
  · exact .inr ⟨result, (m', s'), stops⟩

/-- A machine alone ends by a rule. -/
theorem Solo.halts (solo : Solo a.1 a.2)
    (stops : a.1.act protocol globals .main a.2 = .stop result b.1 b.2) :
    Halts globals .main a.1 a.2 result b.1.steps b.2 :=
  Machine.halts_of_act (fun _ _ top => solo.taken_le top) stops

theorem Reach.steps_le (reach : Reach protocol globals a b) : a.1.steps ≤ b.1.steps := by
  induction reach with
  | refl => exact Nat.le_refl _
  | tail _ step ih =>
    exact Nat.le_trans ih (by rw [(Step.move step).steps_next]; exact Nat.le_succ _)

/-- What an end reaches on its way comes to the same end. -/
theorem Finishes.of_reach (finishes : Finishes protocol globals a result c)
    (reach : Reach protocol globals a b) : Finishes protocol globals b result c := by
  induction reach with
  | refl => exact finishes
  | tail _ step ih =>
    obtain ⟨d, on, stops⟩ := ih
    rcases Relation.ReflTransGen.cases_head on with rfl | ⟨e, first, rest⟩
    · rw [show _ = Outcome.next _ _ from step] at stops
      cases stops
    · cases first.deterministic step
      exact ⟨d, rest, stops⟩

theorem Finishes.head (reach : Reach protocol globals a b)
    (finishes : Finishes protocol globals b result c) : Finishes protocol globals a result c := by
  obtain ⟨d, on, stops⟩ := finishes
  exact ⟨d, reach.trans on, stops⟩

/-- A machine that comes to a state at its end finishes as a rule says. -/
theorem Finishes.of_halts {steps : Nat} (reach : Reach protocol globals a (m, s))
    (halts : Halts globals .main m s result steps s') :
    ∃ m', m'.steps = steps ∧ Finishes protocol globals a result (m', s') := by
  obtain ⟨m', counted, stops⟩ := halts.act protocol
  exact ⟨m', counted, (m, s), reach, stops⟩

theorem Finishes.deterministic {result' : Except Fault Value}
    (first : Finishes protocol globals a result b)
    (second : Finishes protocol globals a result' c) : result = result' ∧ b = c := by
  obtain ⟨d, reach, stops⟩ := first
  obtain ⟨e, on, stops'⟩ := second.of_reach reach
  rcases Relation.ReflTransGen.cases_head on with rfl | ⟨f, step, -⟩
  · rw [stops] at stops'
    injection stops' with result_eq machine shared
    exact ⟨result_eq, Prod.ext machine shared⟩
  · rw [show _ = Outcome.next _ _ from step] at stops
    cases stops

theorem Finishes.steps_le (solo : Solo a.1 a.2) (finishes : Finishes protocol globals a result b) :
    a.1.steps ≤ b.1.steps := by
  obtain ⟨c, reach, stops⟩ := finishes
  exact Nat.le_trans (Reach.steps_le reach) ((solo.reach reach).halts stops).steps_le

/-- A run that no limit puts an end to takes the steps it takes without limits. -/
theorem Ends.finishes {setting : Setting} (ends : Ends setting m s result m' s')
    (within : ∀ e, result = .error e → e.isLimit = false) :
    Finishes setting.protocol setting.globals (m, s) result (m', s') := by
  induction ends with
  | stop stops =>
    rename_i m s result m' s'
    have uncut : (m.advance setting .main s).isCut = false := by
      rw [stops]
      cases result with
      | ok v => rfl
      | error e => exact within e rfl
    have same := Machine.advance_eq_act_of_not_limit uncut
    exact ⟨(m, s), .refl, same.symm.trans stops⟩
  | next goes _ ih =>
    rename_i m s m₁ s₁ _ _ _ _
    have uncut : (m.advance setting .main s).isCut = false := by rw [goes]; rfl
    have same := Machine.advance_eq_act_of_not_limit uncut
    exact (ih within).head (.single (same.symm.trans goes))

/-- The steps without limits are those under all limits from some bound on. -/
theorem Finishes.ends (finishes : Finishes protocol globals a result b) :
    ∃ bound : Limits, ∀ limits, bound ≤ limits →
      Ends ⟨limits, globals, protocol⟩ a.1 a.2 result b.1 b.2 := by
  obtain ⟨c, reach, stops⟩ := finishes
  induction reach using Relation.ReflTransGen.head_induction_on with
  | refl =>
    exact ⟨c.1.room, fun limits enough => .stop ((Machine.advance_eq_act enough).trans stops)⟩
  | @head x y step _ ih =>
    obtain ⟨bound, ends⟩ := ih
    refine ⟨x.1.room.both bound, fun limits enough => ?_⟩
    obtain ⟨room, later⟩ := Limits.both_le_iff.mp enough
    exact .next ((Machine.advance_eq_act room).trans step) (ends limits later)

end Unlimited

/-! ## Unwinding -/

section Unwinding

open Machine (of)

variable {protocol : CallProtocol} {globals : Env} {M K : List Item} {S : List Value} {env : Env}
  {k : Nat} {s : Shared}

/-- A return discards the items above the mark. -/
theorem reach_reset (noMark : ∀ item ∈ M, item.isMark = false) :
    Reach protocol globals (of (.instruction .reset :: (M ++ K)) S env k, s)
      (of (.instruction .reset :: K) S env (k + M.length), s) := by
  induction M generalizing k with
  | nil => exact .refl
  | cons item M ih =>
    rw [List.forall_mem_cons] at noMark
    have rest := ih (k := k + 1) noMark.2
    rw [Nat.add_right_comm] at rest
    exact .head (Step.of_move (.resetDiscard noMark.1)) rest

/-- A throw discards the items above the catch. -/
theorem reach_throw (noCatch : ∀ item ∈ M, item.isCatch = false) :
    Reach protocol globals (of (.instruction .throw :: (M ++ K)) S env k, s)
      (of (.instruction .throw :: K) S env (k + M.length), s) := by
  induction M generalizing k with
  | nil => exact .refl
  | cons item M ih =>
    rw [List.forall_mem_cons] at noCatch
    have rest := ih (k := k + 1) noCatch.2
    rw [Nat.add_right_comm] at rest
    exact .head (Step.of_move (.throwDiscard noCatch.1)) rest

end Unwinding

/-! ## The world of one context -/

namespace World

variable {setting : Setting} {traced : Bool} {w : World} {turn : Turn}
  {trace : Array (Context × TraceEntry)} {m m' : Machine} {s s' : Shared}
  {result : Except Fault Value}

/-- The world of a main context without goroutines. -/
def alone (main : MainPhase) (s : Shared) : World :=
  ⟨main, ⟨s, #[], [], #[]⟩⟩

/-- The world that is left when the main context, alone, has ended. -/
def settled (result : Except Fault Value) (m : Machine) (s : Shared) : World :=
  alone (.finished result m.steps) { s with group := s.group.close.signal }

theorem next?_alone (main : MainPhase) (s : Shared) (i : Nat) :
    (alone main s).next? i = if (alone main s).canAct .main then some 0 else none := by
  have only : (List.range 1).map (fun k => (i + 1 + k) % 1) = [0] := by simp [Nat.mod_one]
  have found : (alone main s).next? i = [0].find? fun k => (alone main s).canAct (context k) := by
    rw [← only]
    rfl
  rw [found, List.find?_singleton]
  rfl

/-- The main context, alone, acts whenever it can. -/
theorem run_alone_of_act {P : World → Prop} {main : MainPhase} {fuel : Nat}
    (acts : (alone main s).canAct .main = true) (mains : turn.number = 0)
    (rest : ∀ turn trace, turn.number = 0 →
      P (((alone main s).act setting .main).run setting traced fuel turn trace).1) :
    P ((alone main s).run setting traced (fuel + 1) turn trace).1 := by
  have chosen : ∃ turn', (alone main s).choose? turn = some turn' ∧ turn'.number = 0 := by
    unfold choose?
    split
    · exact ⟨_, rfl, mains⟩
    · rw [next?_alone, if_pos acts]
      exact ⟨_, rfl, rfl⟩
  obtain ⟨turn', chosen, number⟩ := chosen
  simp only [World.run, chosen, number, context]
  exact rest turn' _ number

/-- A main context that cannot act, alone, stays as it is. -/
theorem run_alone_of_done {main : MainPhase} (done : (alone main s).canAct .main = false)
    (mains : turn.number = 0) (fuel : Nat) :
    ((alone main s).run setting traced fuel turn trace).1 = alone main s := by
  cases fuel with
  | zero => rfl
  | succ fuel =>
    have none : (alone main s).choose? turn = none := by
      unfold choose?
      rw [mains, show context 0 = .main from rfl, done, next?_alone, done]
      simp
    simp only [World.run, none]

/-- A main context that has ended, alone, is done after three more actions and not before. -/
theorem run_ended (mains : turn.number = 0) (fuel : Nat) :
    (fuel < 3 ∧
      ((alone (.ended result m.steps) s).run setting traced fuel turn trace).1.result? = none) ∨
    ((alone (.ended result m.steps) s).run setting traced fuel turn trace).1 =
      settled result m s := by
  match fuel with
  | 0 => exact .inl ⟨by omega, rfl⟩
  | fuel + 1 =>
    refine run_alone_of_act
      (P := fun w => (fuel + 1 < 3 ∧ w.result? = none) ∨ w = settled result m s) rfl mains
      fun turn₁ trace₁ mains₁ => ?_
    match fuel with
    | 0 => exact .inl ⟨by omega, rfl⟩
    | fuel + 1 =>
      refine run_alone_of_act
        (P := fun w => (fuel + 2 < 3 ∧ w.result? = none) ∨ w = settled result m s)
        (show (alone (.closed result m.steps) { s with group := s.group.close }).canAct .main = true
          from rfl) mains₁ fun turn₂ trace₂ mains₂ => ?_
      match fuel with
      | 0 => exact .inl ⟨by omega, rfl⟩
      | fuel + 1 =>
        refine run_alone_of_act
          (P := fun w => (fuel + 3 < 3 ∧ w.result? = none) ∨ w = settled result m s)
          (show (alone (.joining result m.steps [])
            { s with group := s.group.close.signal }).canAct .main = true from rfl) mains₂
          fun turn₃ trace₃ mains₃ => .inr ?_
        exact run_alone_of_done rfl mains₃ fuel

theorem act_alone_next (goes : m.advance setting .main s = .next m' s') :
    (alone (.active (.running m)) s).act setting .main = alone (.active (.running m')) s' := by
  simp only [World.act, alone, MainPhase.act, Activity.act, goes]
  rfl

theorem act_alone_stop (stops : m.advance setting .main s = .stop result m' s') :
    (alone (.active (.running m)) s).act setting .main = alone (.ended result m'.steps) s' := by
  simp only [World.act, alone, MainPhase.act, Activity.act, stops]
  rfl

/-- A finished run of a machine alone shows how the machine ends. -/
theorem ends_of_run (solo : Solo m s) (mains : turn.number = 0) (fuel : Nat) :
    ((alone (.active (.running m)) s).run setting traced fuel turn trace).1.result? = none ∨
      ∃ result m' s', Ends setting m s result m' s' ∧
        ((alone (.active (.running m)) s).run setting traced fuel turn trace).1 =
          settled result m' s' := by
  induction fuel generalizing m s turn trace with
  | zero => exact .inl rfl
  | succ fuel ih =>
    refine run_alone_of_act (P := fun w => w.result? = none ∨
      ∃ result m' s', Ends setting m s result m' s' ∧ w = settled result m' s') rfl mains
      fun turn trace mains => ?_
    rcases solo.advance setting with ⟨m₁, s₁, goes, -, alone⟩ | ⟨result, m', s', stops⟩
    · rw [act_alone_next goes]
      rcases ih alone mains with none | ⟨result, m', s', ends, done⟩
      · exact .inl none
      · exact .inr ⟨result, m', s', .next goes ends, done⟩
    · rw [act_alone_stop stops]
      rcases run_ended mains fuel with ⟨-, none⟩ | done
      · exact .inl none
      · exact .inr ⟨result, m', s', .stop stops, done⟩

/-- A machine that ends, alone, does so in a run that is given enough actions. -/
theorem run_of_ends (ends : Ends setting m s result m' s') :
    ∃ enough, ∀ fuel, enough ≤ fuel → ∀ turn trace, turn.number = 0 →
      ((alone (.active (.running m)) s).run setting traced fuel turn trace).1 =
        settled result m' s' := by
  induction ends with
  | stop stops =>
    refine ⟨4, fun fuel enough turn trace mains => ?_⟩
    obtain ⟨fuel, rfl⟩ := Nat.exists_eq_add_of_le' enough
    refine run_alone_of_act (P := (· = settled _ _ _)) rfl mains fun turn trace mains => ?_
    rw [act_alone_stop stops]
    exact (run_ended mains (fuel + 3)).resolve_left (by omega)
  | next goes _ ih =>
    obtain ⟨enough, done⟩ := ih
    refine ⟨enough + 1, fun fuel more turn trace mains => ?_⟩
    obtain ⟨fuel, rfl⟩ := Nat.exists_eq_add_of_le' (Nat.le_trans (Nat.le_add_left 1 enough) more)
    refine run_alone_of_act (P := (· = settled _ _ _)) rfl mains fun turn trace mains => ?_
    rw [act_alone_next goes]
    exact done fuel (by omega) turn trace mains

end World

/-! ## Programs -/

/-- A report shows the given result, the store and the printed lines of what was shared in the end,
and the given number of steps. -/
structure Report.Shows (report : Report) (result : Except Fault Value) (s : Shared) (steps : Nat) :
    Prop where
  result : report.result = result
  store : report.store = s.store
  output : report.output = s.output
  steps : report.steps = steps

/-- No limit has put an end to the run that a report is about. -/
def Report.Uncut (report : Report) : Prop :=
  ∀ e, report.result = .error e → e.isLimit = false

namespace Program

/-- Programs run under the economical protocol. -/
theorem run_eq_runUnder (p : Program) : p.run = p.runUnder .economical := rfl

/-- The machine of the main context at the start. -/
def machine (p : Program) : Machine :=
  .start [.command p.body] p.globals.1

/-- What the contexts share at the start. -/
def shared (p : Program) : Shared :=
  { store := p.globals.2, output := #[], group := {} }

theorem initial_eq_alone (p : Program) :
    p.initial = World.alone (.active (.running p.machine)) p.shared := rfl

section

variable {p : Program} {protocol : CallProtocol} {limits : Limits} {traced : Bool}
  {m : Machine} {s : Shared} {result : Except Fault Value}

/-- A program that starts no goroutine starts alone. -/
theorem solo (goFree : p.body.GoFree) : Solo p.machine p.shared := by
  have balanced : (balance false).World p.initial := balance_initial p (by simp)
  exact ⟨holds_start goFree, p.holds_globals, rfl, balanced.main.1⟩

theorem runUnder_eq_none {fuel : Nat}
    (unfinished :
      (p.initial.run (p.settingUnder protocol limits) traced fuel firstTurn #[]).1.result? =
      none) : p.runUnder protocol limits traced fuel = none := by
  unfold runUnder
  split
  next w trace eq =>
    rw [eq] at unfinished
    simp only [unfinished]

theorem runUnder_of_settled {fuel : Nat}
    (done : (p.initial.run (p.settingUnder protocol limits) traced fuel firstTurn #[]).1 =
      World.settled result m s) :
    ∃ report, p.runUnder protocol limits traced fuel = some report ∧
      report.Shows result s m.steps := by
  unfold runUnder
  split
  next w trace eq =>
    rw [eq] at done
    subst done
    cases result with
    | ok v => exact ⟨_, rfl, rfl, rfl, rfl, rfl⟩
    | error e => exact ⟨_, rfl, rfl, rfl, rfl, rfl⟩

/-- The report of a finished run shows how the machine ends. -/
theorem ends_of_runUnder {fuel : Nat} {report : Report} (goFree : p.body.GoFree)
    (ran : p.runUnder protocol limits traced fuel = some report) :
    ∃ result m s, Ends (p.settingUnder protocol limits) p.machine p.shared result m s ∧
      report.Shows result s m.steps := by
  have mains : firstTurn.number = 0 := rfl
  rcases World.ends_of_run (solo goFree) mains fuel with unfinished | ⟨result, m, s, ends, done⟩
  · rw [runUnder_eq_none unfinished] at ran
    cases ran
  · obtain ⟨report', ran', shows⟩ := runUnder_of_settled done
    rw [ran] at ran'
    cases ran'
    exact ⟨result, m, s, ends, shows⟩

/-- A machine that ends has its end shown by every run that is given enough actions. -/
theorem runUnder_of_ends (traced : Bool)
    (ends : Ends (p.settingUnder protocol limits) p.machine p.shared result m s) :
    ∃ enough, ∀ fuel, enough ≤ fuel →
      ∃ report, p.runUnder protocol limits traced fuel = some report ∧
        report.Shows result s m.steps := by
  obtain ⟨enough, done⟩ := World.run_of_ends ends
  exact ⟨enough, fun fuel more => runUnder_of_settled (done fuel more firstTurn #[] rfl)⟩

/-- A program that starts no goroutine ends under all limits. -/
theorem isSome_runUnder (goFree : p.body.GoFree) (protocol : CallProtocol) (limits : Limits)
    (traced : Bool) :
    ∃ enough, ∀ fuel, enough ≤ fuel → (p.runUnder protocol limits traced fuel).isSome = true := by
  have ended : ∃ result m s, Ends (p.settingUnder protocol limits) p.machine p.shared result m s :=
    (solo goFree).ends
  obtain ⟨result, m, s, ends⟩ := ended
  obtain ⟨enough, finished⟩ := runUnder_of_ends traced ends
  refine ⟨enough, fun fuel more => ?_⟩
  obtain ⟨report, ran, -⟩ := finished fuel more
  exact Option.isSome_of_eq_some ran

/-- A run that no limit puts an end to shows how the machine finishes without limits. -/
theorem finishes_of_runUnder {fuel : Nat} {report : Report} (goFree : p.body.GoFree)
    (ran : p.runUnder protocol limits traced fuel = some report) (uncut : report.Uncut) :
    ∃ result b, Finishes protocol p.globals.1 (p.machine, p.shared) result b ∧
      report.Shows result b.2 b.1.steps := by
  obtain ⟨result, m, s, ends, shows⟩ := ends_of_runUnder goFree ran
  rw [Report.Uncut, shows.result] at uncut
  exact ⟨result, (m, s), ends.finishes uncut, shows⟩

/-- A machine that finishes without limits has its end shown by every run with
large enough limits. -/
theorem runUnder_of_finishes {b : Machine × Shared}
    (finishes : Finishes protocol p.globals.1 (p.machine, p.shared) result b) :
    ∃ bound : Limits, ∀ limits, bound ≤ limits → ∀ traced, ∃ enough, ∀ fuel, enough ≤ fuel →
      ∃ report, p.runUnder protocol limits traced fuel = some report ∧
        report.Shows result b.2 b.1.steps := by
  obtain ⟨bound, ends⟩ := finishes.ends
  exact ⟨bound, fun limits enough traced => runUnder_of_ends traced (ends limits enough)⟩

/-- In every world that a program without goroutines comes to, the main context is alone, and the
machine that it is about to step is one that it comes to without limits. -/
theorem reachable_alone {w : World} (goFree : p.body.GoFree)
    (reachable : World.Reachable (p.settingUnder protocol limits) p.initial w) :
    ∃ main s, w = World.alone main s ∧ ∀ a, main = .active a →
      ∃ m, a = .running m ∧ Solo m s ∧ Reach protocol p.globals.1 (p.machine, p.shared) (m, s) := by
  induction reachable with
  | start =>
    refine ⟨_, _, initial_eq_alone p, fun a active => ?_⟩
    cases active
    exact ⟨p.machine, rfl, solo goFree, .refl⟩
  | act context _ acts ih =>
    obtain ⟨main, s, rfl, running⟩ := ih
    cases context with
    | goroutine id => cases acts
    | main =>
      cases main with
      | active a =>
        obtain ⟨m, rfl, alone, reach⟩ := running a rfl
        rcases alone.advance (p.settingUnder protocol limits) with
          ⟨m', s', goes, -, alone'⟩ | ⟨result, m', s', stops⟩
        · rw [World.act_alone_next goes]
          refine ⟨_, s', rfl, fun a active => ?_⟩
          cases active
          have uncut : (m.advance (p.settingUnder protocol limits) .main s).isCut = false := by
            rw [goes]
            rfl
          exact ⟨m', rfl, alone', reach.tail
            ((Machine.advance_eq_act_of_not_limit uncut).symm.trans goes)⟩
        · rw [World.act_alone_stop stops]
          exact ⟨_, s', rfl, (by simp)⟩
      | ended result steps => exact ⟨_, _, rfl, (by simp)⟩
      | closed result steps => exact ⟨_, _, rfl, (by simp)⟩
      | joining result steps taken =>
        cases taken with
        | nil => exact ⟨_, _, rfl, (by simp)⟩
        | cons id taken => exact ⟨_, _, rfl, (by simp)⟩
      | finished result steps => exact ⟨_, _, rfl, (by simp)⟩
  | refuse reason context _ ih =>
    obtain ⟨main, s, rfl, running⟩ := ih
    cases context with
    | goroutine id => exact ⟨main, s, rfl, running⟩
    | main =>
      cases main with
      | active a =>
        obtain ⟨m, rfl, alone, reach⟩ := running a rfl
        exact ⟨_, s, rfl, running⟩
      | _ => exact ⟨_, s, rfl, running⟩

/-- What the machine comes to without limits, it comes to in a run under limits that
are large enough. -/
theorem reachable_of_reach {b : Machine × Shared}
    (reach : Reach protocol p.globals.1 (p.machine, p.shared) b) :
    ∃ bound : Limits, ∀ limits, bound ≤ limits →
      World.Reachable (p.settingUnder protocol limits) p.initial
        (World.alone (.active (.running b.1)) b.2) := by
  induction reach with
  | refl => exact ⟨⟨0, 0⟩, fun _ _ => .start⟩
  | @tail b c _ step ih =>
    obtain ⟨bound, reachable⟩ := ih
    refine ⟨b.1.room.both bound, fun limits enough => ?_⟩
    obtain ⟨room, earlier⟩ := Limits.both_le_iff.mp enough
    have goes : b.1.advance (p.settingUnder protocol limits) .main b.2 = .next c.1 c.2 :=
      (Machine.advance_eq_act room).trans step
    rw [← World.act_alone_next goes]
    exact .act .main (reachable limits earlier) rfl

end

end Program

end ControlStash
