import ControlStash.Proofs.Course

/-!
# What a released wait guarantees

The counter of the wait group is moved by what contexts add to it and by goroutines that finish. Along
a course both can be summed up: the counter never falls below what has been added less the goroutines
that have finished, although it stops at zero. So a context that finds the counter at zero knows that
as many goroutines have finished as have been added (`join_guarantee`).
-/

namespace ControlStash

open WaitGroup (Deed Does)

/-! ## The counter -/

namespace WaitGroup

theorem toInt_saturatingAdd (a b : Int64) :
    (saturatingAdd a b).toInt =
      max Int64.minValue.toInt (min Int64.maxValue.toInt (a.toInt + b.toInt)) := by
  have lower := Int64.toInt_minValue
  have upper := Int64.toInt_maxValue
  exact Int64.toInt_ofInt_of_le (by omega) (by omega)

/-- What a deed adds to the counter. -/
def Deed.delta : Deed → Int
  | .add delta => delta.toInt
  | _ => 0

/-- The counter after a deed. -/
def Deed.counter (counter : Int) : Deed → Int
  | .add delta => max Int64.minValue.toInt (min Int64.maxValue.toInt (counter + delta.toInt))
  | .finish => max (counter - 1) 0
  | _ => counter

/-- Whether a deed adds to the counter. -/
def Deed.isAdd : Deed → Bool
  | .add _ => true
  | _ => false

/-- Unless a sum is cut off at the end of the range, a deed takes no more off the counter than one
for a goroutine that finishes. -/
theorem Deed.le_counter (deed : Deed) {counter : Int}
    (room : counter + deed.delta ≤ Int64.maxValue.toInt) :
    counter + deed.delta - (if deed = .finish then 1 else 0) ≤ deed.counter counter := by
  cases deed with
  | add delta =>
    have room : counter + delta.toInt ≤ Int64.maxValue.toInt := room
    rw [if_neg nofun]
    show counter + delta.toInt - 0 ≤
      max Int64.minValue.toInt (min Int64.maxValue.toInt (counter + delta.toInt))
    omega
  | finish =>
    rw [if_pos rfl]
    show counter + 0 - 1 ≤ max (counter - 1) 0
    omega
  | _ =>
    rw [if_neg nofun]
    show counter + 0 - 0 ≤ counter
    omega

theorem Deed.counter_of_not_add {deed : Deed} (other : deed.isAdd = false) {counter : Int}
    (nonneg : 0 ≤ counter) :
    deed.counter counter = max (counter - (if deed = .finish then 1 else 0)) 0 := by
  cases deed with
  | add delta => cases other
  | finish => rw [if_pos rfl]; rfl
  | _ =>
    rw [if_neg nofun]
    show counter = max (counter - 0) 0
    omega

variable {role : Role} {old new : Stance} {group group' : WaitGroup} {deed : Deed}

theorem Looks.counter {found : Verdict} (looks : Looks role group found group') :
    group'.counter = group.counter := by
  have left : (group.leave role).counter = group.counter := by cases role <;> rfl
  cases looks with
  | released _ => exact left
  | deadlocked _ _ => exact left
  | asleep _ _ => rfl

theorem Does.counter (does : Does role old group deed new group') (nonneg : 0 ≤ group.counter) :
    group'.counter.toInt = deed.counter group.counter.toInt := by
  cases does with
  | add added => exact (added_of_add added).counter ▸ toInt_saturatingAdd _ _
  | wait waited =>
    have entered : (group.enter role).counter = group.counter := by cases role <;> rfl
    rw [(looks_of_look waited).counter, entered]
    rfl
  | look looked =>
    rw [(looks_of_look looked).counter]
    rfl
  | finish _ => exact toInt_counter_finished nonneg
  | _ => rfl

/-- Who is released from waiting has not found the counter positive. -/
theorem Does.not_pos_of_released (does : Does role old group deed new group')
    (found : deed.found? = some .released) : ¬ 0 < group.counter := by
  have looks : ∀ {group group' : WaitGroup}, Looks role group .released group' →
      ¬ 0 < group.counter := by
    intro group group' looks
    cases looks with
    | released notPositive => exact notPositive
  cases does with
  | wait waited =>
    cases found
    have entered : (group.enter role).counter = group.counter := by cases role <;> rfl
    rw [← entered]
    exact looks (looks_of_look waited)
  | look looked =>
    cases found
    exact looks (looks_of_look looked)
  | _ => cases found

/-- Who does not wait and has not waited before is not waiting. -/
theorem Does.not_waiting (does : Does role old group deed new group') (none : deed.found? = none)
    (before : old.isWaiting = false) : new.isWaiting = false := by
  cases does with
  | rest => exact before
  | wait _ => cases none
  | look _ => cases none
  | _ => rfl

end WaitGroup

namespace Roster.Step

variable {r r' : Roster} {deed : Deed}

theorem counter (step : r.Step deed r') (books : r.Books) :
    r'.group.counter.toInt = deed.counter r.group.counter.toInt := by
  cases step with
  | main does => exact does.counter books.nonneg
  | goroutine here does => exact does.counter books.nonneg
  | abandon here => rfl

theorem not_pos_of_released (step : r.Step deed r') (found : deed.found? = some .released) :
    ¬ 0 < r.group.counter := by
  cases step with
  | main does => exact does.not_pos_of_released found
  | goroutine here does => exact does.not_pos_of_released found
  | abandon here => cases found

theorem not_waiting_newcomers {stances : List Stance}
    (before : ∀ stance ∈ stances, stance.isWaiting = false) :
    ∀ stance ∈ stances ++ deed.newcomers, stance.isWaiting = false := by
  intro stance member
  rcases List.mem_append.mp member with old | added
  · exact before stance old
  · cases deed with
    | start =>
      rw [List.mem_singleton.mp added]
      rfl
    | _ => cases added

/-- Unless somebody begins to wait, no goroutine waits that did not before. -/
theorem not_waiting (step : r.Step deed r') (none : deed.found? = none)
    (before : ∀ stance ∈ r.goroutines, stance.isWaiting = false) :
    ∀ stance ∈ r'.goroutines, stance.isWaiting = false := by
  cases step with
  | main does => exact not_waiting_newcomers before
  | goroutine here does =>
    refine not_waiting_newcomers fun stance member => ?_
    rcases List.mem_or_eq_of_mem_set member with old | rfl
    · exact before stance old
    · exact does.not_waiting none (before _ (List.mem_of_getElem? here))
  | abandon here =>
    intro stance member
    rcases List.mem_or_eq_of_mem_set member with old | rfl
    · exact before stance old
    · rfl

end Roster.Step

/-- What an action does to the wait group. A refused launch counts as rest, since it neither adds to the
counter nor finishes a goroutine. -/
def Action.deed (setting : Setting) (w : World) : Action → Deed
  | .act context => w.deed setting context
  | _ => .rest

namespace World

variable {setting : Setting} {w : World}

theorem Accounted.counter_proceed (accounted : w.Accounted) (action : Action) :
    (w.proceed setting action).commons.shared.group.counter.toInt =
      (action.deed setting w).counter w.commons.shared.group.counter.toInt := by
  cases action with
  | act context => exact (step_roster accounted.errands context).counter accounted.books
  | refuse reason context =>
    rcases refuse_roster accounted.errands reason context with same | step
    · exact congrArg (fun r : Roster => r.group.counter.toInt) same
    · exact step.counter accounted.books
  | relist handles => rfl

end World

/-! ## Goroutines that have finished -/

namespace GoroutinePhase

/-- Whether a goroutine has been launched. -/
def isLaunched : GoroutinePhase → Bool
  | .reserved => false
  | .abandoned => false
  | _ => true

/-- Whether a goroutine has run to its end. -/
def hasFinished : GoroutinePhase → Bool
  | .gone => true
  | _ => false

variable {setting : Setting} {id : Nat} {phase : GoroutinePhase} {c : Commons}

/-- A goroutine that is not over goes on, except for its last action. -/
theorem phase_of_stance_after (departed : (phase.after setting id c).1.stance = .gone) :
    phase = .recorded ∨ phase = .gone ∨ phase = .abandoned := by
  have ofReply : ∀ reply : Native.Reply, (ofReply reply).1.stance ≠ .gone := by
    intro reply
    cases reply <;> simp [GoroutinePhase.ofReply, stance]
  have ofProgress : ∀ progress : Progress, (ofProgress progress).stance ≠ .gone := by
    intro progress
    rw [stance_ofProgress]
    rcases progress with a | ⟨result, steps⟩
    · cases a <;> simp [Progress.stance]
    · simp [Progress.stance]
  cases phase with
  | recorded => exact .inl rfl
  | gone => exact .inr (.inl rfl)
  | abandoned => exact .inr (.inr rfl)
  | starting task =>
    cases task with
    | body command env => cases departed
    | builtin b args => exact absurd departed (ofReply _)
  | active a => exact absurd departed (ofProgress _)
  | waitingBuiltin since => exact absurd departed (ofReply _)
  | ended failure => cases failure <;> cases departed
  | reserved => cases departed

/-- A goroutine finishes by its last action. -/
theorem deed_eq_finish_iff : phase.deed setting c.shared = .finish ↔ phase = .recorded := by
  refine ⟨fun finishes => ?_, fun last => by rw [last]; rfl⟩
  have does := phase.does_after setting 0 c
  rw [finishes] at does
  obtain ⟨-, busy, departed⟩ := does.of_finish
  rcases phase_of_stance_after departed with last | rfl | rfl
  · exact last
  · cases busy
  · cases busy

theorem hasFinished_after :
    (phase.after setting id c).1.hasFinished = true ↔ phase = .recorded ∨ phase = .gone := by
  refine ⟨fun finished => ?_, by rintro (rfl | rfl) <;> rfl⟩
  have departed : (phase.after setting id c).1.stance = .gone := by
    generalize (phase.after setting id c).1 = new at finished
    cases new with
    | gone => rfl
    | _ => cases finished
  rcases phase_of_stance_after departed with last | gone | rfl
  · exact .inl last
  · exact .inr gone
  · cases finished

end GoroutinePhase

namespace Commons

/-- The number of goroutines that have been launched. -/
def launched (c : Commons) : Nat :=
  c.goroutines.toList.countP (·.isLaunched)

/-- The number of goroutines that have run to their ends. -/
def finished (c : Commons) : Nat :=
  c.goroutines.toList.countP (·.hasFinished)

variable {c c' : Commons} {e e' : Option Errand} {errand? : Nat → Option Errand} {k : Nat}

/-- If no more goroutines have been launched than have finished, each that was launched is gone. -/
theorem gone_of_launched_le (all : c.launched ≤ c.finished) {phase : GoroutinePhase}
    (member : phase ∈ c.goroutines) (launched : phase.isLaunched = true) : phase = .gone := by
  have sublist : (c.goroutines.toList.filter (·.hasFinished)).Sublist
      (c.goroutines.toList.filter (·.isLaunched)) := by
    refine List.monotone_filter_right _ fun phase finished => ?_
    cases phase with
    | gone => rfl
    | _ => cases finished
  have same := sublist.eq_of_length_le (by
    rw [← List.countP_eq_length_filter, ← List.countP_eq_length_filter]
    exact all)
  have listed : phase ∈ c.goroutines.toList.filter (·.isLaunched) :=
    List.mem_filter.mpr ⟨Array.mem_toList_iff.mpr member, launched⟩
  rw [← same] at listed
  have finished := (List.mem_filter.mp listed).2
  cases phase with
  | gone => rfl
  | _ => cases finished

theorem launched_le_finished (departed : ∀ phase ∈ c.goroutines, phase.stance = .gone) :
    c.launched ≤ c.finished := by
  refine List.countP_mono_left fun phase member launched => ?_
  have gone := departed phase (Array.mem_toList_iff.mp member)
  rcases GoroutinePhase.stance_eq_gone_iff.mp gone with rfl | rfl
  · rfl
  · cases launched

theorem finished_setPhase {id : Nat} {old : GoroutinePhase} (found : c.phase? id = some old)
    (new : GoroutinePhase) :
    (c.setPhase id new).finished + (if old.hasFinished then 1 else 0) =
      c.finished + (if new.hasFinished then 1 else 0) := by
  have there : c.goroutines.toList[id - 1]? = some old := by
    rw [Array.getElem?_toList]
    exact found
  unfold finished setPhase
  dsimp only
  rw [Array.toList_setIfInBounds]
  exact countP_set_of_getElem? there new _

/-- No other goroutine finishes by what a context does. -/
theorem Effect.finished (effect : c.Effect e e' c') (errands : Errands errand? c.goroutines)
    (mine : errand? k = e) : c'.finished = c.finished := by
  have set : ∀ {id : Nat} {new : GoroutinePhase}, errand? k = some (.launch id) →
      new.hasFinished = false → (c.setPhase id new).finished = c.finished := by
    intro id new launch unfinished
    obtain ⟨place, rfl, -, waits⟩ := errands.reserved k id launch
    have found : c.phase? (place + 1) = some .reserved := waits
    have counted := finished_setPhase found new
    rw [unfinished] at counted
    exact counted
  cases effect with
  | work goroutines handles =>
    unfold Commons.finished
    rw [goroutines]
  | reserve goroutines handles =>
    unfold Commons.finished
    rw [goroutines, Array.toList_push, List.countP_append]
    rfl
  | launch => exact set mine rfl
  | register => rfl
  | refuse => exact set mine rfl

end Commons

namespace World

variable {setting : Setting} {w : World}

theorem Accounted.finished_act (accounted : w.Accounted) (context : Context) :
    (w.act setting context).commons.finished =
      w.commons.finished + (if w.deed setting context = .finish then 1 else 0) := by
  cases context with
  | main =>
    obtain ⟨main, c⟩ := w
    have other : ¬ World.deed setting ⟨main, c⟩ .main = .finish := by
      intro finishes
      have does := main.does_act setting c
      rw [show main.deed setting c.shared = .finish from finishes] at does
      cases does.of_finish.1
    rw [if_neg other]
    by_cases active : ∃ a, main = .active a
    · obtain ⟨a, rfl⟩ := active
      exact (a.effect_act setting .main c).finished accounted.errands (k := 0) rfl
    · obtain ⟨group, handles, same⟩ :=
        main.commons_act setting c fun a running => active ⟨a, running⟩
      have kept : (main.act setting c).commons.finished = c.finished := by
        rw [same]
        rfl
      exact kept
  | goroutine id =>
    rcases found : w.commons.phase? id with _ | phase
    · simp [World.act, deed, found]
    · have mine := errand?_goroutine found
      have others := (phase.effect_after setting id w.commons).finished accounted.errands mine
      have counted := Commons.finished_setPhase
        (phase.phase?_after setting accounted.errands mine found) (phase.after setting id w.commons).1
      rw [act_goroutine found, deed_goroutine found]
      by_cases last : phase = .recorded
      · subst last
        exact counted.trans (congrArg (· + 1) others)
      · have same : (phase.after setting id w.commons).1.hasFinished = phase.hasFinished := by
          rw [Bool.eq_iff_iff, GoroutinePhase.hasFinished_after]
          cases phase with
          | recorded => exact absurd rfl last
          | _ => simp [GoroutinePhase.hasFinished]
        rw [same] at counted
        rw [if_neg (mt GoroutinePhase.deed_eq_finish_iff.mp last)]
        dsimp only
        omega

theorem Accounted.finished_refuse (accounted : w.Accounted) (reason : String) (context : Context) :
    (w.refuse reason context).commons.finished = w.commons.finished := by
  have refusal := w.refusal reason context
  generalize w.refuse reason context = w' at refusal
  cases refusal with
  | none => rfl
  | main launch => exact Commons.Effect.refuse.finished accounted.errands (k := 0) launch
  | goroutine found launch =>
    have mine := (errand?_goroutine found).trans launch
    have here := Commons.Effect.refuse.getElem? accounted.errands mine found (by simp)
    have counted := Commons.finished_setPhase here (.ended (some (.spawnFailed reason)))
    exact counted.trans (Commons.Effect.refuse.finished accounted.errands mine)

theorem Accounted.finished_proceed (accounted : w.Accounted) (action : Action) :
    (w.proceed setting action).commons.finished =
      w.commons.finished + (if action.deed setting w = .finish then 1 else 0) := by
  cases action with
  | act context => exact accounted.finished_act context
  | refuse reason context => exact accounted.finished_refuse reason context
  | relist handles => rfl

/-! ## Sums over a course -/

/-- The sum of all that has been added to the counter. A sum that was refused is not in it. -/
def added (setting : Setting) (past : List (World × Action)) : Int :=
  past.foldl (fun sum event => sum + (event.2.deed setting event.1).delta) 0

/-- The number of goroutines that have finished. -/
def finishes (setting : Setting) (past : List (World × Action)) : Nat :=
  past.countP fun event => event.2.deed setting event.1 = .finish

/-- Nothing that was added has been cut off at the end of the range. -/
def Unsaturated (setting : Setting) (past : List (World × Action)) : Prop :=
  ∀ event ∈ past, event.1.commons.shared.group.counter.toInt +
    (event.2.deed setting event.1).delta ≤ Int64.maxValue.toInt

theorem finishes_append (past : List (World × Action)) (w : World) (action : Action) :
    finishes setting (past ++ [(w, action)]) =
      finishes setting past + (if action.deed setting w = .finish then 1 else 0) := by
  simp [finishes, List.countP_append, List.countP_singleton]

namespace Course

variable {start : World} {past : List (World × Action)}

/-- The goroutines that are gone are those that have finished along the course. -/
theorem finished_eq (course : Course setting start past w) (accounted : start.Accounted) :
    w.commons.finished = start.commons.finished + finishes setting past := by
  induction course with
  | start => rfl
  | @step past w action course _ ih =>
    rw [(course.accounted accounted).finished_proceed, ih, finishes_append, Nat.add_assoc]

/-- The counter is at least what has been added less what has finished. -/
theorem le_counter (course : Course setting start past w) (accounted : start.Accounted)
    (unsaturated : Unsaturated setting past) :
    start.commons.shared.group.counter.toInt + added setting past - finishes setting past ≤
      w.commons.shared.group.counter.toInt := by
  induction course with
  | start => simp [added, finishes]
  | @step past w action course _ ih =>
    have before := ih fun event member => unsaturated event (List.mem_append_left _ member)
    have room : w.commons.shared.group.counter.toInt + (action.deed setting w).delta ≤ _ :=
      unsaturated (w, action) (by simp)
    have step := (action.deed setting w).le_counter room
    rw [← (course.accounted accounted).counter_proceed action] at step
    have sum : added setting (past ++ [(w, action)]) =
        added setting past + (action.deed setting w).delta := by
      simp [added]
    rw [sum, finishes_append]
    by_cases last : action.deed setting w = .finish
    · rw [if_pos last] at step ⊢
      omega
    · rw [if_neg last] at step ⊢
      omega

/-- If nothing is added, the counter goes down by one for each goroutine that finishes, until it is
zero. -/
theorem counter_eq (course : Course setting start past w) (accounted : start.Accounted)
    (none : ∀ event ∈ past, (event.2.deed setting event.1).isAdd = false) :
    w.commons.shared.group.counter.toInt =
      max (start.commons.shared.group.counter.toInt - finishes setting past) 0 := by
  induction course with
  | start =>
    have nonneg : 0 ≤ start.commons.shared.group.counter.toInt :=
      Int64.le_iff_toInt_le.mp accounted.books.nonneg
    simp only [finishes, List.countP_nil]
    omega
  | @step past w action course _ ih =>
    have before := ih fun event member => none event (List.mem_append_left _ member)
    have other : (action.deed setting w).isAdd = false := none (w, action) (by simp)
    rw [(course.accounted accounted).counter_proceed, WaitGroup.Deed.counter_of_not_add other (by omega),
      before, finishes_append]
    by_cases last : action.deed setting w = .finish
    · rw [if_pos last, if_pos last]
      omega
    · rw [if_neg last, if_neg last]
      omega

/-- If no goroutine begins to wait, none is waiting. -/
theorem not_waiting (course : Course setting start past w) (accounted : start.Accounted)
    (before : ∀ stance ∈ start.roster.goroutines, stance.isWaiting = false)
    (none : ∀ event ∈ past, event.2 ≠ .act .main →
      (event.2.deed setting event.1).found? = .none) :
    ∀ stance ∈ w.roster.goroutines, stance.isWaiting = false := by
  induction course with
  | start => exact before
  | @step past w action course _ ih =>
    have before := ih fun event member => none event (List.mem_append_left _ member)
    have accounted := course.accounted accounted
    have here := none (w, action) (by simp)
    cases action with
    | act context =>
      cases context with
      | main =>
        have stances : (w.main.act setting w.commons).commons.stances = _ :=
          MainPhase.stances_act accounted.errands (k := 0) rfl
        rw [show (w.proceed setting (.act .main)).roster.goroutines = _ from stances]
        exact Roster.Step.not_waiting_newcomers before
      | goroutine id =>
        exact (step_roster accounted.errands (.goroutine id)).not_waiting (here (by simp)) before
    | refuse reason context =>
      rcases refuse_roster accounted.errands reason context with same | step
      · rw [show (w.proceed setting (.refuse reason context)).roster = _ from same]
        exact before
      · exact step.not_waiting rfl before
    | relist handles => exact before

end Course

/-- If no goroutine is busy and none waits, all of them are gone. -/
theorem Accounted.stance_eq_gone (accounted : w.Accounted)
    (notBusy : ∀ stance ∈ w.roster.goroutines, stance ≠ .busy)
    (notWaiting : ∀ stance ∈ w.roster.goroutines, stance.isWaiting = false) {phase : GoroutinePhase}
    (member : phase ∈ w.commons.goroutines) : phase.stance = .gone := by
  obtain ⟨place, there⟩ := Array.mem_iff_getElem?.mp member
  have listed : phase.stance ∈ w.roster.goroutines :=
    List.mem_of_getElem? (Commons.getElem?_stances_of there)
  cases stands : phase.stance with
  | gone => rfl
  | busy => exact absurd stands (notBusy _ listed)
  | closing => exact absurd stands (accounted.books.notClosing _ listed)
  | waiting since =>
    have idle := notWaiting _ listed
    rw [stands] at idle
    cases idle

/-- The main context has added `n` to the counter before it started any goroutine. Nobody has added
anything else, and no goroutine has waited. -/
def ForkJoin (setting : Setting) (n : Int64) (past : List (World × Action)) : Prop :=
  ∃ earlier v later, past = earlier ++ (v, .act .main) :: later ∧
    v.deed setting .main = .add n ∧ v.commons.goroutines = #[] ∧
    (∀ event ∈ earlier ++ later, (event.2.deed setting event.1).isAdd = false) ∧
    ∀ event ∈ later, event.2 ≠ .act .main → (event.2.deed setting event.1).found? = none

/-- The counter is `n` less the goroutines that have finished, and no goroutine waits. -/
theorem Course.of_forkJoin {start : World} {past : List (World × Action)} {n : Int64}
    (course : Course setting start past w) (accounted : start.Accounted)
    (zero : start.commons.shared.group.counter = 0) (forkJoin : ForkJoin setting n past) :
    w.commons.shared.group.counter.toInt = max (n.toInt - w.commons.finished) 0 ∧
      ∀ stance ∈ w.roster.goroutines, stance.isWaiting = false := by
  obtain ⟨earlier, v, later, rfl, adds, alone, noOther, noWait⟩ := forkJoin
  obtain ⟨before, -, after⟩ := course.split
  have accountedThen := before.accounted accounted
  have accountedAfter : (v.proceed setting (.act .main)).Accounted := accountedThen.proceed _
  have zeroThen : v.commons.shared.group.counter.toInt = 0 := by
    rw [before.counter_eq accounted fun event member => noOther event (List.mem_append_left _ member),
      zero, Int64.toInt_zero]
    omega
  have deed : (Action.act .main).deed setting v = .add n := adds
  have counterAfter : (v.proceed setting (.act .main)).commons.shared.group.counter.toInt =
      n.toInt := by
    have lower : Int64.minValue.toInt ≤ n.toInt := Int64.minValue_le_toInt n
    have upper : n.toInt ≤ Int64.maxValue.toInt := Int64.toInt_le n
    rw [accountedThen.counter_proceed, deed, zeroThen]
    show max Int64.minValue.toInt (min Int64.maxValue.toInt (0 + n.toInt)) = n.toInt
    omega
  have noneFinished : (v.proceed setting (.act .main)).commons.finished = 0 := by
    rw [accountedThen.finished_proceed, deed, Commons.finished, alone]
    rfl
  have noneWaits : ∀ stance ∈ (v.proceed setting (.act .main)).roster.goroutines,
      stance.isWaiting = false := by
    refine (step_roster accountedThen.errands .main).not_waiting (congrArg _ adds) fun stance member => ?_
    rw [show v.roster.goroutines = [] by simp [roster, Commons.stances, alone]] at member
    cases member
  refine ⟨?_, after.not_waiting accountedAfter noneWaits noWait⟩
  rw [after.counter_eq accountedAfter fun event member => noOther event (List.mem_append_right _ member),
    after.finished_eq accountedAfter, counterAfter, noneFinished, Nat.zero_add]

end World

/-- Along a course on which nothing that is added is cut off, the counter is at least the sum of what
has been added less the number of goroutines that have finished. So who is released from waiting knows
that as many goroutines have finished as have been added, and if this is no less than have been
launched, that all of these have run to their ends. If the main context adds `n` and launches at least `n`
goroutines which leave the wait group alone, its waiting does not end in a deadlock. -/
theorem join_guarantee (program : Program) (limits : Limits) {past : List (World × Action)} {w : World}
    (course : World.Course (program.setting limits) program.initial past w) :
    (World.Unsaturated (program.setting limits) past →
      World.added (program.setting limits) past - World.finishes (program.setting limits) past ≤
        w.commons.shared.group.counter.toInt ∧
      ∀ context, (w.deed (program.setting limits) context).found? = some .released →
        World.added (program.setting limits) past ≤ World.finishes (program.setting limits) past ∧
        (w.commons.launched ≤ World.added (program.setting limits) past →
          ∀ phase ∈ w.commons.goroutines, phase.isLaunched = true → phase = .gone)) ∧
    ∀ n, World.ForkJoin (program.setting limits) n past → n.toInt ≤ w.commons.launched →
      ∀ counter, (w.act (program.setting limits) .main).fault? .main ≠ some (.deadlock counter) := by
  have initially := World.Accounted.initial program
  have accounted := course.accounted initially
  refine ⟨fun unsaturated => ?_, fun n forkJoin enough counter deadlock => ?_⟩
  · have lower := course.le_counter initially unsaturated
    rw [show program.initial.commons.shared.group.counter.toInt = 0 from rfl, Int.zero_add] at lower
    refine ⟨lower, fun context released => ?_⟩
    have zero := (World.step_roster accounted.errands context).not_pos_of_released released
    have enough : World.added (program.setting limits) past ≤
        World.finishes (program.setting limits) past := by
      rw [Int64.lt_iff_toInt_lt, Int64.toInt_zero] at zero
      have same : w.roster.group.counter = w.commons.shared.group.counter := rfl
      rw [same] at zero
      omega
    refine ⟨enough, fun covered phase member launched => ?_⟩
    have counted := course.finished_eq initially
    rw [show program.initial.commons.finished = 0 from rfl, Nat.zero_add] at counted
    exact Commons.gone_of_launched_le (by omega) member launched
  · have found := (w.main.deadlock_act (program.setting limits) w.commons counter).mp deadlock
    obtain ⟨same, positive, notBusy⟩ :=
      accounted.books.alone_main (w.main.does_act (program.setting limits) w.commons) found
    obtain ⟨left, notWaiting⟩ := course.of_forkJoin initially rfl forkJoin
    -- As many have finished as have been added, so that the counter is zero.
    have all := Commons.launched_le_finished fun phase => accounted.stance_eq_gone notBusy notWaiting
    rw [show w.commons.shared.group.counter = counter from same] at left
    have positive := Int64.lt_iff_toInt_lt.mp positive
    rw [left, Int64.toInt_zero] at positive
    omega

/-- The main context waits for two goroutines that print. -/
def printers : Program :=
  ⟨.seq [.callNamed "waitGroupAdd" [.lit (.int 2)], .goNamed "print" [.lit (.int 1)],
    .goNamed "print" [.lit (.int 2)], .callNamed "waitGroupWait" []]⟩

/-- The main context is about to add to the counter. -/
def printers.adding : World :=
  (printers.initial.run (printers.setting {}) false 4 ⟨0, World.turnLength⟩ #[]).1

/-- Both goroutines have finished, and the main context is about to notice. -/
def printers.joined : World :=
  ((printers.adding.act (printers.setting {}) .main).run (printers.setting {}) false 24
    ⟨0, World.turnLength⟩ #[]).1

/-- What happens before the main context adds. -/
def printers.opening : List (World × Action) :=
  printers.initial.turns (printers.setting {}) 4 ⟨0, World.turnLength⟩

/-- What happens after it. -/
def printers.sequel : List (World × Action) :=
  (printers.adding.act (printers.setting {}) .main).turns (printers.setting {}) 24
    ⟨0, World.turnLength⟩

/-- All that has happened when both goroutines have finished. -/
def printers.past : List (World × Action) :=
  printers.opening ++ [(printers.adding, .act .main)] ++ printers.sequel

theorem printers.course :
    World.Course (printers.setting {}) printers.initial printers.past printers.joined := by
  have added : World.Course (printers.setting {}) printers.initial printers.opening printers.adding :=
    World.Course.run .start false 4 ⟨0, World.turnLength⟩ #[]
  exact (added.step (.act .main) ⟨List.mem_cons_self, rfl⟩).run false 24 ⟨0, World.turnLength⟩ #[]

theorem join_guarantee_printers :
    World.added (printers.setting {}) printers.past = 2 ∧
    printers.joined.commons.launched = 2 ∧
    (printers.joined.deed (printers.setting {}) .main).found? = some .released ∧
    (∀ phase ∈ printers.joined.commons.goroutines, phase.isLaunched = true → phase = .gone) ∧
    ∀ counter, (printers.joined.act (printers.setting {}) .main).fault? .main ≠
      some (.deadlock counter) := by
  have unsaturated : World.Unsaturated (printers.setting {}) printers.past := by
    unfold World.Unsaturated
    decide +kernel
  have sum : World.added (printers.setting {}) printers.past = 2 := by decide +kernel
  have count : printers.joined.commons.launched = 2 := by decide +kernel
  have released : (printers.joined.deed (printers.setting {}) .main).found? = some .released := by
    decide +kernel
  have forkJoin : World.ForkJoin (printers.setting {}) 2 printers.past :=
    ⟨printers.opening, printers.adding, printers.sequel, List.append_assoc _ _ _, by decide +kernel,
      rfl, by decide +kernel, by decide +kernel⟩
  obtain ⟨ledger, noDeadlock⟩ := join_guarantee printers {} printers.course
  refine ⟨sum, count, released, ?_, noDeadlock 2 forkJoin (by rw [count]; decide)⟩
  exact ((ledger unsaturated).2 .main released).2 (by rw [sum, count]; decide)

end ControlStash
