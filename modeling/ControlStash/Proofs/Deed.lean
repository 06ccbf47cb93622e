import ControlStash.Proofs.Fail
import ControlStash.Proofs.Interleaving

/-!
# What contexts do to the wait group

Most actions of a run leave the wait group alone. `World.deed` says of each action what it does to the
group, and `Stance` where a context stands towards the group: it is busy, waits, or has left.
`WaitGroup.Does` lists how a deed changes the stance of the context and the group, so that what is
shared by all contexts can be reasoned about without their machines: every action of an activity
follows one of its rules (`Activity.does_act`), and a context ends in a deadlock exactly by a deed that
finds one (`Activity.deadlock_act`).
-/

namespace ControlStash

/-- Where a context stands towards the wait group. -/
inductive Stance where
  /-- It can change the counter. -/
  | busy
  /-- It waits, and has looked last when `since` signals had been given. -/
  | waiting (since : Nat)
  /-- It has closed the group, and its signal is still to be given. -/
  | closing
  | gone
  deriving DecidableEq, Repr

namespace Stance

/-- Whether a context is inside a wait. -/
def isWaiting : Stance → Bool
  | waiting _ => true
  | _ => false

/-- Whether a context can no longer change the counter. -/
def hasLeft : Stance → Bool
  | closing => true
  | gone => true
  | _ => false

end Stance

namespace WaitGroup

/-- What an action does to the wait group. -/
inductive Deed where
  | rest
  /-- Adds to the counter. A sum that is refused is no deed. -/
  | add (delta : Int64)
  /-- Begins to wait, and finds the group so. -/
  | wait (found : Verdict)
  /-- Looks again after a signal, and finds the group so. -/
  | look (found : Verdict)
  | start
  | finish
  | abandon
  | close
  | signal
  deriving DecidableEq, Repr

/-- What a context that waits has found. -/
def Deed.found? : Deed → Option Verdict
  | wait found => some found
  | look found => some found
  | _ => none

/-- Where a context stands that has found the group so, with the given number of signals. -/
def Verdict.stance (signals : Nat) : Verdict → Stance
  | .asleep => .waiting signals
  | _ => .busy

/-- What a deed of a context does to its stance and to the group. -/
inductive Does (role : Role) : Stance → WaitGroup → Deed → Stance → WaitGroup → Prop
  | rest {stance group} : Does role stance group .rest stance group
  | add {delta group group'} : group.add delta = .ok group' →
    Does role .busy group (.add delta) .busy group'
  | wait {found group group'} : group.wait role = (found, group') →
    Does role .busy group (.wait found) (found.stance group'.signals) group'
  | look {found since group group'} : group.look role = (found, group') →
    Does role (.waiting since) group (.look found) (found.stance group'.signals) group'
  | start {group} : Does role .busy group .start .busy group.started
  | finish {group} : role = .goroutine → Does role .busy group .finish .gone group.finished
  | close {group} : role = .main → Does role .busy group .close .closing group.close
  | signal {group} : role = .main → Does role .closing group .signal .gone group.signal

end WaitGroup

open WaitGroup (Deed Does)

/-! ## Built-in functions -/

namespace Native

/-- What a call of a built-in function does to the wait group. -/
def deed (role : Role) (group : WaitGroup) (b : Builtin) (args : List Value) : Deed :=
  match ofName? b.name, args with
  | some .waitGroupAdd, [.int delta] =>
    match group.add delta with
    | .ok _ => .add delta
    | .error _ => .rest
  | some .waitGroupWait, [] => .wait (group.wait role).1
  | _, _ => .rest

namespace Reply

/-- The wait group after a reply. -/
def group : Reply → WaitGroup
  | .value _ s => s.group
  | .fault _ s => s.group
  | .asleep s => s.group

/-- Where a context stands after a reply. -/
def stance : Reply → Stance
  | .asleep s => .waiting s.group.signals
  | _ => .busy

/-- The fault that a reply reports. -/
def fault? : Reply → Option Fault
  | .fault e _ => some e
  | _ => none

theorem group_ofVerdict (s : Shared) (found : WaitGroup.Verdict) :
    (ofVerdict s found).group = s.group := by
  cases found <;> rfl

theorem stance_ofVerdict (s : Shared) (found : WaitGroup.Verdict) :
    (ofVerdict s found).stance = found.stance s.group.signals := by
  cases found <;> rfl

theorem deadlock_ofVerdict (s : Shared) (found : WaitGroup.Verdict) (counter : Int64) :
    (ofVerdict s found).fault? = some (.deadlock counter) ↔ found = .deadlocked counter := by
  cases found <;> simp [ofVerdict, fault?]

end Reply

variable {role : Role} {s : Shared} {b : Builtin} {args : List Value} {counter : Int64}

/-- A call of a built-in function follows the rules of the wait group, and reports a deadlock exactly
if it has found one. -/
theorem does_invoke (role : Role) (s : Shared) (b : Builtin) (args : List Value) :
    Does role .busy s.group (deed role s.group b args) (invoke role s b args).stance
      (invoke role s b args).group ∧
    ∀ counter, (invoke role s b args).fault? = some (.deadlock counter) ↔
      (deed role s.group b args).found? = some (.deadlocked counter) := by
  unfold invoke deed
  cases ofName? b.name with
  | none => exact ⟨.rest, by simp [Reply.fault?, Deed.found?]⟩
  | some native =>
    dsimp only
    have value : ∀ {v : Value} {s' : Shared}, s'.group = s.group →
        Does role .busy s.group .rest (Reply.value v s').stance (Reply.value v s').group ∧
          ∀ c, (Reply.value v s').fault? = some (.deadlock c) ↔
            Deed.rest.found? = some (.deadlocked c) := by
      intro v s' same
      rw [show (Reply.value v s').group = s.group from same]
      exact ⟨.rest, fun c => ⟨nofun, nofun⟩⟩
    have fault : ∀ {e : Fault}, (∀ c, e ≠ .deadlock c) →
        Does role .busy s.group .rest (Reply.fault e s).stance (Reply.fault e s).group ∧
          ∀ c, (Reply.fault e s).fault? = some (.deadlock c) ↔
            Deed.rest.found? = some (.deadlocked c) := by
      intro e other
      exact ⟨.rest, fun c => ⟨fun found => absurd (Option.some.inj found) (other c), nofun⟩⟩
    cases native with
    | print =>
      rcases args with _ | ⟨v, _ | ⟨w, args⟩⟩
      · exact fault fun _ => nofun
      · exact value rfl
      · exact fault fun _ => nofun
    | arrayLength =>
      rcases args with _ | ⟨v, _ | ⟨w, args⟩⟩
      · exact fault fun _ => nofun
      · cases v
        case array ref => exact value rfl
        all_goals exact fault fun _ => nofun
      · cases v <;> exact fault fun _ => nofun
    | waitGroupAdd =>
      rcases args with _ | ⟨v, _ | ⟨w, args⟩⟩
      · exact fault fun _ => nofun
      · cases v
        case int delta =>
          dsimp only [call]
          cases added : s.group.add delta with
          | ok group => exact ⟨.add added, fun c => ⟨nofun, nofun⟩⟩
          | error counter => exact fault fun _ => nofun
        all_goals exact fault fun _ => nofun
      · cases v <;> exact fault fun _ => nofun
    | waitGroupWait =>
      cases args with
      | nil =>
        dsimp only [call]
        unfold wait
        rcases waited : s.group.wait role with ⟨found, group⟩
        dsimp only
        rw [Reply.stance_ofVerdict, Reply.group_ofVerdict]
        refine ⟨.wait waited, fun c => ?_⟩
        rw [Reply.deadlock_ofVerdict]
        simp [Deed.found?]
      | cons v args => exact fault fun _ => nofun

end Native

/-! ## Steps of a machine -/

namespace Outcome

/-- The wait group after a step. A goroutine that is asked for is counted at once. -/
def group : Outcome → WaitGroup
  | .next _ s => s.group
  | .asleep _ s => s.group
  | .launch _ _ s => s.group.started
  | .stop _ _ s => s.group

/-- Where a context stands after a step. -/
def stance : Outcome → Stance
  | .asleep _ s => .waiting s.group.signals
  | _ => .busy

/-- The fault in which a step ends. -/
def fault? : Outcome → Option Fault
  | .stop (.error e) _ _ => some e
  | _ => none

/-- A step leaves the wait group as it was, and does not end in a deadlock. -/
def Quiet (group : WaitGroup) : Outcome → Prop
  | .next _ s => s.group = group
  | .asleep _ _ => False
  | .launch _ _ s => s.group = group
  | .stop result _ s => s.group = group ∧ ∀ counter, result ≠ .error (.deadlock counter)

end Outcome

namespace Machine

/-- The call of a built-in function that the next step of a machine makes. -/
def nativeCall? (limits : Limits) (m : Machine) : Option (Builtin × List Value) :=
  match m.control.pop? with
  | some (.instruction (.call arity), _) =>
    if limits.steps ≤ m.steps then none
    else
      match m.stash.popMany? arity with
      | some (args, stash) =>
        match stash.pop? with
        | some (.builtin b, _) => some (b, args)
        | _ => none
      | none => none
  | _ => none

/-- What the built-in function that the next step calls does to the wait group. -/
def nativeDeed (limits : Limits) (role : Role) (m : Machine) (group : WaitGroup) : Deed :=
  match m.nativeCall? limits with
  | some (b, args) => Native.deed role group b args
  | none => .rest

/-- What the next step of a machine does to the wait group. -/
def deed (setting : Setting) (role : Role) (m : Machine) (s : Shared) : Deed :=
  match m.advance setting role s with
  | .launch _ _ _ => .start
  | _ => m.nativeDeed setting.limits role s.group

section Quiet

variable {setting : Setting} {role : Role} {m : Machine} {s : Shared} {group : WaitGroup}

theorem fail_quiet {e : Fault} (same : s.group = group) (other : ∀ counter, e ≠ .deadlock counter) :
    (m.fail s e).Quiet group :=
  ⟨same, fun counter stopped => other counter (Except.error.inj stopped)⟩

theorem fail_ofScope_quiet {e : ScopeError} (same : s.group = group) :
    (m.fail s (.ofScope e)).Quiet group := by
  refine fail_quiet same fun counter => ?_
  cases e <;> simp [Fault.ofScope]

theorem underflow_quiet (same : s.group = group) : (m.underflow s).Quiet group :=
  fail_quiet same (by simp)

theorem schedule_quiet {limits : Limits} {items : List Item} {env : Env} (same : s.group = group) :
    (m.schedule limits items env s).Quiet group := by
  unfold schedule
  split
  · exact same
  · exact fail_quiet same (by simp)

theorem expand_quiet {c : Command} : (m.expand setting c s).Quiet s.group := by
  cases c
  case lit | lambda => exact rfl
  case unrecognized => exact fail_quiet rfl (by simp)
  case name sym =>
    unfold expand
    dsimp only
    split
    · exact rfl
    · exact fail_ofScope_quiet rfl
  case block body =>
    unfold expand
    dsimp only
    split
    · split
      · exact rfl
      · exact fail_ofScope_quiet rfl
    · exact fail_quiet rfl (by simp)
  all_goals exact schedule_quiet rfl

theorem go_quiet {globals : Env} {arity : Nat} : (m.go globals arity s).Quiet s.group := by
  unfold go
  split
  · exact underflow_quiet rfl
  · split
    · exact underflow_quiet rfl
    · dsimp only
      split
      · split
        · exact rfl
        · exact fail_ofScope_quiet rfl
      · split
        · exact rfl
        · exact fail_quiet rfl (by simp)
      · exact fail_quiet rfl (by simp)

theorem throw_quiet {limits : Limits} : (m.throw limits s).Quiet s.group := by
  unfold throw
  split
  · split
    · exact underflow_quiet rfl
    · exact fail_quiet rfl (by simp)
  · split
    · exact underflow_quiet rfl
    · dsimp only
      split
      · split
        · exact rfl
        · exact fail_ofScope_quiet rfl
      · exact fail_quiet rfl (by simp)
  · exact schedule_quiet rfl

/-- An instruction other than a call leaves the wait group alone. -/
theorem execute_quiet {i : Instruction} (noCall : ∀ arity, i ≠ .call arity) :
    (m.execute setting role i s).Quiet s.group := by
  cases i
  case call arity => exact absurd rfl (noCall arity)
  case restore | mark | «catch» => exact rfl
  case go arity => exact go_quiet
  case throw => exact throw_quiet
  case reset =>
    simp only [execute, reset]
    split <;> exact rfl
  case pop | makeArray =>
    simp only [execute]
    split
    · exact rfl
    · exact underflow_quiet rfl
  case unary op =>
    simp only [execute]
    split
    · split
      · exact rfl
      · next failed =>
        refine fail_quiet rfl fun counter => ?_
        unfold UnaryOp.apply at failed
        split at failed <;> cases failed
        simp
    · exact underflow_quiet rfl
  case binary op =>
    simp only [execute]
    split
    · split
      · exact rfl
      · next failed =>
        refine fail_quiet rfl fun counter => ?_
        rcases BinaryOp.fault_of_apply failed with rfl | rfl <;> simp [BinaryOp.mismatch]
    · exact underflow_quiet rfl
  case assign sym =>
    simp only [execute]
    split
    · split
      · exact rfl
      · exact fail_ofScope_quiet rfl
    · exact underflow_quiet rfl
  case branch cons alt =>
    simp only [execute]
    split
    · exact schedule_quiet rfl
    · split
      · exact schedule_quiet rfl
      · exact rfl
    · exact fail_quiet rfl (by simp)
    · exact underflow_quiet rfl
  case loop form pred body =>
    simp only [execute]
    split
    · exact schedule_quiet rfl
    · exact rfl
    · exact fail_quiet rfl (by simp)
    · exact underflow_quiet rfl
  case index | indexAssign =>
    simp only [execute]
    split
    · split
      · split
        · exact rfl
        · exact fail_quiet rfl (by simp)
      · next failed =>
        refine fail_quiet rfl fun counter => ?_
        rcases fault_of_access failed with ⟨mismatch, rfl⟩ | ⟨index, length, rfl⟩ <;> simp
    · exact underflow_quiet rfl

/-- A step that calls no built-in function leaves the wait group alone. -/
theorem advance_quiet (noCall : m.nativeCall? setting.limits = none) :
    (m.advance setting role s).Quiet s.group := by
  unfold nativeCall? at noCall
  unfold advance
  rcases popped : m.control.pop? with _ | ⟨item, control⟩
  · refine ⟨rfl, fun counter finished => ?_⟩
    unfold finish at finished
    split at finished <;> cases finished
  · rw [popped] at noCall
    dsimp only
    split
    · exact fail_quiet rfl (by simp)
    · next within =>
      cases item with
      | command c => exact expand_quiet (s := s)
      | instruction i =>
        by_cases called : ∃ arity, i = .call arity
        · obtain ⟨arity, rfl⟩ := called
          simp only [if_neg within] at noCall
          dsimp only [execute, call]
          split
          · exact underflow_quiet rfl
          · next args stash operands =>
            simp only [operands] at noCall
            split
            · exact underflow_quiet rfl
            · next callee rest top =>
              rw [top] at noCall
              split
              · cases noCall
              · split
                · next env store extended =>
                  obtain ⟨items, below, -, entered⟩ := enter_eq_schedule setting.globals
                    setting.protocol _ env _ { s with store }
                  rw [entered setting.limits]
                  exact schedule_quiet rfl
                · exact fail_ofScope_quiet rfl
              · exact fail_quiet rfl (by simp)
        · exact execute_quiet (s := s) fun arity same => called ⟨arity, same⟩

/-- A step that calls a built-in function goes on by the reply. -/
theorem advance_of_nativeCall (role : Role) (s : Shared) {b : Builtin} {args : List Value}
    (called : m.nativeCall? setting.limits = some (b, args)) :
    ∃ m' : Machine, m.advance setting role s =
      match Native.invoke role s b args with
      | .value v s => .next (m'.push v) s
      | .fault e s => m'.fail s e
      | .asleep s => .asleep (m'.push .undefined) s := by
  unfold nativeCall? at called
  split at called
  · next arity control popped =>
    split at called
    · cases called
    · next within =>
      split at called
      · next args' stash operands =>
        split at called
        · next b' rest top =>
          cases called
          refine ⟨{ m with control, steps := m.steps + 1, stash := rest }, ?_⟩
          generalize reply : Native.invoke role s b args = answer
          cases answer <;>
            simp only [advance, popped, if_neg within, execute, call, operands, top, reply]
        · cases called
      · cases called
  · cases called

/-- A step follows the rules of the wait group, and ends in a deadlock exactly if it has found
one. -/
theorem does_advance (setting : Setting) (role : Role) (m : Machine) (s : Shared) :
    Does role .busy s.group (m.deed setting role s) (m.advance setting role s).stance
      (m.advance setting role s).group ∧
    ∀ counter, (m.advance setting role s).fault? = some (.deadlock counter) ↔
      (m.deed setting role s).found? = some (.deadlocked counter) := by
  unfold deed nativeDeed
  rcases called : m.nativeCall? setting.limits with _ | ⟨b, args⟩
  · have quiet : (m.advance setting role s).Quiet s.group := advance_quiet called
    generalize m.advance setting role s = o at quiet
    cases o with
    | next m' s' =>
      have same : s'.group = s.group := quiet
      simp only [Outcome.group, Outcome.stance, same]
      exact ⟨.rest, fun _ => ⟨nofun, nofun⟩⟩
    | asleep m' s' => exact absurd quiet id
    | launch task m' s' =>
      have same : s'.group = s.group := quiet
      simp only [Outcome.group, Outcome.stance, same]
      exact ⟨.start, fun _ => ⟨nofun, nofun⟩⟩
    | stop result m' s' =>
      obtain ⟨same, other⟩ := quiet
      simp only [Outcome.group, Outcome.stance, same]
      refine ⟨.rest, fun counter => ⟨fun found => ?_, nofun⟩⟩
      cases result with
      | ok v => cases found
      | error e =>
        cases found
        exact absurd rfl (other counter)
  · obtain ⟨m', replied⟩ := advance_of_nativeCall role s called
    have does := Native.does_invoke role s b args
    rw [replied]
    cases reply : Native.invoke role s b args <;> rw [reply] at does <;> exact does

end Quiet

end Machine

/-! ## Actions of contexts -/

namespace Progress

/-- Where a context stands after an action of its activity. -/
def stance : Progress → Stance
  | .goes (.waiting since _) => .waiting since
  | _ => .busy

/-- The fault in which an action ends. -/
def fault? : Progress → Option Fault
  | .ends (.error e) _ => some e
  | _ => none

end Progress

namespace Activity

/-- Where a context with an activity stands. -/
def stance : Activity → Stance
  | .waiting since _ => .waiting since
  | _ => .busy

/-- What the next action of an activity does to the wait group. -/
def deed (setting : Setting) (role : Role) (a : Activity) (s : Shared) : Deed :=
  match a with
  | .running m => m.deed setting role s
  | .launching _ _ _ => .rest
  | .registering _ _ => .rest
  | .waiting _ _ => .look (s.group.look role).1

/-- An action of an activity follows the rules of the wait group. -/
theorem does_act (setting : Setting) (role : Role) (a : Activity) (c : Commons) :
    Does role a.stance c.shared.group (a.deed setting role c.shared)
      (a.act setting role c).1.stance (a.act setting role c).2.shared.group := by
  cases a with
  | running m =>
    have does := (m.does_advance setting role c.shared).1
    unfold act deed
    dsimp only
    revert does
    cases m.advance setting role c.shared <;> exact id
  | launching id task m => exact .rest
  | registering id m => exact .rest
  | waiting since m =>
    unfold act deed
    dsimp only
    rcases looked : c.shared.group.look role with ⟨found, group⟩
    have does : Does role (.waiting since) c.shared.group (.look found)
        (found.stance group.signals) group := .look looked
    cases found <;> exact does

/-- An activity ends in a deadlock exactly by a deed that finds one. -/
theorem deadlock_act (setting : Setting) (role : Role) (a : Activity) (c : Commons)
    (counter : Int64) :
    (a.act setting role c).1.fault? = some (.deadlock counter) ↔
      (a.deed setting role c.shared).found? = some (.deadlocked counter) := by
  cases a with
  | running m =>
    have deadlock := (m.does_advance setting role c.shared).2 counter
    unfold act deed
    dsimp only
    rw [← deadlock]
    rcases m.advance setting role c.shared with _ | _ | _ | ⟨_ | _, _, _⟩ <;> exact Iff.rfl
  | launching id task m => exact ⟨nofun, nofun⟩
  | registering id m => exact ⟨nofun, nofun⟩
  | waiting since m =>
    unfold act deed
    dsimp only
    rcases c.shared.group.look role with ⟨found, group⟩
    cases found <;> simp [Progress.fault?, Deed.found?]

end Activity

theorem Commons.setPhase_self {c : Commons} {id : Nat} {phase : GoroutinePhase}
    (found : c.phase? id = some phase) : c.setPhase id phase = c := by
  unfold phase? at found
  unfold setPhase
  obtain ⟨bound, rfl⟩ := Array.getElem?_eq_some_iff.mp found
  simp only [Array.setIfInBounds_def, dif_pos bound, Array.set_getElem_self]

namespace GoroutinePhase

/-- Where a goroutine stands. One that is about to be launched is busy already. -/
def stance : GoroutinePhase → Stance
  | .active a => a.stance
  | .waitingBuiltin since => .waiting since
  | .gone => .gone
  | .abandoned => .gone
  | _ => .busy

theorem stance_eq_gone_iff {phase : GoroutinePhase} :
    phase.stance = .gone ↔ phase = .gone ∨ phase = .abandoned := by
  cases phase with
  | active a => cases a <;> simp [stance, Activity.stance]
  | _ => simp [stance]

/-- What the next action of a goroutine does to the wait group. -/
def deed (setting : Setting) (phase : GoroutinePhase) (s : Shared) : Deed :=
  match phase with
  | .starting (.builtin b args) => Native.deed .goroutine s.group b args
  | .active a => a.deed setting .goroutine s
  | .waitingBuiltin _ => .look (s.group.look .goroutine).1
  | .recorded => .finish
  | _ => .rest

/-- The phase that a goroutine goes to, and what its action does besides. -/
def after (setting : Setting) (id : Nat) (phase : GoroutinePhase) (c : Commons) :
    GoroutinePhase × Commons :=
  match phase with
  | .starting (.body command env) =>
    (.active (.running (.start [.command command, .instruction .mark] env)), c)
  | .starting (.builtin b args) =>
    let (phase, shared) := ofReply (Native.invoke .goroutine c.shared b args)
    (phase, { c with shared })
  | .active a =>
    let (progress, c) := a.act setting .goroutine c
    (ofProgress progress, c)
  | .waitingBuiltin _ =>
    let (verdict, group) := c.shared.group.look .goroutine
    let (phase, shared) := ofReply (.ofVerdict { c.shared with group } verdict)
    (phase, { c with shared })
  | .ended none => (.recorded, c)
  | .ended (some e) => (.recorded, { c with failures := c.failures.push (id, e) })
  | .recorded => (.gone, c.onGroup .finished)
  | phase => (phase, c)

variable {setting : Setting} {id : Nat} {phase : GoroutinePhase} {c : Commons}

theorem act_eq_setPhase (found : c.phase? id = some phase) :
    phase.act setting id c =
      (phase.after setting id c).2.setPhase id (phase.after setting id c).1 := by
  have same : c = c.setPhase id phase := (Commons.setPhase_self found).symm
  cases phase with
  | starting task => cases task <;> rfl
  | ended failure => cases failure <;> rfl
  | reserved => exact same
  | gone => exact same
  | abandoned => exact same
  | active a => rfl
  | waitingBuiltin since => rfl
  | recorded => rfl

theorem stance_ofProgress (progress : Progress) : (ofProgress progress).stance = progress.stance := by
  rcases progress with a | ⟨_ | v, steps⟩
  · cases a <;> rfl
  · rfl
  · rfl

theorem stance_ofReply (reply : Native.Reply) :
    (ofReply reply).1.stance = reply.stance ∧ (ofReply reply).2.group = reply.group := by
  cases reply <;> exact ⟨rfl, rfl⟩

/-- An action of a goroutine follows the rules of the wait group. -/
theorem does_after (setting : Setting) (id : Nat) (phase : GoroutinePhase) (c : Commons) :
    Does .goroutine phase.stance c.shared.group (phase.deed setting c.shared)
      (phase.after setting id c).1.stance (phase.after setting id c).2.shared.group := by
  cases phase with
  | starting task =>
    cases task with
    | body command env => exact .rest
    | builtin b args =>
      obtain ⟨stance, group⟩ := stance_ofReply (Native.invoke .goroutine c.shared b args)
      unfold after deed
      dsimp only
      rw [stance, group]
      exact (Native.does_invoke .goroutine c.shared b args).1
  | active a =>
    have does := a.does_act setting .goroutine c
    unfold after deed
    dsimp only
    rw [stance_ofProgress]
    exact does
  | waitingBuiltin since =>
    unfold after deed
    dsimp only
    rcases looked : c.shared.group.look .goroutine with ⟨found, group⟩
    obtain ⟨stance, same⟩ := stance_ofReply (.ofVerdict { c.shared with group } found)
    dsimp only
    rw [stance, same, Native.Reply.stance_ofVerdict, Native.Reply.group_ofVerdict]
    exact .look looked
  | ended failure => cases failure <;> exact .rest
  | recorded => exact .finish rfl
  | reserved => exact .rest
  | gone => exact .rest
  | abandoned => exact .rest

/-- The fault in which a goroutine has ended, before it is recorded. -/
def fault? : GoroutinePhase → Option Fault
  | .ended failure => failure
  | _ => none

/-- A goroutine ends in a deadlock exactly by a deed that finds one. -/
theorem deadlock_after (setting : Setting) (id : Nat) (phase : GoroutinePhase) (c : Commons)
    (fresh : phase.fault? = none) (counter : Int64) :
    (phase.after setting id c).1.fault? = some (.deadlock counter) ↔
      (phase.deed setting c.shared).found? = some (.deadlocked counter) := by
  have ofReply : ∀ reply : Native.Reply, (ofReply reply).1.fault? = reply.fault? := by
    intro reply
    cases reply <;> rfl
  cases phase with
  | starting task =>
    cases task with
    | body command env => exact ⟨nofun, nofun⟩
    | builtin b args =>
      unfold after deed
      dsimp only
      rw [ofReply]
      exact (Native.does_invoke .goroutine c.shared b args).2 counter
  | active a =>
    have deadlock := a.deadlock_act setting .goroutine c counter
    have same : ∀ progress : Progress, (ofProgress progress).fault? = progress.fault? := by
      intro progress
      rcases progress with a | ⟨_ | v, steps⟩ <;> rfl
    unfold after deed
    dsimp only
    rw [same]
    exact deadlock
  | waitingBuiltin since =>
    unfold after deed
    dsimp only
    rcases c.shared.group.look .goroutine with ⟨found, group⟩
    dsimp only
    rw [ofReply, Native.Reply.deadlock_ofVerdict]
    simp [Deed.found?]
  | ended failure =>
    obtain rfl : failure = none := fresh
    exact ⟨nofun, nofun⟩
  | recorded => exact ⟨nofun, nofun⟩
  | reserved => exact ⟨nofun, nofun⟩
  | gone => exact ⟨nofun, nofun⟩
  | abandoned => exact ⟨nofun, nofun⟩

end GoroutinePhase

namespace MainPhase

/-- Where the main context stands. -/
def stance : MainPhase → Stance
  | .active a => a.stance
  | .ended _ _ => .busy
  | .closed _ _ => .closing
  | .joining _ _ _ => .gone
  | .finished _ _ => .gone

/-- What the next action of the main context does to the wait group. -/
def deed (setting : Setting) (phase : MainPhase) (s : Shared) : Deed :=
  match phase with
  | .active a => a.deed setting .main s
  | .ended _ _ => .close
  | .closed _ _ => .signal
  | _ => .rest

/-- The fault in which the main context has ended, before it closes the wait group. -/
def fault? : MainPhase → Option Fault
  | .ended (.error e) _ => some e
  | _ => none

theorem stance_ofProgress (progress : Progress) : (ofProgress progress).stance = progress.stance := by
  cases progress with
  | goes a => cases a <;> rfl
  | ends result steps => rfl

/-- An action of the main context follows the rules of the wait group. -/
theorem does_act (setting : Setting) (phase : MainPhase) (c : Commons) :
    Does .main phase.stance c.shared.group (phase.deed setting c.shared)
      (phase.act setting c).main.stance (phase.act setting c).commons.shared.group := by
  cases phase with
  | active a =>
    have does := a.does_act setting .main c
    unfold act deed
    dsimp only
    rw [stance_ofProgress]
    exact does
  | ended result steps => exact .close rfl
  | closed result steps => exact .signal rfl
  | joining result steps taken =>
    cases taken with
    | nil =>
      unfold act
      dsimp only
      split <;> exact .rest
    | cons id taken => exact .rest
  | finished result steps => exact .rest

/-- The main context ends in a deadlock exactly by a deed that finds one. -/
theorem deadlock_act (setting : Setting) (phase : MainPhase) (c : Commons) (counter : Int64) :
    (phase.act setting c).main.fault? = some (.deadlock counter) ↔
      (phase.deed setting c.shared).found? = some (.deadlocked counter) := by
  cases phase with
  | active a =>
    have deadlock := a.deadlock_act setting .main c counter
    unfold act deed
    dsimp only
    rw [← deadlock]
    rcases (a.act setting .main c).1 with a' | ⟨_ | v, steps⟩ <;> exact Iff.rfl
  | ended result steps => exact ⟨nofun, nofun⟩
  | closed result steps => exact ⟨nofun, nofun⟩
  | joining result steps taken =>
    cases taken with
    | nil =>
      unfold act
      dsimp only
      split <;> exact ⟨nofun, nofun⟩
    | cons id taken => exact ⟨nofun, nofun⟩
  | finished result steps => exact ⟨nofun, nofun⟩

end MainPhase

namespace World

/-- Where a context stands. A goroutine that there is none of is gone. -/
def stance (w : World) : Context → Stance
  | .main => w.main.stance
  | .goroutine id =>
    match w.commons.phase? id with
    | some phase => phase.stance
    | none => .gone

/-- What the next action of a context does to the wait group. -/
def deed (setting : Setting) (w : World) : Context → Deed
  | .main => w.main.deed setting w.commons.shared
  | .goroutine id =>
    match w.commons.phase? id with
    | some phase => phase.deed setting w.commons.shared
    | none => .rest

/-- The fault in which a context has just ended: it is neither recorded yet nor is the group
closed. -/
def fault? (w : World) : Context → Option Fault
  | .main => w.main.fault?
  | .goroutine id => (w.commons.phase? id).bind (·.fault?)

variable {setting : Setting} {w : World} {id : Nat} {phase : GoroutinePhase}

theorem act_goroutine (found : w.commons.phase? id = some phase) :
    w.act setting (.goroutine id) =
      ⟨w.main, (phase.after setting id w.commons).2.setPhase id (phase.after setting id w.commons).1⟩ := by
  obtain ⟨main, c⟩ := w
  have found' : c.phase? id = some phase := found
  simp only [act, found']
  rw [GoroutinePhase.act_eq_setPhase found]

theorem deed_goroutine (found : w.commons.phase? id = some phase) :
    w.deed setting (.goroutine id) = phase.deed setting w.commons.shared := by
  simp only [deed, found]

end World

end ControlStash
