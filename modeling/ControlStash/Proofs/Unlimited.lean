import Mathlib.Data.List.Basic
import ControlStash.Run

/-!
# Steps without limits

A limit does one thing only: it puts a fault in the place of a step. `Machine.act` is the step that
a machine takes when no limit is in its way, and this module ties it to `Machine.advance`:

* `advance_eq_act`: under limits that leave room for the step, the machine takes it;
* `advance_eq_act_of_not_limit`: under any limits, a step that does not end in the fault of a limit
  is the step the machine takes without limits.

Between the two stands what a step can end in (`advance_faults`). Besides the faults of limits and
those that the program has to answer for there is only the underflow of the stash, and that one is
raised by an item that finds fewer values than it takes (`Item.taken`).
-/

namespace ControlStash

/-! ## Kinds of faults -/

namespace Fault

/-- The faults that put an end to a run because of a limit. -/
def isLimit : Fault → Bool
  | .stepLimitExceeded _ => true
  | .controlStackOverflow _ => true
  | .goroutineFailed _ e => e.isLimit
  | _ => false

/-- The faults of a stash that does not hold the values it should. -/
def isImbalance : Fault → Bool
  | .stashUnderflow _ => true
  | .invariantViolation _ => true
  | .goroutineFailed _ e => e.isImbalance
  | _ => false

/-- The faults that neither a limit nor an unbalanced stash raises. -/
def isOrdinary (e : Fault) : Bool :=
  !e.isLimit && !e.isImbalance

@[simp]
theorem isOrdinary_ofScope (e : ScopeError) : (ofScope e).isOrdinary = true := by
  cases e <;> rfl

end Fault

theorem UnaryOp.isOrdinary_of_apply {op : UnaryOp} {v : Value} {e : Fault}
    (failed : op.apply v = .error e) : e.isOrdinary = true := by
  unfold UnaryOp.apply at failed
  split at failed <;> cases failed
  rfl

namespace BinaryOp

theorem isOrdinary_of_arithmetic {op : BinaryOp} {f : Int64 → Int64 → Int64}
    {g : Float → Float → Float} {a b : Value} {e : Fault}
    (failed : arithmetic op f g a b = .error e) : e.isOrdinary = true := by
  unfold arithmetic at failed
  split at failed <;> cases failed
  rfl

theorem isOrdinary_of_compare {op : BinaryOp} {a b : Value} {e : Fault}
    (failed : compare op a b = .error e) : e.isOrdinary = true := by
  unfold compare at failed
  split at failed <;> cases failed
  rfl

theorem isOrdinary_of_map_compare {op : BinaryOp} {a b : Value} {f : Comparison → Value} {e : Fault}
    (failed : (compare op a b).map f = .error e) : e.isOrdinary = true := by
  cases compared : compare op a b with
  | ok c => rw [compared] at failed; cases failed
  | error e' =>
    rw [compared] at failed
    cases failed
    exact isOrdinary_of_compare compared

theorem isOrdinary_of_apply {store : Store} {op : BinaryOp} {a b : Value} {e : Fault}
    (failed : op.apply store a b = .error e) : e.isOrdinary = true := by
  unfold apply at failed
  split at failed
  case h_1 | h_13 | h_14 => cases failed
  case h_2 | h_3 | h_4 | h_6 => exact isOrdinary_of_arithmetic failed
  case h_5 | h_7 =>
    split at failed <;> cases failed
    rfl
  case h_8 =>
    cases failed
    rfl
  case h_9 | h_10 | h_11 | h_12 => exact isOrdinary_of_map_compare failed

end BinaryOp

namespace Native

/-- What a built-in function can reply to arguments. -/
inductive Replies (role : Role) (s : Shared) : Native → List Value → Reply → Prop
  | print {v} :
    Replies role s .print [v]
      (.value .undefined { s with output := s.output.push (s.store.display v) })
  | length {ref} :
    Replies role s .arrayLength [.array ref]
      (.value (.int (Int64.ofNat (s.store.elements ref).size)) s)
  | lengthMismatch {v} :
    Replies role s .arrayLength [v] (.fault (.typeError (.lengthOperand v.type)) s)
  | add {delta group} : s.group.add delta = .ok group →
    Replies role s .waitGroupAdd [.int delta] (.value .undefined
      { s with group, groupCalls := { s.groupCalls with adds := s.groupCalls.adds + 1 } })
  | addMisuse {delta counter} : s.group.add delta = .error counter →
    Replies role s .waitGroupAdd [.int delta] (.fault (.waitGroupMisuse counter) s)
  | addMismatch {v} : Replies role s .waitGroupAdd [v] (.fault (.typeError (.groupDelta v.type)) s)
  | wait : Replies role s .waitGroupWait [] (wait role s)
  | arity {native args} :
    Replies role s native args (.fault (.arityMismatch native.arity args.length) s)

/-- What the built-in function that a value names can reply to arguments. -/
inductive Answers (role : Role) (s : Shared) (b : Builtin) (args : List Value) : Reply → Prop
  | known {native reply} : ofName? b.name = some native → Replies role s native args reply →
    Answers role s b args reply
  | unknown : ofName? b.name = none → Answers role s b args (.fault (.unboundName b.name) s)

theorem replies_call (role : Role) (s : Shared) (native : Native) (args : List Value) :
    Replies role s native args (native.call role s args) := by
  cases native with
  | print =>
    rcases args with _ | ⟨v, _ | ⟨w, args⟩⟩
    · exact .arity
    · exact .print
    · exact .arity
  | arrayLength =>
    rcases args with _ | ⟨v, _ | ⟨w, args⟩⟩
    · exact .arity
    · cases v
      case array ref => exact .length
      all_goals exact .lengthMismatch
    · cases v <;> exact .arity
  | waitGroupAdd =>
    rcases args with _ | ⟨v, _ | ⟨w, args⟩⟩
    · exact .arity
    · cases v
      case int delta =>
        unfold call
        dsimp only
        cases added : s.group.add delta with
        | ok group => exact .add added
        | error counter => exact .addMisuse added
      all_goals exact .addMismatch
    · cases v <;> exact .arity
  | waitGroupWait =>
    cases args with
    | nil => exact .wait
    | cons v args => exact .arity

theorem answers_invoke (role : Role) (s : Shared) (b : Builtin) (args : List Value) :
    Answers role s b args (invoke role s b args) := by
  unfold invoke
  split
  · next native found => exact .known found (replies_call role s native args)
  · next found => exact .unknown found

theorem isOrdinary_of_ofVerdict {s s' : Shared} {verdict : WaitGroup.Verdict} {e : Fault}
    (failed : Reply.ofVerdict s verdict = .fault e s') : e.isOrdinary = true := by
  cases verdict <;> cases failed
  rfl

theorem isOrdinary_of_invoke {role : Role} {s s' : Shared} {b : Builtin} {args : List Value}
    {e : Fault} (failed : invoke role s b args = .fault e s') : e.isOrdinary = true := by
  have answers := answers_invoke role s b args
  generalize invoke role s b args = reply at failed answers
  rcases answers with ⟨-, replies⟩ | -
  · cases replies
    case wait => exact isOrdinary_of_ofVerdict failed
    all_goals cases failed
    all_goals rfl
  · cases failed
    rfl

end Native

namespace Machine

theorem isOrdinary_of_position {index : Value} {length : Nat} {e : Fault}
    (failed : position index length = .error e) : e.isOrdinary = true := by
  unfold position at failed
  split at failed
  · split at failed <;> cases failed
    rfl
  · cases failed
    rfl

theorem isOrdinary_of_access {store : Store} {array index : Value} {e : Fault}
    (failed : access store array index = .error e) : e.isOrdinary = true := by
  unfold access at failed
  split at failed
  · next ref =>
    cases found : position index (store.elements ref).size with
    | ok n => rw [found] at failed; cases failed
    | error e' =>
      rw [found] at failed
      cases failed
      exact isOrdinary_of_position found
  · cases failed
    rfl

end Machine

/-! ## Room for a step -/

/-- Limits are ordered field by field. -/
instance : LE Limits := ⟨fun a b => a.steps ≤ b.steps ∧ a.depth ≤ b.depth⟩

namespace Machine

/-- Limits that are in no way of a machine's next step: one more step, and a control stack that
takes whatever the top item schedules. -/
def room (m : Machine) : Limits :=
  { steps := m.steps + 1
    depth :=
      match m.control.toList with
      | .command c :: _ => m.control.size + (c.plan m.env m.stash.size).length + 4
      | _ => m.control.size + 4 }

/-- The next step of a machine that no limit holds up. -/
def act (protocol : CallProtocol) (globals : Env) (role : Role) (m : Machine)
    (s : Shared) : Outcome :=
  m.advance ⟨m.room, globals, protocol⟩ role s

end Machine

namespace Outcome

/-- Whether a step has ended because of a limit. -/
def isCut : Outcome → Bool
  | .stop (.error e) _ _ => e.isLimit
  | _ => false

/-- Two outcomes are the same unless one of them is owed to a limit. -/
def Agree (a b : Outcome) : Prop :=
  a.isCut = true ∨ b.isCut = true ∨ a = b

theorem Agree.rfl {a : Outcome} : a.Agree a := .inr (.inr (Eq.refl a))

theorem Agree.ite {p q : Prop} [Decidable p] [Decidable q] {a a' x x' : Outcome}
    (same : a.Agree a') (cut : x.isCut = true) (cut' : x'.isCut = true) :
    (if p then a else x).Agree (if q then a' else x') := by
  split
  · split
    · exact same
    · exact .inr (.inl cut')
  · exact .inl cut

end Outcome

namespace Machine

section Agreement

variable {globals : Env} {protocol : CallProtocol} {role : Role} {limits limits' : Limits}
  {m : Machine} {s : Shared}

theorem schedule_agree (items : List Item) (env : Env) :
    (m.schedule limits items env s).Agree (m.schedule limits' items env s) :=
  .ite .rfl rfl rfl

/-- Entering a body schedules items that do not depend on the limits. -/
theorem enter_eq_schedule (globals : Env) (protocol : CallProtocol) (body : Command) (env : Env)
    (m : Machine) (s : Shared) :
    ∃ items below, items.length + below.control.size ≤ m.control.size + 3 ∧
      ∀ limits, m.enter ⟨limits, globals, protocol⟩ body env s =
        schedule limits items env below s := by
  unfold enter enterPlain
  dsimp only
  split
  · exact ⟨_, m, by simp +arith, fun _ => rfl⟩
  · exact ⟨_, m, by simp +arith, fun _ => rfl⟩
  · exact ⟨_, m, by simp +arith, fun _ => rfl⟩
  · split
    · exact ⟨_, { m with control := m.control.drop _ }, by simp +arith, fun _ => rfl⟩
    · exact ⟨_, m, by simp +arith, fun _ => rfl⟩
  · exact ⟨_, m, by simp +arith, fun _ => rfl⟩

theorem expand_agree (c : Command) :
    (m.expand ⟨limits, globals, protocol⟩ c s).Agree
      (m.expand ⟨limits', globals, protocol⟩ c s) := by
  cases c
  case lit | name | lambda | unrecognized => exact .rfl
  case block => exact .ite .rfl rfl rfl
  all_goals exact schedule_agree _ _

/-- The values of a call are there, unless there are fewer than its arguments and the callee. -/
theorem operands_cases (arity : Nat) (stash : Stack Value) :
    (stash.size < arity + 1 ∧ (stash.popMany? arity = none ∨ ∃ args, ∃ rest : Stack Value,
        stash.popMany? arity = some (args, rest) ∧ rest.pop? = none)) ∨
      ∃ args callee, ∃ rest : Stack Value, args.length = arity ∧
        stash.toList = args.reverse ++ callee :: rest.toList ∧
        stash.popMany? arity = some (args, rest.push callee) ∧
        (rest.push callee).pop? = some (callee, rest) := by
  rcases popped : stash.popMany? arity with _ | ⟨args, below⟩
  · rw [Stack.popMany?_eq_none_iff] at popped
    exact .inl ⟨by omega, .inl rfl⟩
  obtain ⟨contents, count⟩ := Stack.popMany?_eq_some_iff.mp popped
  rcases top : below.pop? with _ | ⟨callee, rest⟩
  · refine .inl ⟨?_, .inr ⟨args, below, rfl, top⟩⟩
    rw [Stack.pop?_eq_none_iff] at top
    have size := congrArg List.length contents
    simp only [top, List.append_nil, List.length_reverse, Stack.length_toList] at size
    omega
  · rw [Stack.pop?_eq_some_iff] at top
    obtain rfl : below = rest.push callee := Stack.ext top
    exact .inr ⟨args, callee, rest, count, contents, rfl, Stack.pop?_eq_some_iff.mpr rfl⟩

/-- There are fewer values than are asked for, or as many can be popped. -/
theorem few_or_some (n : Nat) (stash : Stack Value) :
    (stash.size < n ∧ stash.popMany? n = none) ∨
      ∃ args, ∃ rest : Stack Value, args.length = n ∧ stash.popMany? n = some (args, rest) := by
  rcases popped : stash.popMany? n with _ | ⟨args, rest⟩
  · exact .inl ⟨Stack.popMany?_eq_none_iff.mp popped, rfl⟩
  · exact .inr ⟨args, rest, (Stack.popMany?_eq_some_iff.mp popped).2, rfl⟩

theorem call_agree (arity : Nat) :
    (m.call ⟨limits, globals, protocol⟩ role arity s).Agree
      (m.call ⟨limits', globals, protocol⟩ role arity s) := by
  unfold call
  rcases operands_cases arity m.stash with
    ⟨-, popped | ⟨args, rest, popped, top⟩⟩ | ⟨args, callee, rest, -, -, popped, top⟩
  · simp only [popped]
    exact .rfl
  · simp only [popped, top]
    exact .rfl
  · simp only [popped, top]
    cases callee
    case closure c =>
      dsimp only
      rcases s.store.extend c.env c.params args with e | ⟨env, store⟩
      · exact .rfl
      · obtain ⟨items, below, -, eq⟩ := enter_eq_schedule globals protocol c.body env
          { m with stash := rest } { s with store }
        simp only [eq]
        exact schedule_agree _ _
    all_goals exact .rfl

theorem throw_agree : (m.throw limits s).Agree (m.throw limits' s) := by
  unfold throw
  split
  · exact .rfl
  · split
    · exact .rfl
    · exact .ite .rfl rfl rfl
  · exact schedule_agree _ _

theorem execute_agree (i : Instruction) :
    (m.execute ⟨limits, globals, protocol⟩ role i s).Agree
      (m.execute ⟨limits', globals, protocol⟩ role i s) := by
  cases i
  case call arity => exact call_agree arity
  case throw => exact throw_agree
  case branch =>
    simp only [execute]
    split
    · exact schedule_agree _ _
    · split
      · exact schedule_agree _ _
      · exact .rfl
    · exact .rfl
    · exact .rfl
  case loop =>
    simp only [execute]
    split
    · exact schedule_agree _ _
    · exact .rfl
    · exact .rfl
    · exact .rfl
  all_goals exact .rfl

/-- Limits change a step only by putting their own fault in its place. -/
theorem advance_agree (globals : Env) (protocol : CallProtocol) (role : Role)
    (limits limits' : Limits) (m : Machine) (s : Shared) :
    (m.advance ⟨limits, globals, protocol⟩ role s).Agree
      (m.advance ⟨limits', globals, protocol⟩ role s) := by
  unfold advance
  split
  · exact .rfl
  · next item control _ =>
    simp only [← Nat.not_lt, ite_not]
    refine .ite ?_ rfl rfl
    cases item with
    | command c => exact expand_agree c
    | instruction i => exact execute_agree i

end Agreement

end Machine

/-! ## The faults of a step -/

/-- The number of values that an instruction takes off the stash or looks at. -/
def Instruction.taken : Instruction → Nat
  | .unary _ => 1
  | .binary _ => 2
  | .pop => 1
  | .assign _ => 1
  | .call arity => arity + 1
  | .branch _ _ => 1
  | .loop _ _ _ => 1
  | .restore _ => 0
  | .makeArray arity => arity
  | .index => 2
  | .indexAssign => 3
  | .mark => 0
  | .reset => 1
  | .throw => 1
  | .catch _ _ _ _ => 0
  | .go arity => arity + 1

/-- The number of values that an item takes off the stash or looks at: a command takes none. -/
def Item.taken : Item → Nat
  | .command _ => 0
  | .instruction i => i.taken

/-- A fault that a step ends in has the given property. -/
def Outcome.Faults (P : Fault → Prop) : Outcome → Prop
  | .stop (.error e) _ _ => P e
  | _ => True

namespace Machine

section Faults

variable {P : Fault → Prop} {setting : Setting} {role : Role} {m : Machine} {s : Shared}

theorem schedule_faults {limits : Limits} {items : List Item} {env : Env}
    (overflow : limits.depth < items.length + m.control.size →
      P (.controlStackOverflow limits.depth)) :
    (m.schedule limits items env s).Faults P := by
  unfold schedule
  split
  · trivial
  · exact overflow (by omega)

theorem expand_faults {c : Command} (ordinary : ∀ e, e.isOrdinary = true → P e)
    (overflow : setting.limits.depth < m.control.size + (c.plan m.env m.stash.size).length + 2 →
      P (.controlStackOverflow setting.limits.depth)) :
    (m.expand setting c s).Faults P := by
  cases c
  case lit | lambda => trivial
  case name =>
    simp only [expand]
    split
    · trivial
    · exact ordinary _ (by simp)
  case unrecognized => exact ordinary _ rfl
  case block body =>
    have length : (m.blockPlan setting.protocol body).length ≤ 2 := by
      unfold blockPlan
      split <;> simp
    simp only [expand]
    split
    · split
      · trivial
      · exact ordinary _ (by simp)
    · exact overflow (by omega)
  all_goals exact schedule_faults fun small => overflow (by omega)

theorem call_faults {arity : Nat} (ordinary : ∀ e, e.isOrdinary = true → P e)
    (overflow : setting.limits.depth < m.control.size + 3 →
      P (.controlStackOverflow setting.limits.depth))
    (underflow : m.stash.size < arity + 1 → P (.stashUnderflow m.steps)) :
    (m.call setting role arity s).Faults P := by
  unfold call
  rcases operands_cases arity m.stash with
    ⟨few, popped | ⟨args, rest, popped, top⟩⟩ | ⟨args, callee, rest, -, -, popped, top⟩
  · simp only [popped]
    exact underflow few
  · simp only [popped, top]
    exact underflow few
  · simp only [popped, top]
    cases callee
    case builtin b =>
      dsimp only
      rcases reply : Native.invoke role s b args with ⟨v, s'⟩ | ⟨e, s'⟩ | s'
      · trivial
      · exact ordinary _ (Native.isOrdinary_of_invoke reply)
      · trivial
    case closure c =>
      dsimp only
      rcases s.store.extend c.env c.params args with e | ⟨env, store⟩
      · exact ordinary _ (by simp)
      · obtain ⟨items, below, length, eq⟩ := enter_eq_schedule setting.globals setting.protocol
          c.body env { m with stash := rest } { s with store }
        have entered := eq setting.limits
        simp only [entered]
        exact schedule_faults fun small => overflow (by simp only at length; omega)
    all_goals exact ordinary _ rfl

theorem go_faults {globals : Env} {arity : Nat} (ordinary : ∀ e, e.isOrdinary = true → P e)
    (underflow : m.stash.size < arity + 1 → P (.stashUnderflow m.steps)) :
    (m.go globals arity s).Faults P := by
  unfold go
  rcases operands_cases arity m.stash with
    ⟨few, popped | ⟨args, rest, popped, top⟩⟩ | ⟨args, callee, rest, -, -, popped, top⟩
  · simp only [popped]
    exact underflow few
  · simp only [popped, top]
    exact underflow few
  · simp only [popped, top]
    cases callee
    case builtin b =>
      dsimp only
      split
      · trivial
      · exact ordinary _ rfl
    case closure c =>
      dsimp only
      rcases s.store.extend globals c.params args with e | ⟨env, store⟩
      · exact ordinary _ (by simp)
      · trivial
    all_goals exact ordinary _ rfl

theorem throw_faults {limits : Limits} (ordinary : ∀ e, e.isOrdinary = true → P e)
    (overflow : limits.depth < m.control.size + 1 → P (.controlStackOverflow limits.depth))
    (underflow : m.stash.size < 1 → P (.stashUnderflow m.steps)) :
    (m.throw limits s).Faults P := by
  have empty : m.stash.pop? = none → m.stash.size < 1 := by
    intro none
    rw [Stack.pop?_eq_none_iff] at none
    simp [← Stack.length_toList, none]
  unfold throw
  rcases popped : m.control.pop? with _ | ⟨item, control⟩
  · rcases top : m.stash.pop? with _ | ⟨v, stash⟩
    · exact underflow (empty top)
    · exact ordinary _ rfl
  · have height : m.control.size = control.size + 1 := by
      rw [← Stack.length_toList, ← Stack.length_toList, Stack.pop?_eq_some_iff.mp popped,
        List.length_cons]
    dsimp only
    split
    · contradiction
    · rcases top : m.stash.pop? with _ | ⟨v, stash⟩
      · exact underflow (empty top)
      · next eq =>
        cases eq
        dsimp only
        split
        · split
          · trivial
          · exact ordinary _ (by simp)
        · exact overflow (by simp only [List.length_cons, List.length_nil] at *; omega)
    · next eq =>
      cases eq
      exact schedule_faults fun small => overflow (by simp at small; omega)

theorem execute_faults {i : Instruction} (ordinary : ∀ e, e.isOrdinary = true → P e)
    (overflow : setting.limits.depth < m.control.size + 4 →
      P (.controlStackOverflow setting.limits.depth))
    (underflow : m.stash.size < i.taken → P (.stashUnderflow m.steps)) :
    (m.execute setting role i s).Faults P := by
  have one : m.stash.pop? = none → m.stash.size < 1 := by
    intro none
    rw [Stack.pop?_eq_none_iff] at none
    simp [← Stack.length_toList, none]
  cases i
  case restore | mark => trivial
  case reset =>
    simp only [execute, reset]
    split <;> trivial
  case call arity => exact call_faults ordinary (fun small => overflow (by omega)) underflow
  case go arity => exact go_faults ordinary underflow
  case throw => exact throw_faults ordinary (fun small => overflow (by omega)) underflow
  case unary op =>
    simp only [execute]
    split
    · split
      · trivial
      · next failed => exact ordinary _ (UnaryOp.isOrdinary_of_apply failed)
    · next none => exact underflow (one none)
  case pop =>
    simp only [execute]
    split
    · trivial
    · next none => exact underflow (one none)
  case assign =>
    simp only [execute]
    split
    · split
      · trivial
      · exact ordinary _ (by simp)
    · next none => exact underflow (one none)
  case branch =>
    simp only [execute]
    split
    · exact schedule_faults fun small => overflow (by simp at small; omega)
    · split
      · exact schedule_faults fun small => overflow (by simp at small; omega)
      · trivial
    · exact ordinary _ rfl
    · next none => exact underflow (one none)
  case loop =>
    simp only [execute]
    split
    · exact schedule_faults fun small => overflow (by simp at small; omega)
    · trivial
    · exact ordinary _ rfl
    · next none => exact underflow (one none)
  case makeArray arity =>
    simp only [execute]
    split
    · trivial
    · next none => exact underflow (Stack.popMany?_eq_none_iff.mp none)
  case binary op =>
    rcases few_or_some 2 m.stash with ⟨few, popped⟩ | ⟨args, rest, length, popped⟩
    · simp only [execute, popped]
      exact underflow few
    · obtain ⟨a, b, rfl⟩ := List.length_eq_two.mp length
      simp only [execute, popped]
      split
      · trivial
      · next failed => exact ordinary _ (BinaryOp.isOrdinary_of_apply failed)
  case index =>
    rcases few_or_some 2 m.stash with ⟨few, popped⟩ | ⟨args, rest, length, popped⟩
    · simp only [execute, popped]
      exact underflow few
    · obtain ⟨a, b, rfl⟩ := List.length_eq_two.mp length
      simp only [execute, popped]
      split
      · split
        · trivial
        · exact ordinary _ rfl
      · next failed => exact ordinary _ (isOrdinary_of_access failed)
  case indexAssign =>
    rcases few_or_some 3 m.stash with ⟨few, popped⟩ | ⟨args, rest, length, popped⟩
    · simp only [execute, popped]
      exact underflow few
    · obtain ⟨a, b, v, rfl⟩ := List.length_eq_three.mp length
      simp only [execute, popped]
      split
      · split
        · trivial
        · exact ordinary _ rfl
      · next failed => exact ordinary _ (isOrdinary_of_access failed)
  all_goals trivial

/-- The faults of a step. An overflow needs a limit too low for the step, and an underflow an item
that takes more values than there are. -/
theorem advance_faults
    (ordinary : ∀ e, e.isOrdinary = true → P e)
    (limit : ∀ e, e.isLimit = true → ¬ m.room ≤ setting.limits → P e)
    (underflow : ∀ item items, m.control.toList = item :: items → m.stash.size < item.taken →
      P (.stashUnderflow (m.steps + 1)))
    (imbalance : m.control.toList = [] → ∀ e, m.finish = .error e → P e) :
    (m.advance setting role s).Faults P := by
  unfold advance
  rcases popped : m.control.pop? with _ | ⟨item, control⟩
  · rw [Stack.pop?_eq_none_iff] at popped
    dsimp only
    cases finished : m.finish with
    | ok v => trivial
    | error e => exact imbalance popped e finished
  · have contents := Stack.pop?_eq_some_iff.mp popped
    have height : m.control.size = control.size + 1 := by
      rw [← Stack.length_toList, ← Stack.length_toList, contents, List.length_cons]
    dsimp only
    split
    · refine limit _ rfl fun enough => ?_
      have steps : m.steps + 1 ≤ setting.limits.steps := enough.1
      omega
    · cases item with
      | command c =>
        refine expand_faults ordinary fun small => limit _ rfl fun enough => ?_
        have depth := enough.2
        simp only [room, contents] at depth small
        omega
      | instruction i =>
        refine execute_faults ordinary (fun small => limit _ rfl fun enough => ?_)
          (underflow _ _ contents)
        have depth := enough.2
        simp only [room, contents] at depth small
        omega

end Faults

section Unlimited

variable {globals : Env} {protocol : CallProtocol} {role : Role} {limits : Limits}
  {m m' : Machine} {s s' : Shared}

theorem isCut_advance_of_room (enough : m.room ≤ limits) :
    (m.advance ⟨limits, globals, protocol⟩ role s).isCut = false := by
  have faults : (m.advance ⟨limits, globals, protocol⟩ role s).Faults (·.isLimit = false) := by
    refine advance_faults (fun e ordinary => ?_) (fun e _ few => absurd enough few)
      (fun _ _ _ _ => rfl) (fun _ e finished => ?_)
    · simp only [Fault.isOrdinary, Bool.and_eq_true, Bool.not_eq_true'] at ordinary
      exact ordinary.1
    · unfold finish at finished
      split at finished <;> cases finished
      rfl
  revert faults
  cases m.advance ⟨limits, globals, protocol⟩ role s with
  | stop result _ _ =>
    cases result with
    | ok v => exact fun _ => rfl
    | error e => exact id
  | _ => exact fun _ => rfl

/-- Under limits that leave room for it a machine takes the step it takes without limits. -/
theorem advance_eq_act (enough : m.room ≤ limits) :
    m.advance ⟨limits, globals, protocol⟩ role s = m.act protocol globals role s := by
  rcases advance_agree globals protocol role limits m.room m s with cut | cut | same
  · rw [isCut_advance_of_room enough] at cut
    cases cut
  · rw [isCut_advance_of_room ⟨Nat.le_refl _, Nat.le_refl _⟩] at cut
    cases cut
  · exact same

/-- Under any limits, a step that does not end in the fault of a limit is the step that the machine
takes without limits. -/
theorem advance_eq_act_of_not_limit
    (uncut : (m.advance ⟨limits, globals, protocol⟩ role s).isCut = false) :
    m.advance ⟨limits, globals, protocol⟩ role s = m.act protocol globals role s := by
  rcases advance_agree globals protocol role limits m.room m s with cut | cut | same
  · rw [uncut] at cut
    cases cut
  · rw [isCut_advance_of_room ⟨Nat.le_refl _, Nat.le_refl _⟩] at cut
    cases cut
  · exact same

end Unlimited

end Machine

end ControlStash
