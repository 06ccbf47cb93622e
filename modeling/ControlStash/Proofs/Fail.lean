import ControlStash.Proofs.Move

/-!
# The faults of a machine

`Fails` lists the faults that the top item of a control stack raises, rule by rule, as `Move` lists
what a step does otherwise. A fault depends on the item, the values it takes, the environment and
what the contexts share; it does not depend on the items below, on the call protocol or on the
number of steps. Besides, a context ends with an empty control stack and with a throw that nothing
catches: `Halts` has all three. `Halts.act` and `Machine.halts_of_act` say that a machine whose
stash holds enough for the top item ends by these rules and by no others.
-/

namespace ControlStash

/-- Whether a value can be called. -/
def Value.isCallable : Value → Bool
  | .closure _ => true
  | .builtin _ => true
  | _ => false

/-- Whether a value is a truth value. -/
def Value.isBool : Value → Bool
  | .bool _ => true
  | _ => false

/-- An operator that fails has met operands that do not fit, or a zero. -/
theorem BinaryOp.fault_of_apply {store : Store} {op : BinaryOp} {a b : Value} {e : Fault}
    (failed : op.apply store a b = .error e) : e = op.mismatch a b ∨ e = .divisionByZero := by
  have arithmetic : ∀ {op : BinaryOp} {f g}, arithmetic op f g a b = .error e →
      e = op.mismatch a b := by
    intro op f g failed
    unfold BinaryOp.arithmetic at failed
    split at failed <;> cases failed
    rfl
  have compare : ∀ {op : BinaryOp} {f : Comparison → Value}, (compare op a b).map f = .error e →
      e = op.mismatch a b := by
    intro op f failed
    unfold BinaryOp.compare at failed
    split at failed <;> cases failed
    rfl
  unfold apply at failed
  split at failed
  case h_1 | h_13 | h_14 => cases failed
  case h_2 | h_3 | h_4 | h_6 => exact .inl (arithmetic failed)
  case h_5 | h_7 =>
    split at failed <;> cases failed
    exact .inr rfl
  case h_8 =>
    cases failed
    exact .inl rfl
  case h_9 | h_10 | h_11 | h_12 => exact .inl (compare failed)

/-- An access that fails has met a value of a wrong type, or a position outside the array. -/
theorem Machine.fault_of_access {store : Store} {array index : Value} {e : Fault}
    (failed : access store array index = .error e) :
    (∃ mismatch, e = .typeError mismatch) ∨ ∃ index length, e = .indexOutOfRange index length := by
  unfold access at failed
  split at failed
  · unfold position at failed
    split at failed
    · split at failed <;> cases failed
      exact .inr ⟨_, _, rfl⟩
    · cases failed
      exact .inl ⟨_, rfl⟩
  · cases failed
    exact .inl ⟨_, rfl⟩

/-- The fault that an item raises, and what the contexts share after it. -/
inductive Fails (globals : Env) (role : Role) :
    Item → List Value → Env → Shared → Fault → Shared → Prop
  | name {sym e S env s} : s.store.lookup env sym = .error e →
    Fails globals role (.command (.name sym)) S env s (.ofScope e) s
  | unrecognized {S env s} :
    Fails globals role (.command .unrecognized) S env s
      (.unknownInstruction Command.unrecognized.tag) s
  | unary {op v e S env s} : op.apply v = .error e →
    Fails globals role (.instruction (.unary op)) (v :: S) env s e s
  | binary {op a b e S env s} : op.apply s.store a b = .error e →
    Fails globals role (.instruction (.binary op)) (b :: a :: S) env s e s
  | assign {sym v e S env s} : s.store.assign env sym v = .error e →
    Fails globals role (.instruction (.assign sym)) (v :: S) env s (.ofScope e) s
  | native {arity b args e s' S env s} : args.length = arity →
    Native.invoke role s b args = .fault e s' →
    Fails globals role (.instruction (.call arity)) (args.reverse ++ .builtin b :: S) env s e s'
  | params {arity c args e S env s} : args.length = arity →
    s.store.extend c.env c.params args = .error e →
    Fails globals role (.instruction (.call arity)) (args.reverse ++ .closure c :: S) env s
      (.ofScope e) s
  | callee {arity v S env s} {args : List Value} : args.length = arity → v.isCallable = false →
    Fails globals role (.instruction (.call arity)) (args.reverse ++ v :: S) env s
      (.typeError (.callee v.type)) s
  | condition {cons alt v S env s} : v.isBool = false →
    Fails globals role (.instruction (.branch cons alt)) (v :: S) env s
      (.typeError (.condition v.type)) s
  | loopCondition {form pred body v S env s} : v.isBool = false →
    Fails globals role (.instruction (.loop form pred body)) (v :: S) env s
      (.typeError (.loopCondition v.type)) s
  | index {array position e S env s} : Machine.access s.store array position = .error e →
    Fails globals role (.instruction .index) (position :: array :: S) env s e s
  | indexAssign {array position v e S env s} : Machine.access s.store array position = .error e →
    Fails globals role (.instruction .indexAssign) (v :: position :: array :: S) env s e s
  | goParams {arity c args e S env s} : args.length = arity →
    s.store.extend globals c.params args = .error e →
    Fails globals role (.instruction (.go arity)) (args.reverse ++ .closure c :: S) env s
      (.ofScope e) s
  | goArity {arity S env s} {b : Builtin} {args : List Value} : args.length = arity →
    args.length ≠ b.arity →
    Fails globals role (.instruction (.go arity)) (args.reverse ++ .builtin b :: S) env s
      (.arityMismatch b.arity args.length) s
  | goroutine {arity v S env s} {args : List Value} : args.length = arity → v.isCallable = false →
    Fails globals role (.instruction (.go arity)) (args.reverse ++ v :: S) env s
      (.typeError (.goroutine v.type)) s

open Machine (of)

namespace Fails

open Machine

variable {protocol : CallProtocol} {globals : Env} {role : Role} {item : Item} {K : List Item}
  {S : List Value} {env : Env} {k : Nat} {s s' : Shared} {e : Fault}

/-- A rule is what the step function does, whatever lies below the item. -/
theorem act (fails : Fails globals role item S env s e s') (protocol : CallProtocol) (K : List Item)
    (k : Nat) :
    ∃ m', m'.steps = k + 1 ∧
      (of (item :: K) S env k).act protocol globals role s = .stop (.error e) m' s' := by
  cases fails
  case name failed =>
    rw [act_command]
    simp [expand, failed, fail]
  case unrecognized =>
    rw [act_command]
    exact ⟨_, rfl, rfl⟩
  case unary failed =>
    rw [act_instruction]
    simp [execute, of, failed, fail]
  case binary failed =>
    rw [act_instruction]
    simp [execute, of, failed, fail]
  case assign failed =>
    rw [act_instruction]
    simp [execute, of, failed, fail]
  case native arity b args S length reply =>
    have popped := Stack.popMany?_ofList args (Value.builtin b :: S)
    rw [act_instruction]
    simp [execute, Machine.call, of, ← length, popped, reply, fail]
  case params arity c args e S length failed =>
    have popped := Stack.popMany?_ofList args (Value.closure c :: S)
    rw [act_instruction]
    simp [execute, Machine.call, of, ← length, popped, failed, fail]
  case callee arity v S args length failed =>
    have popped := Stack.popMany?_ofList args (v :: S)
    rw [act_instruction]
    cases v
    case closure | builtin => cases failed
    all_goals simp [execute, Machine.call, of, ← length, popped, fail]
  case condition cons alt v S failed =>
    rw [act_instruction]
    cases v
    case bool => cases failed
    all_goals exact ⟨_, rfl, rfl⟩
  case loopCondition form pred body v S failed =>
    rw [act_instruction]
    cases v
    case bool => cases failed
    all_goals exact ⟨_, rfl, rfl⟩
  case index failed =>
    rw [act_instruction]
    simp [execute, of, failed, fail]
  case indexAssign failed =>
    rw [act_instruction]
    simp [execute, of, failed, fail]
  case goParams arity c args e S length failed =>
    have popped := Stack.popMany?_ofList args (Value.closure c :: S)
    rw [act_instruction]
    simp [execute, go, of, ← length, popped, failed, fail]
  case goArity arity S b args length failed =>
    have popped := Stack.popMany?_ofList args (Value.builtin b :: S)
    subst length
    rw [act_instruction]
    simp [execute, go, of, popped, failed, fail]
  case goroutine arity v S args length failed =>
    have popped := Stack.popMany?_ofList args (v :: S)
    rw [act_instruction]
    cases v
    case closure | builtin => cases failed
    all_goals simp [execute, go, of, ← length, popped, fail]

end Fails

/-! ## Faults about a name -/

/-- The name that a fault is about. -/
def Fault.name? : Fault → Option String
  | .unboundName sym => some sym
  | .unassignedName sym => some sym
  | _ => none

namespace Store

variable {store : Store} {env : Env} {sym : String} {v : Value} {e : ScopeError}

theorem error_of_lookup (failed : store.lookup env sym = .error e) :
    e = .unbound sym ∨ e = .unassigned sym := by
  unfold lookup at failed
  split at failed
  · exact .inl (Except.error.inj failed).symm
  · exact .inr (Except.error.inj failed).symm
  · cases failed

theorem error_of_assign (failed : store.assign env sym v = .error e) : e = .unbound sym := by
  unfold assign at failed
  split at failed <;> cases failed
  rfl

end Store

/-- A built-in function that is known raises no fault about a name. -/
theorem Native.name?_of_invoke {role : Role} {s s' : Shared} {b : Builtin} {args : List Value}
    {e : Fault} (failed : invoke role s b args = .fault e s') :
    e.name? = none ∨ ofName? b.name = none ∧ e = .unboundName b.name := by
  have answers := answers_invoke role s b args
  generalize invoke role s b args = reply at failed answers
  rcases answers with ⟨-, replies⟩ | unknown
  · refine .inl ?_
    cases replies
    case wait =>
      unfold wait at failed
      revert failed
      rcases s.group.wait role with ⟨verdict, group⟩
      intro failed
      cases verdict <;> cases failed
      rfl
    all_goals cases failed
    all_goals rfl
  · cases failed
    exact .inr ⟨unknown, rfl⟩

/-- A fault about a name is raised by a look-up, by an assignment or by the call of a built-in
function that is not known. -/
theorem Fails.name? {globals : Env} {role : Role} {item : Item} {S : List Value} {env : Env}
    {s s' : Shared} {e : Fault} {x : String} (fails : Fails globals role item S env s e s')
    (about : e.name? = some x) :
    (∃ error, e = .ofScope error ∧ item = .command (.name x) ∧
      s.store.lookup env x = .error error) ∨
    (∃ v rest, e = .unboundName x ∧ item = .instruction (.assign x) ∧ S = v :: rest ∧
      s.store.assign env x v = .error (.unbound x)) ∨
    ∃ b, e = .unboundName x ∧ .builtin b ∈ S ∧ Native.ofName? b.name = none := by
  cases fails
  case name failed =>
    left
    rcases Store.error_of_lookup failed with rfl | rfl <;> cases about <;> exact ⟨_, rfl, rfl, failed⟩
  case assign failed =>
    right
    left
    cases Store.error_of_assign failed
    cases about
    exact ⟨_, _, rfl, rfl, rfl, failed⟩
  case native b args S length failed =>
    right
    right
    rcases Native.name?_of_invoke failed with none | ⟨unknown, rfl⟩
    · rw [none] at about
      cases about
    · cases about
      exact ⟨b, rfl, by simp, unknown⟩
  case unary failed =>
    unfold UnaryOp.apply at failed
    split at failed <;> cases failed
    cases about
  case binary failed =>
    rcases BinaryOp.fault_of_apply failed with rfl | rfl <;> cases about
  case index failed | indexAssign failed =>
    rcases Machine.fault_of_access failed with ⟨mismatch, rfl⟩ | ⟨index, length, rfl⟩ <;>
      cases about
  case params failed | goParams failed =>
    unfold Store.extend at failed
    split at failed <;> cases failed
    cases about
  all_goals cases about

namespace Machine

section Complete

variable {protocol : CallProtocol} {globals : Env} {role : Role} {item : Item} {K : List Item}
  {S : List Value} {env : Env} {k : Nat} {s s' : Shared} {m m' : Machine}
  {result : Except Fault Value}

/-- A position that an access names is in the array. -/
theorem lt_of_access {store : Store} {array index : Value} {ref : ArrayRef} {n : Nat}
    (accessed : access store array index = .ok (ref, n)) : n < (store.elements ref).size := by
  unfold access at accessed
  split at accessed
  · next ref' =>
    unfold position at accessed
    split at accessed
    · split at accessed
      · next inRange =>
        cases accessed
        have nonneg : 0 ≤ (Int64.toInt _) := Int64.le_iff_toInt_le.mp inRange.1
        omega
      · cases accessed
    · cases accessed
  · cases accessed

theorem not_stop_of_move {o : Outcome} (move : Move protocol globals role m s o)
    (stops : m.act protocol globals role s = .stop result m' s') : False := by
  rw [move.act_eq] at stops
  subst stops
  cases move

theorem fails_of_stop {e : Fault} {s₁ : Shared} (fails : Fails globals role item S env s e s₁)
    (stops : (of (item :: K) S env k).act protocol globals role s = .stop result m' s') :
    ∃ e, result = .error e ∧ Fails globals role item S env s e s' := by
  obtain ⟨_, -, act⟩ := fails.act protocol K k
  rw [act] at stops
  cases stops
  exact ⟨e, rfl, fails⟩

theorem fails_of_command {c : Command}
    (stops : (of (.command c :: K) S env k).act protocol globals role s = .stop result m' s') :
    ∃ e, result = .error e ∧ Fails globals role (.command c) S env s e s' := by
  cases c
  case lit => exact (not_stop_of_move .lit stops).elim
  case name sym =>
    cases found : s.store.lookup env sym with
    | ok v => exact (not_stop_of_move (.name found) stops).elim
    | error e => exact fails_of_stop (.name found) stops
  case lambda => exact (not_stop_of_move .lambda stops).elim
  case block body =>
    cases extended : s.store.extend env body.locals (body.locals.map fun _ => .unassigned) with
    | ok made => exact (not_stop_of_move (.block extended) stops).elim
    | error e => simp [Store.extend] at extended
  case unrecognized => exact fails_of_stop .unrecognized stops
  all_goals exact (not_stop_of_move (.plan rfl) stops).elim

/-- The values of a call: the arguments and the callee below them. -/
theorem exists_call {arity : Nat} (enough : arity + 1 ≤ S.length) :
    ∃ (args : List Value) (callee : Value) (rest : List Value),
      args.length = arity ∧ S = args.reverse ++ callee :: rest := by
  obtain ⟨args, rest, length, rfl⟩ := exists_operands (Nat.le_of_succ_le enough)
  rcases rest with _ | ⟨callee, rest⟩
  · simp only [List.append_nil, List.length_reverse] at enough
    omega
  · exact ⟨args, callee, rest, length, rfl⟩

theorem fails_of_instruction {i : Instruction} (notThrow : i ≠ .throw)
    (stops : (of (.instruction i :: K) S env k).act protocol globals role s = .stop result m' s')
    (enough : i.taken ≤ S.length) :
    ∃ e, result = .error e ∧ Fails globals role (.instruction i) S env s e s' := by
  cases i
  case throw => exact absurd rfl notThrow
  case restore => exact (not_stop_of_move .restore stops).elim
  case mark => exact (not_stop_of_move .mark stops).elim
  case reset =>
    cases K with
    | nil => exact (not_stop_of_move .resetEmpty stops).elim
    | cons item K =>
      cases marked : item.isMark with
      | false => exact (not_stop_of_move (.resetDiscard marked) stops).elim
      | true =>
        obtain rfl := Item.eq_mark_of_isMark marked
        exact (not_stop_of_move .resetMark stops).elim
  case pop =>
    obtain ⟨v, S, rfl⟩ := List.exists_cons_of_length_pos enough
    exact (not_stop_of_move .pop stops).elim
  case unary op =>
    obtain ⟨v, S, rfl⟩ := List.exists_cons_of_length_pos enough
    cases applied : op.apply v with
    | ok w => exact (not_stop_of_move (.unary applied) stops).elim
    | error e => exact fails_of_stop (.unary applied) stops
  case assign sym =>
    obtain ⟨v, S, rfl⟩ := List.exists_cons_of_length_pos enough
    cases assigned : s.store.assign env sym v with
    | ok store => exact (not_stop_of_move (.assign assigned) stops).elim
    | error e => exact fails_of_stop (.assign assigned) stops
  case branch cons alt =>
    obtain ⟨v, S, rfl⟩ := List.exists_cons_of_length_pos enough
    cases v
    case bool b =>
      cases b with
      | true => exact (not_stop_of_move .branchTrue stops).elim
      | false =>
        cases alt with
        | none => exact (not_stop_of_move .branchNone stops).elim
        | some alt => exact (not_stop_of_move .branchFalse stops).elim
    all_goals exact fails_of_stop (.condition rfl) stops
  case loop form pred body =>
    obtain ⟨v, S, rfl⟩ := List.exists_cons_of_length_pos enough
    cases v
    case bool b =>
      cases b with
      | true => exact (not_stop_of_move .loopAgain stops).elim
      | false => exact (not_stop_of_move .loopDone stops).elim
    all_goals exact fails_of_stop (.loopCondition rfl) stops
  case binary op =>
    obtain ⟨args, S, length, rfl⟩ := exists_operands enough
    obtain ⟨a, b, rfl⟩ := List.length_eq_two.mp length
    cases applied : op.apply s.store a b with
    | ok v => exact (not_stop_of_move (.binary applied) stops).elim
    | error e => exact fails_of_stop (.binary applied) stops
  case makeArray arity =>
    obtain ⟨args, S, length, rfl⟩ := exists_operands enough
    exact (not_stop_of_move (.makeArray length) stops).elim
  case index =>
    obtain ⟨args, S, length, rfl⟩ := exists_operands enough
    obtain ⟨array, position, rfl⟩ := List.length_eq_two.mp length
    rcases accessed : access s.store array position with e | ⟨ref, n⟩
    · exact fails_of_stop (.index accessed) stops
    · have found : s.store.element? ref n = some _ :=
        Array.getElem?_eq_getElem (lt_of_access accessed)
      exact (not_stop_of_move (.index accessed found) stops).elim
  case indexAssign =>
    obtain ⟨args, S, length, rfl⟩ := exists_operands enough
    obtain ⟨array, position, v, rfl⟩ := List.length_eq_three.mp length
    rcases accessed : access s.store array position with e | ⟨ref, n⟩
    · exact fails_of_stop (.indexAssign accessed) stops
    · exact (not_stop_of_move (.indexAssign accessed (lt_of_access accessed)) stops).elim
  case call arity =>
    obtain ⟨args, callee, S, rfl, rfl⟩ := exists_call enough
    cases callee
    case builtin b =>
      rcases reply : Native.invoke role s b args with ⟨v, s'⟩ | ⟨e, s'⟩ | s'
      · exact (not_stop_of_move (.native rfl reply) stops).elim
      · exact fails_of_stop (.native rfl reply) stops
      · exact (not_stop_of_move (.sleep rfl reply) stops).elim
    case closure c =>
      rcases extended : s.store.extend c.env c.params args with e | ⟨inner, store⟩
      · exact fails_of_stop (.params rfl extended) stops
      · exact (not_stop_of_move (.call rfl extended) stops).elim
    all_goals exact fails_of_stop (.callee rfl rfl) stops
  case go arity =>
    obtain ⟨args, callee, S, rfl, rfl⟩ := exists_call enough
    cases callee
    case builtin b =>
      by_cases fits : args.length = b.arity
      · exact (not_stop_of_move (.launchNative rfl fits) stops).elim
      · exact fails_of_stop (.goArity rfl fits) stops
    case closure c =>
      rcases extended : s.store.extend globals c.params args with e | ⟨inner, store⟩
      · exact fails_of_stop (.goParams rfl extended) stops
      · exact (not_stop_of_move (.launch rfl extended) stops).elim
    all_goals exact fails_of_stop (.goroutine rfl rfl) stops
  all_goals exact (not_stop_of_move .pass stops).elim

/-- An item that finds enough values and is no throw ends the context by a rule only. -/
theorem fails_of_act (notThrow : item ≠ .instruction .throw) (enough : item.taken ≤ S.length)
    (stops : (of (item :: K) S env k).act protocol globals role s = .stop result m' s') :
    ∃ e, result = .error e ∧ Fails globals role item S env s e s' := by
  cases item with
  | command c => exact fails_of_command stops
  | instruction i => exact fails_of_instruction (fun eq => notThrow (by rw [eq])) stops enough

/-- A throw above another item goes on. -/
theorem exists_move_throw (v : Value) :
    ∃ o, Move protocol globals role (of (.instruction .throw :: item :: K) (v :: S) env k) s o := by
  cases caught : item.isCatch with
  | false => exact ⟨_, .throwDiscard caught⟩
  | true =>
    obtain ⟨sym, handler, e, height, rfl⟩ := Item.exists_of_isCatch caught
    exact ⟨_, .caught rfl⟩

end Complete

end Machine

/-! ## Ends -/

/-- The result with which a machine ends its context, the number of steps it has taken then, and
what the contexts share after it. -/
inductive Halts (globals : Env) (role : Role) :
    Machine → Shared → Except Fault Value → Nat → Shared → Prop
  | done {S env k s} :
    Halts globals role (of [] S env k) s (of [] S env k).finish k s
  | fault {item K S env k s e s'} : Fails globals role item S env s e s' →
    Halts globals role (of (item :: K) S env k) s (.error e) (k + 1) s'
  | uncaught {v S env k s} :
    Halts globals role (of [.instruction .throw] (v :: S) env k) s
      (.error (.uncaughtThrow (s.store.display v))) (k + 1) s

theorem Halts.act {globals : Env} {role : Role} {m : Machine} {s s' : Shared}
    {result : Except Fault Value} {steps : Nat} (halts : Halts globals role m s result steps s')
    (protocol : CallProtocol) :
    ∃ m', m'.steps = steps ∧ m.act protocol globals role s = .stop result m' s' := by
  cases halts with
  | done => exact ⟨_, rfl, rfl⟩
  | fault fails => exact fails.act protocol _ _
  | uncaught =>
    rw [Machine.act_instruction]
    exact ⟨_, rfl, rfl⟩

theorem Halts.steps_le {globals : Env} {role : Role} {m : Machine} {s s' : Shared}
    {result : Except Fault Value} {steps : Nat} (halts : Halts globals role m s result steps s') :
    m.steps ≤ steps := by
  cases halts with
  | done => exact Nat.le_refl _
  | fault fails => exact Nat.le_succ _
  | uncaught => exact Nat.le_succ _

/-- A machine whose stash holds enough for the top item ends by a rule. -/
theorem Machine.halts_of_act {protocol : CallProtocol} {globals : Env} {role : Role}
    {m m' : Machine}
    {s s' : Shared} {result : Except Fault Value}
    (enough : ∀ item K, m.control.toList = item :: K → item.taken ≤ m.stash.size)
    (stops : m.act protocol globals role s = .stop result m' s') :
    Halts globals role m s result m'.steps s' := by
  have ended : ∀ {steps s₁ result₁}, Halts globals role m s result₁ steps s₁ →
      Halts globals role m s result m'.steps s' := by
    intro steps s₁ result₁ halts
    obtain ⟨m₁, counted, act⟩ := halts.act protocol
    rw [act] at stops
    cases stops
    rw [counted]
    exact halts
  rw [m.eq_of] at *
  generalize m.control.toList = K at *
  generalize m.stash.toList = S at *
  rcases K with _ | ⟨item, K⟩
  · exact ended .done
  · have enough := enough item K rfl
    by_cases throws : item = .instruction .throw
    · subst throws
      obtain ⟨v, S, rfl⟩ := List.exists_cons_of_length_pos enough
      rcases K with _ | ⟨item, K⟩
      · exact ended .uncaught
      · obtain ⟨o, move⟩ := exists_move_throw v
        exact (not_stop_of_move move stops).elim
    · obtain ⟨e, rfl, fails⟩ := fails_of_act throws enough stops
      exact ended (.fault fails)

end ControlStash
