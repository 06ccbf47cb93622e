import ControlStash.Proofs.Solo

/-!
# Thresholds of the limits

Limits cut a run short and do nothing else, and they do it at an exact point. Each step has a
*need*: the height of the control stack that it schedules. `Outcome.Gated` says that under a depth
limit at or above its need a step is one and the same, and that below it overflows;
`Machine.gated_advance` says so of every step. The step limit is compared with the counter before
anything else, so a run under a lower step limit is the same run as far as it goes.

Together: a run that ends after `N` steps for another reason than its step limit is the run under
all step limits from `N` on, and is cut off exactly at the limit under the others
(`Ends.of_steps_le`, `Ends.cut`); and a run that does not overflow is the run under all greater
depth limits (`Ends.of_depth_le`). -/

namespace ControlStash

/-! ## Printed lines -/

namespace Native

/-- What contexts share after a reply. -/
def Reply.shared : Reply → Shared
  | .value _ s => s
  | .fault _ s => s
  | .asleep s => s

@[simp]
theorem shared_ofVerdict (s : Shared) (verdict : WaitGroup.Verdict) :
    (Reply.ofVerdict s verdict).shared = s := by
  cases verdict <;> rfl

/-- No built-in function takes back a printed line. -/
theorem output_invoke (role : Role) (s : Shared) (b : Builtin) (args : List Value) :
    s.output.toList <+: (invoke role s b args).shared.output.toList := by
  have answers := answers_invoke role s b args
  generalize invoke role s b args = reply at answers ⊢
  rcases answers with ⟨-, replies⟩ | -
  · cases replies
    case print => simp [Reply.shared]
    case wait => simp [wait]
    all_goals exact List.prefix_refl _
  · exact List.prefix_refl _

end Native

/-! ## The need of a step -/

theorem Fault.ne_stepLimitExceeded_of_isOrdinary {e : Fault} (ordinary : e.isOrdinary = true)
    (n : Nat) : e ≠ .stepLimitExceeded n := by
  rintro rfl
  cases ordinary

namespace Outcome

/-- After step number `k` the counter stands at `k`, the lines printed before are still there, and
the step has not failed for its number. -/
structure Follows (k : Nat) (lines : Array String) (o : Outcome) : Prop where
  steps : o.steps = k
  output : lines.toList <+: o.shared.output.toList
  within : o.Faults fun e => ∀ n, e ≠ .stepLimitExceeded n

/-- A step, given as a function of the depth limit: either the limit is nothing to it, or it needs a
certain depth. With that much it is one and the same step, with less it overflows. -/
inductive Gated (k : Nat) (lines : Array String) : (Nat → Outcome) → Prop
  | free {o} : o.Follows k lines → Gated k lines fun _ => o
  | needs (need : Nat) {o : Outcome} {m : Machine} {s : Shared} : o.Follows k lines → m.steps = k →
    lines.toList <+: s.output.toList →
    Gated k lines fun depth =>
      if need ≤ depth then o else m.fail s (.controlStackOverflow depth)

section

variable {k : Nat} {lines : Array String} {m : Machine} {s : Shared} {e : Fault}
  {step : Nat → Outcome}

theorem Follows.next (counted : m.steps = k) (output : lines.toList <+: s.output.toList) :
    (Outcome.next m s).Follows k lines :=
  ⟨counted, output, trivial⟩

theorem Follows.fail (counted : m.steps = k) (output : lines.toList <+: s.output.toList)
    (ordinary : e.isOrdinary = true) : (m.fail s e).Follows k lines :=
  ⟨counted, output, Fault.ne_stepLimitExceeded_of_isOrdinary ordinary⟩

theorem Follows.underflow (counted : m.steps = k) (output : lines.toList <+: s.output.toList) :
    (m.underflow s).Follows k lines :=
  ⟨counted, output, nofun⟩

theorem faults_stop {result : Except Fault Value} {f : Nat → Fault}
    (spared : ∀ n, result ≠ .error (f n)) :
    (Outcome.stop result m s).Faults fun e => ∀ n, e ≠ f n := by
  cases result with
  | ok v => trivial
  | error e => exact fun n eq => spared n (congrArg _ eq)

theorem Gated.follows (gated : Gated k lines step) (depth : Nat) :
    (step depth).Follows k lines := by
  cases gated with
  | free follows => exact follows
  | needs need follows counted output =>
    dsimp only
    split
    · exact follows
    · exact ⟨counted, output, nofun⟩

/-- With more depth, a step that did not overflow is the same. -/
theorem Gated.eq_of_le {depth depth' : Nat} (gated : Gated k lines step) (more : depth ≤ depth')
    (fits : (step depth).Faults fun e => ∀ n, e ≠ .controlStackOverflow n) :
    step depth' = step depth := by
  cases gated with
  | free => rfl
  | needs need =>
    dsimp only at fits ⊢
    by_cases enough : need ≤ depth
    · rw [if_pos enough, if_pos (Nat.le_trans enough more)]
    · rw [if_neg enough] at fits
      exact absurd rfl (fits depth)

end

end Outcome

namespace Machine

open Outcome

section

variable {globals : Env} {protocol : CallProtocol} {role : Role} {limit : Nat} {k : Nat}
  {lines : Array String} {m : Machine} {s : Shared}

theorem gated_schedule (items : List Item) (env : Env) (counted : m.steps = k)
    (output : lines.toList <+: s.output.toList) :
    Gated k lines fun depth => m.schedule ⟨limit, depth⟩ items env s :=
  .needs _ (.next counted output) counted output

theorem steps_schedule (limits : Limits) (items : List Item) (env : Env) :
    (m.schedule limits items env s).steps = m.steps := by
  unfold schedule
  split <;> rfl

theorem steps_enter (setting : Setting) (body : Command) (env : Env) :
    (m.enter setting body env s).steps = m.steps := by
  unfold enter enterPlain
  split
  case h_4 => split <;> exact steps_schedule _ _ _
  all_goals exact steps_schedule _ _ _

theorem gated_enter (body : Command) (env : Env) (counted : m.steps = k)
    (output : lines.toList <+: s.output.toList) :
    Gated k lines fun depth => m.enter ⟨⟨limit, depth⟩, globals, protocol⟩ body env s := by
  obtain ⟨items, below, -, eq⟩ := enter_eq_schedule globals protocol body env m s
  have same : below.steps = m.steps := by
    rw [← steps_schedule {} items env, ← eq, steps_enter]
  simp only [eq]
  exact gated_schedule items env (same.trans counted) output

theorem gated_expand (c : Command) (counted : m.steps = k)
    (output : lines.toList <+: s.output.toList) :
    Gated k lines fun depth => m.expand ⟨⟨limit, depth⟩, globals, protocol⟩ c s := by
  cases c
  case lit | lambda => exact .free (.next counted output)
  case name sym =>
    simp only [expand]
    rcases s.store.lookup m.env sym with e | v
    · exact .free (.fail counted output (by simp))
    · exact .free (.next counted output)
  case unrecognized => exact .free (.fail counted output rfl)
  case block body =>
    simp only [expand]
    refine .needs _ ?_ counted output
    split
    · exact .next counted output
    · exact .fail counted output (by simp)
  all_goals exact gated_schedule _ _ counted output

theorem gated_call (arity : Nat) (counted : m.steps = k)
    (output : lines.toList <+: s.output.toList) :
    Gated k lines fun depth => m.call ⟨⟨limit, depth⟩, globals, protocol⟩ role arity s := by
  unfold call
  rcases operands_cases arity m.stash with
    ⟨-, popped | ⟨args, rest, popped, top⟩⟩ | ⟨args, callee, rest, -, -, popped, top⟩
  · simp only [popped]
    exact .free (.underflow counted output)
  · simp only [popped, top]
    exact .free (.underflow counted output)
  · simp only [popped, top]
    cases callee
    case builtin b =>
      have kept := output.trans (Native.output_invoke role s b args)
      dsimp only
      rcases reply : Native.invoke role s b args with ⟨v, s'⟩ | ⟨e, s'⟩ | s'
      all_goals rw [reply] at kept
      · exact .free (.next counted kept)
      · exact .free (.fail counted kept (Native.isOrdinary_of_invoke reply))
      · exact .free ⟨counted, kept, trivial⟩
    case closure c =>
      dsimp only
      rcases s.store.extend c.env c.params args with e | ⟨env, store⟩
      · exact .free (.fail counted output (by simp))
      · exact gated_enter c.body env counted output
    all_goals exact .free (.fail counted output rfl)

theorem follows_go (arity : Nat) (counted : m.steps = k)
    (output : lines.toList <+: s.output.toList) :
    (m.go globals arity s).Follows k lines := by
  unfold go
  rcases operands_cases arity m.stash with
    ⟨-, popped | ⟨args, rest, popped, top⟩⟩ | ⟨args, callee, rest, -, -, popped, top⟩
  · simp only [popped]
    exact .underflow counted output
  · simp only [popped, top]
    exact .underflow counted output
  · simp only [popped, top]
    cases callee
    case builtin b =>
      dsimp only
      split
      · exact ⟨counted, output, trivial⟩
      · exact .fail counted output rfl
    case closure c =>
      dsimp only
      rcases s.store.extend globals c.params args with e | ⟨env, store⟩
      · exact .fail counted output (by simp)
      · exact ⟨counted, output, trivial⟩
    all_goals exact .fail counted output rfl

theorem gated_throw (counted : m.steps = k) (output : lines.toList <+: s.output.toList) :
    Gated k lines fun depth => m.throw ⟨limit, depth⟩ s := by
  unfold throw
  rcases m.control.pop? with _ | ⟨item, control⟩
  · rcases m.stash.pop? with _ | ⟨v, stash⟩
    · exact .free (.underflow counted output)
    · exact .free (.fail counted output rfl)
  · cases item with
    | command c => exact gated_schedule _ _ counted output
    | instruction i =>
      cases i
      case «catch» sym handler env height =>
        dsimp only
        rcases m.stash.pop? with _ | ⟨v, stash⟩
        · exact .free (.underflow counted output)
        · refine .needs _ ?_ counted output
          split
          · exact .next counted output
          · exact .fail counted output (by simp)
      all_goals exact gated_schedule _ _ counted output

theorem gated_execute (i : Instruction) (counted : m.steps = k)
    (output : lines.toList <+: s.output.toList) :
    Gated k lines fun depth => m.execute ⟨⟨limit, depth⟩, globals, protocol⟩ role i s := by
  cases i
  case restore | mark | «catch» => exact .free (.next counted output)
  case reset =>
    simp only [execute, reset]
    split <;> exact .free (.next counted output)
  case call arity => exact gated_call arity counted output
  case go arity => exact .free (follows_go arity counted output)
  case throw => exact gated_throw counted output
  case unary op =>
    simp only [execute]
    rcases m.stash.pop? with _ | ⟨v, stash⟩
    · exact .free (.underflow counted output)
    · dsimp only
      rcases applied : op.apply v with e | w
      · exact .free (.fail counted output (UnaryOp.isOrdinary_of_apply applied))
      · exact .free (.next counted output)
  case pop =>
    simp only [execute]
    rcases m.stash.pop? with _ | ⟨v, stash⟩
    · exact .free (.underflow counted output)
    · exact .free (.next counted output)
  case assign sym =>
    simp only [execute]
    rcases m.stash.pop? with _ | ⟨v, stash⟩
    · exact .free (.underflow counted output)
    · dsimp only
      rcases s.store.assign m.env sym v with e | store
      · exact .free (.fail counted output (by simp))
      · exact .free (.next counted output)
  case branch cons alt =>
    simp only [execute]
    rcases m.stash.pop? with _ | ⟨v, stash⟩
    · exact .free (.underflow counted output)
    · cases v
      case bool b =>
        cases b with
        | true => exact gated_schedule _ _ counted output
        | false =>
          cases alt with
          | none => exact .free (.next counted output)
          | some alt => exact gated_schedule _ _ counted output
      all_goals exact .free (.fail counted output rfl)
  case loop form pred body =>
    simp only [execute]
    rcases m.stash.pop? with _ | ⟨v, stash⟩
    · exact .free (.underflow counted output)
    · cases v
      case bool b =>
        cases b with
        | true => exact gated_schedule _ _ counted output
        | false => exact .free (.next counted output)
      all_goals exact .free (.fail counted output rfl)
  case makeArray arity =>
    simp only [execute]
    rcases m.stash.popMany? arity with _ | ⟨elements, stash⟩
    · exact .free (.underflow counted output)
    · exact .free (.next counted output)
  case binary op =>
    simp only [execute]
    rcases few_or_some 2 m.stash with ⟨-, popped⟩ | ⟨args, rest, length, popped⟩
    · simp only [popped]
      exact .free (.underflow counted output)
    · obtain ⟨a, b, rfl⟩ := List.length_eq_two.mp length
      simp only [popped]
      rcases applied : op.apply s.store a b with e | v
      · exact .free (.fail counted output (BinaryOp.isOrdinary_of_apply applied))
      · exact .free (.next counted output)
  case index =>
    simp only [execute]
    rcases few_or_some 2 m.stash with ⟨-, popped⟩ | ⟨args, rest, length, popped⟩
    · simp only [popped]
      exact .free (.underflow counted output)
    · obtain ⟨a, b, rfl⟩ := List.length_eq_two.mp length
      simp only [popped]
      rcases found : access s.store a b with e | ⟨ref, n⟩
      · exact .free (.fail counted output (isOrdinary_of_access found))
      · dsimp only
        split
        · exact .free (.next counted output)
        · exact .free (.fail counted output rfl)
  case indexAssign =>
    simp only [execute]
    rcases few_or_some 3 m.stash with ⟨-, popped⟩ | ⟨args, rest, length, popped⟩
    · simp only [popped]
      exact .free (.underflow counted output)
    · obtain ⟨a, b, v, rfl⟩ := List.length_eq_three.mp length
      simp only [popped]
      rcases found : access s.store a b with e | ⟨ref, n⟩
      · exact .free (.fail counted output (isOrdinary_of_access found))
      · dsimp only
        split
        · exact .free (.next counted output)
        · exact .free (.fail counted output rfl)

end

/-! ## The step limit -/

section

variable {setting : Setting} {globals : Env} {protocol : CallProtocol} {role : Role}
  {limit limit' depth : Nat} {m : Machine} {s : Shared} {item : Item} {control : Stack Item}

/-- A machine with nothing left to do ends under all limits. -/
theorem advance_of_empty (empty : m.control.pop? = none) :
    m.advance setting role s = .stop m.finish m s := by
  simp only [advance, empty]

/-- A machine that has something left to do does not go on once it has taken the steps of the limit.
-/
theorem advance_of_limit_le (top : m.control.pop? = some (item, control))
    (reached : setting.limits.steps ≤ m.steps) :
    m.advance setting role s =
      .stop (.error (.stepLimitExceeded setting.limits.steps)) { m with control } s := by
  simp only [advance, top, if_pos reached]
  rfl

/-- Before that, the step limit has no part in what it does. -/
theorem advance_eq_of_steps_lt (within : m.steps < limit) (within' : m.steps < limit') :
    m.advance ⟨⟨limit, depth⟩, globals, protocol⟩ role s =
      m.advance ⟨⟨limit', depth⟩, globals, protocol⟩ role s := by
  simp only [advance, if_neg (Nat.not_le.mpr within), if_neg (Nat.not_le.mpr within')]
  rfl

theorem gated_advance (top : m.control.pop? = some (item, control)) (within : m.steps < limit) :
    Gated (m.steps + 1) s.output fun depth =>
      m.advance ⟨⟨limit, depth⟩, globals, protocol⟩ role s := by
  simp only [advance, top, if_neg (Nat.not_le.mpr within)]
  cases item with
  | command c => exact gated_expand c rfl (List.prefix_refl _)
  | instruction i => exact gated_execute i rfl (List.prefix_refl _)

/-- A step that the step limit allows is counted. -/
theorem follows_advance {setting : Setting} (top : m.control.pop? = some (item, control))
    (within : m.steps < setting.limits.steps) :
    (m.advance setting role s).Follows (m.steps + 1) s.output := by
  have gated : Gated (m.steps + 1) s.output fun depth =>
      m.advance ⟨⟨setting.limits.steps, depth⟩, setting.globals, setting.protocol⟩ role s :=
    gated_advance top within
  exact gated.follows setting.limits.depth

/-- Counter and printed lines only grow. -/
theorem grows_advance (setting : Setting) (role : Role) (m : Machine) (s : Shared) :
    m.steps ≤ (m.advance setting role s).steps ∧
      s.output.toList <+: (m.advance setting role s).shared.output.toList := by
  rcases top : m.control.pop? with _ | ⟨item, control⟩
  · rw [advance_of_empty top]
    exact ⟨Nat.le_refl _, List.prefix_refl _⟩
  · rcases Nat.lt_or_ge m.steps setting.limits.steps with within | reached
    · have follows : (m.advance setting role s).Follows (m.steps + 1) s.output :=
        follows_advance top within
      exact ⟨Nat.le_trans (Nat.le_succ _) (Nat.le_of_eq follows.steps.symm), follows.output⟩
    · rw [advance_of_limit_le top reached]
      exact ⟨Nat.le_refl _, List.prefix_refl _⟩

/-- With more depth, a step that did not overflow is the same. -/
theorem advance_of_depth_le {depth depth' : Nat} (more : depth ≤ depth')
    (fits : (m.advance ⟨⟨limit, depth⟩, globals, protocol⟩ role s).Faults
      fun e => ∀ n, e ≠ .controlStackOverflow n) :
    m.advance ⟨⟨limit, depth'⟩, globals, protocol⟩ role s =
      m.advance ⟨⟨limit, depth⟩, globals, protocol⟩ role s := by
  rcases top : m.control.pop? with _ | ⟨item, control⟩
  · rw [advance_of_empty top, advance_of_empty top]
  · rcases Nat.lt_or_ge m.steps limit with within | reached
    · exact (gated_advance top within).eq_of_le more fits
    · rw [advance_of_limit_le top reached, advance_of_limit_le top reached]

/-- A step that is not cut off by the step limit is taken under every step limit above the counter,
and cut off by the others; only a machine with nothing left to do pays no heed to them. -/
theorem advance_of_uncut {o : Outcome}
    (eq : m.advance ⟨⟨limit, depth⟩, globals, protocol⟩ role s = o)
    (uncut : o.Faults fun e => ∀ n, e ≠ .stepLimitExceeded n) :
    (∀ limit', m.advance ⟨⟨limit', depth⟩, globals, protocol⟩ role s = .stop m.finish m s) ∨
    (o.steps = m.steps + 1 ∧
      (∀ limit', m.steps < limit' →
        m.advance ⟨⟨limit', depth⟩, globals, protocol⟩ role s = o) ∧
      ∃ m', m'.steps = m.steps ∧ ∀ limit', limit' ≤ m.steps →
        m.advance ⟨⟨limit', depth⟩, globals, protocol⟩ role s =
          .stop (.error (.stepLimitExceeded limit')) m' s) := by
  subst eq
  rcases top : m.control.pop? with _ | ⟨item, control⟩
  · exact .inl fun _ => advance_of_empty top
  · rcases Nat.lt_or_ge m.steps limit with below | reached
    · exact .inr ⟨((gated_advance top below).follows depth).steps,
        fun _ below' => advance_eq_of_steps_lt below' below,
        { m with control }, rfl, fun _ reached => advance_of_limit_le top reached⟩
    · rw [advance_of_limit_le top reached] at uncut
      exact absurd rfl (uncut limit)

end

end Machine

/-! ## Runs -/

section

variable {setting : Setting} {globals : Env} {protocol : CallProtocol}
  {limit limit' depth depth' : Nat} {m m' : Machine} {s s' : Shared} {result : Except Fault Value}

open Machine Outcome

theorem Ends.grows (ends : Ends setting m s result m' s') :
    m.steps ≤ m'.steps ∧ s.output.toList <+: s'.output.toList := by
  induction ends with
  | stop stops =>
    rename_i m s _ _ _
    have grows := grows_advance setting .main m s
    rw [stops] at grows
    exact grows
  | next goes _ ih =>
    rename_i m s _ _ _ _ _ _
    have grows := grows_advance setting .main m s
    rw [goes] at grows
    exact ⟨Nat.le_trans grows.1 ih.1, grows.2.trans ih.2⟩

/-- The main context, alone, ends in one way only. -/
theorem Ends.deterministic {m'' : Machine} {s'' : Shared} {result' : Except Fault Value}
    (first : Ends setting m s result m' s') (second : Ends setting m s result' m'' s'') :
    result = result' ∧ m' = m'' ∧ s' = s'' := by
  induction first with
  | stop stops =>
    cases second with
    | stop stops' =>
      rw [stops] at stops'
      injection stops' with result machine shared
      exact ⟨result, machine, shared⟩
    | next goes =>
      rw [stops] at goes
      cases goes
  | next goes _ ih =>
    cases second with
    | stop stops =>
      rw [goes] at stops
      cases stops
    | next goes' rest =>
      rw [goes] at goes'
      injection goes' with machine shared
      subst machine shared
      exact ih rest

/-- A run that does not end for its step limit is the run under all step limits that are not less
than the number of steps it takes. -/
theorem Ends.of_steps_le (ends : Ends ⟨⟨limit, depth⟩, globals, protocol⟩ m s result m' s')
    (uncut : ∀ n, result ≠ .error (.stepLimitExceeded n)) (enough : m'.steps ≤ limit') :
    Ends ⟨⟨limit', depth⟩, globals, protocol⟩ m s result m' s' := by
  induction ends with
  | @stop m s result m' s' stops =>
    rcases advance_of_uncut stops (faults_stop uncut) with done | ⟨counted, same, -⟩
    · exact .stop ((done limit').trans ((done limit).symm.trans stops))
    · have counted : m'.steps = m.steps + 1 := counted
      exact .stop (same limit' (by omega))
  | @next m s m₁ s₁ result m' s' goes rest ih =>
    rcases advance_of_uncut goes trivial with done | ⟨counted, same, -⟩
    · rw [done limit] at goes
      cases goes
    · have counted : m₁.steps = m.steps + 1 := counted
      have later := rest.grows.1
      exact .next (same limit' (by omega)) (ih uncut enough)

/-- Under a lower step limit it is cut off when the counter is at the limit, with the first of
its lines. -/
theorem Ends.cut (ends : Ends ⟨⟨limit, depth⟩, globals, protocol⟩ m s result m' s')
    (uncut : ∀ n, result ≠ .error (.stepLimitExceeded n)) (started : m.steps ≤ limit')
    (few : limit' < m'.steps) :
    ∃ m'' s'', Ends ⟨⟨limit', depth⟩, globals, protocol⟩ m s
        (.error (.stepLimitExceeded limit')) m'' s'' ∧
      m''.steps = limit' ∧ s''.output.toList <+: s'.output.toList := by
  induction ends with
  | @stop m s result m' s' stops =>
    rcases advance_of_uncut stops (faults_stop uncut) with done | ⟨counted, -, m'', kept, cut⟩
    · rw [done limit] at stops
      cases stops
      omega
    · have counted : m'.steps = m.steps + 1 := counted
      obtain rfl : limit' = m.steps := by omega
      exact ⟨m'', s, .stop (cut _ (Nat.le_refl _)), kept, (Ends.stop stops).grows.2⟩
  | @next m s m₁ s₁ result m' s' goes rest ih =>
    rcases advance_of_uncut goes trivial with done | ⟨counted, same, m'', kept, cut⟩
    · rw [done limit] at goes
      cases goes
    · have counted : m₁.steps = m.steps + 1 := counted
      rcases Nat.lt_or_eq_of_le started with below | rfl
      · obtain ⟨m₂, s₂, ends, reached, lines⟩ := ih uncut (by omega) few
        exact ⟨m₂, s₂, .next (same limit' below) ends, reached, lines⟩
      · exact ⟨m'', s, .stop (cut _ (Nat.le_refl _)), kept, (Ends.next goes rest).grows.2⟩

/-- A run that does not overflow is the run under all greater depth limits. -/
theorem Ends.of_depth_le (ends : Ends ⟨⟨limit, depth⟩, globals, protocol⟩ m s result m' s')
    (fits : ∀ n, result ≠ .error (.controlStackOverflow n)) (more : depth ≤ depth') :
    Ends ⟨⟨limit, depth'⟩, globals, protocol⟩ m s result m' s' := by
  induction ends with
  | stop stops =>
    have same := advance_of_depth_le more (by rw [stops]; exact faults_stop fits)
    exact .stop (same.trans stops)
  | next goes _ ih =>
    have same := advance_of_depth_le more (by rw [goes]; trivial)
    exact .next (same.trans goes) (ih fits)

/-- A run that ends the way another one did has, when it is finished, the same report. -/
theorem Program.run_of_ends {p : Program} {limits : Limits} {report : Report} (traced : Bool)
    (ends : Ends (p.settingUnder .economical limits) p.machine p.shared result m s)
    (shows : report.Shows result s m.steps) :
    ∃ enough, ∀ fuel, enough ≤ fuel → ∃ report', p.run limits traced fuel = some report' ∧
      report'.result = report.result ∧ report'.store = report.store ∧
      report'.output = report.output ∧ report'.steps = report.steps := by
  obtain ⟨enough, finished⟩ := runUnder_of_ends traced ends
  refine ⟨enough, fun fuel more => ?_⟩
  obtain ⟨report', ran, shows'⟩ := finished fuel more
  exact ⟨report', ran, shows'.result.trans shows.result.symm, shows'.store.trans shows.store.symm,
    shows'.output.trans shows.output.symm, shows'.steps.trans shows.steps.symm⟩

end

/-- Limits only cut a run short, and at an exact point. If a run of a program without goroutines
ends after `N` steps, and not for its step limit, then under every step limit from `N` on it ends
the same, and under every step limit `L` below `N` it is cut off with its counter at `L`, having
printed the first of the lines. If it ends without an overflow, more depth changes nothing. -/
theorem limits_only_cut (p : Program) (goFree : p.body.GoFree) (limits : Limits)
    (traced traced' : Bool) (fuel : Nat) (report : Report)
    (ran : p.run limits traced fuel = some report) :
    ((∀ n, report.result ≠ .error (.stepLimitExceeded n)) →
      (∀ steps, report.steps ≤ steps → ∃ enough, ∀ fuel', enough ≤ fuel' →
        ∃ report', p.run ⟨steps, limits.depth⟩ traced' fuel' = some report' ∧
          report'.result = report.result ∧ report'.store = report.store ∧
          report'.output = report.output ∧ report'.steps = report.steps) ∧
      ∀ steps, steps < report.steps → ∃ enough, ∀ fuel', enough ≤ fuel' →
        ∃ report', p.run ⟨steps, limits.depth⟩ traced' fuel' = some report' ∧
          report'.result = .error (.stepLimitExceeded steps) ∧ report'.steps = steps ∧
          report'.output.toList <+: report.output.toList) ∧
    ((∀ n, report.result ≠ .error (.controlStackOverflow n)) →
      ∀ depth, limits.depth ≤ depth → ∃ enough, ∀ fuel', enough ≤ fuel' →
        ∃ report', p.run ⟨limits.steps, depth⟩ traced' fuel' = some report' ∧
          report'.result = report.result ∧ report'.store = report.store ∧
          report'.output = report.output ∧ report'.steps = report.steps) := by
  obtain ⟨result, m, s, ends, shows⟩ := Program.ends_of_runUnder goFree ran
  rw [shows.result, shows.steps]
  refine ⟨fun uncut => ⟨fun steps enough => ?_, fun steps few => ?_⟩, fun fits depth more => ?_⟩
  · have ends' : Ends (p.settingUnder .economical ⟨steps, limits.depth⟩) p.machine p.shared
        result m s := ends.of_steps_le uncut enough
    simpa only [shows.result, shows.steps] using Program.run_of_ends traced' ends' shows
  · obtain ⟨m', s', ends', reached, lines⟩ := ends.cut uncut (Nat.zero_le _) few
    have ends' : Ends (p.settingUnder .economical ⟨steps, limits.depth⟩) p.machine p.shared
        (.error (.stepLimitExceeded steps)) m' s' := ends'
    obtain ⟨enough, finished⟩ := Program.runUnder_of_ends traced' ends'
    refine ⟨enough, fun fuel' more => ?_⟩
    obtain ⟨report', ran', shows'⟩ := finished fuel' more
    rw [← shows.output, ← shows'.output] at lines
    exact ⟨report', ran', shows'.result, shows'.steps.trans reached, lines⟩
  · have ends' : Ends (p.settingUnder .economical ⟨limits.steps, depth⟩) p.machine p.shared
        result m s := ends.of_depth_le fits more
    simpa only [shows.result, shows.steps] using Program.run_of_ends traced' ends' shows

/-- A program that prints two lines, in ten steps and on a control stack of five items. -/
def twoLines : Program :=
  ⟨.seq [.callNamed "print" [.lit (.int 1)], .callNamed "print" [.lit (.int 2)]]⟩

theorem limits_only_cut_twoLines :
    (∃ enough, ∀ fuel, enough ≤ fuel → ∃ report,
      twoLines.run ⟨10, 5⟩ true fuel = some report ∧ report.result = .ok .undefined ∧
        report.output = #["1", "2"] ∧ report.steps = 10) ∧
    (∃ enough, ∀ fuel, enough ≤ fuel → ∃ report,
      twoLines.run ⟨7, 5⟩ true fuel = some report ∧
        report.result = .error (.stepLimitExceeded 7) ∧ report.steps = 7 ∧
        report.output.toList <+: ["1", "2"]) ∧
    ∃ enough, ∀ fuel, enough ≤ fuel → ∃ report,
      twoLines.run ⟨1000, 6⟩ true fuel = some report ∧ report.result = .ok .undefined ∧
        report.output = #["1", "2"] ∧ report.steps = 10 := by
  have ran : ∃ report, twoLines.run ⟨1000, 5⟩ false 60 = some report ∧
      report.result = .ok .undefined ∧ report.output = #["1", "2"] ∧ report.steps = 10 :=
    ⟨_, rfl, rfl, rfl, rfl⟩
  obtain ⟨report, ran, result, output, steps⟩ := ran
  have cuts := limits_only_cut twoLines (by decide) ⟨1000, 5⟩ false true 60 report ran
  rw [result, output, steps] at cuts
  obtain ⟨same, cut⟩ := cuts.1 nofun
  refine ⟨?_, cut 7 (by decide), ?_⟩
  · obtain ⟨enough, same⟩ := same 10 (Nat.le_refl _)
    refine ⟨enough, fun fuel more => ?_⟩
    obtain ⟨report', ran', result, -, output, steps⟩ := same fuel more
    exact ⟨report', ran', result, output, steps⟩
  · obtain ⟨enough, same⟩ := cuts.2 nofun 6 (by decide)
    refine ⟨enough, fun fuel more => ?_⟩
    obtain ⟨report', ran', result, -, output, steps⟩ := same fuel more
    exact ⟨report', ran', result, output, steps⟩

end ControlStash
