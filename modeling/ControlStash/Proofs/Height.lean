import ControlStash.Proofs.Footing
import ControlStash.Proofs.Ownership
import ControlStash.Proofs.Threshold

/-!
# The height of control stacks

The depth limit is checked where items are scheduled, and nowhere else: a context starts on one item
or two whatever the limit is, and a return puts itself back unchecked. All the same a control stack
is never higher than the limit allows, or than it was at the start. `Machine.Low` is the invariant
behind this. A stack above the limit is what is left of the items at the start, of which none is a
return, and a return has always taken off more than it puts back.

A return and a throw discard one item with each step. They need no more room than the items they
have discarded leave, so neither ever overflows. `World.Unwinding` says what becomes of a context
that discards items while other contexts act: it is under way, it has arrived at the mark or the
catch that it seeks, or it has come to the step limit.
-/

namespace ControlStash

/-! ## What a step leaves on the control stack -/

/-- A context goes on with a control stack within the limit, or with no more than it has left. -/
def Outcome.Fits (limits : Limits) (left : Stack Item) (o : Outcome) : Prop :=
  ∀ m, o.machine? = some m → m.control.size ≤ limits.depth ∨ m.control = left

namespace Machine

variable {setting : Setting} {limits : Limits} {role : Role} {left : Stack Item} {m m' : Machine}
  {s s' : Shared} {item : Item} {K : List Item}

theorem stop_fits {result : Except Fault Value} : (Outcome.stop result m s).Fits limits left :=
  nofun

theorem next_fits (same : m.control = left) : (Outcome.next m s).Fits limits left := by
  intro m' goes
  cases goes
  exact .inr same

theorem launch_fits {task : Task} (same : m.control = left) :
    (Outcome.launch task m s).Fits limits left := by
  intro m' goes
  cases goes
  exact .inr same

/-- What is scheduled is scheduled within the limit. -/
theorem schedule_fits {items : List Item} {env : Env} :
    (m.schedule limits items env s).Fits limits left := by
  unfold schedule
  split
  · next fits =>
    intro m' goes
    cases goes
    exact .inl fits
  · exact stop_fits

theorem expand_fits {c : Command} : (m.expand setting c s).Fits setting.limits m.control := by
  cases c
  case lit | lambda => exact next_fits rfl
  case unrecognized => exact stop_fits
  case name sym =>
    unfold expand
    dsimp only
    split
    · exact next_fits rfl
    · exact stop_fits
  case block body =>
    unfold expand
    dsimp only
    split
    · next fits =>
      split
      · intro m' goes
        cases goes
        exact .inl fits
      · exact stop_fits
    · exact stop_fits
  all_goals exact schedule_fits

theorem enter_fits {body : Command} {env : Env} :
    (m.enter setting body env s).Fits setting.limits left := by
  unfold enter enterPlain
  split
  case h_4 => split <;> exact schedule_fits
  all_goals exact schedule_fits

theorem call_fits {arity : Nat} :
    (m.call setting role arity s).Fits setting.limits m.control := by
  unfold call
  split
  · exact stop_fits
  · split
    · exact stop_fits
    · dsimp only
      split
      · split
        · exact next_fits rfl
        · exact stop_fits
        · intro m' goes
          cases goes
          exact .inr rfl
      · split
        · exact enter_fits
        · exact stop_fits
      · exact stop_fits

theorem go_fits {globals : Env} {arity : Nat} : (m.go globals arity s).Fits limits m.control := by
  unfold go
  split
  · exact stop_fits
  · split
    · exact stop_fits
    · dsimp only
      split
      · split
        · exact launch_fits rfl
        · exact stop_fits
      · split
        · exact launch_fits rfl
        · exact stop_fits
      · exact stop_fits

theorem throw_fits : (m.throw limits s).Fits limits left := by
  unfold throw
  split
  · split <;> exact stop_fits
  · split
    · exact stop_fits
    · dsimp only
      split
      · next fits =>
        split
        · intro m' goes
          cases goes
          exact .inl fits
        · exact stop_fits
      · exact stop_fits
  · exact schedule_fits

/-- Of all instructions only a return puts an item on the control stack unchecked. -/
theorem execute_fits {i : Instruction} (noReturn : i ≠ .reset) :
    (m.execute setting role i s).Fits setting.limits m.control := by
  cases i
  case reset => exact absurd rfl noReturn
  case restore | mark | «catch» => exact next_fits rfl
  case call arity => exact call_fits
  case go arity => exact go_fits
  case throw => exact throw_fits
  case pop | makeArray =>
    simp only [execute]
    split
    · exact next_fits rfl
    · exact stop_fits
  case unary | assign =>
    simp only [execute]
    split
    · split
      · exact next_fits rfl
      · exact stop_fits
    · exact stop_fits
  case binary | index | indexAssign =>
    simp only [execute]
    repeat' split
    all_goals first | exact next_fits rfl | exact stop_fits
  case branch cons alt =>
    simp only [execute]
    split
    · exact schedule_fits
    · split
      · exact schedule_fits
      · exact next_fits rfl
    · exact stop_fits
    · exact stop_fits
  case loop form pred body =>
    simp only [execute]
    split
    · exact schedule_fits
    · exact next_fits rfl
    · exact stop_fits
    · exact stop_fits

/-- A return discards an item for the one that it puts back. -/
theorem size_of_reset (goes : (m.reset s).machine? = some m') :
    m'.control.size ≤ m.control.size := by
  unfold reset at goes
  split at goes
  · cases goes
    exact Nat.le_refl _
  · next control popped =>
    cases goes
    rw [← Stack.length_toList, ← Stack.length_toList, Stack.pop?_eq_some_iff.mp popped]
    exact Nat.le_succ _
  · next item control popped =>
    cases goes
    rw [← Stack.length_toList, ← Stack.length_toList, Stack.pop?_eq_some_iff.mp popped]
    exact Nat.le_refl _

/-- After a step the control stack is within the limit, or what lies below the item of the step, or
no higher than that after a return. -/
theorem control_advance (goes : (m.advance setting role s).machine? = some m') :
    ∃ item left, m.control.toList = item :: left.toList ∧
      (m'.control.size ≤ setting.limits.depth ∨ m'.control = left ∨
        item = .instruction .reset ∧ m'.control.size ≤ left.size) := by
  unfold advance at goes
  rcases popped : m.control.pop? with _ | ⟨item, left⟩
  · rw [popped] at goes
    cases goes
  · rw [popped] at goes
    refine ⟨item, left, Stack.pop?_eq_some_iff.mp popped, ?_⟩
    dsimp only at goes
    split at goes
    · cases goes
    · cases item with
      | command c => exact (expand_fits m' goes).imp_right .inl
      | instruction i =>
        by_cases returns : i = .reset
        · subst returns
          exact .inr (.inr ⟨rfl, size_of_reset goes⟩)
        · exact (execute_fits returns m' goes).imp_right .inl

end Machine

/-! ## The bound -/

namespace Context

/-- The items that a context starts on, where it is to work on a command. -/
def items (c : Command) : Context → List Item
  | .main => [.command c]
  | .goroutine _ => [.command c, .instruction .mark]

/-- The height of the control stack that a context starts with. -/
def initialHeight : Context → Nat
  | .main => 1
  | .goroutine _ => 2

theorem length_items (context : Context) (c : Command) :
    (context.items c).length = context.initialHeight := by
  cases context <;> rfl

/-- No context starts on another instruction than a mark. -/
theorem eq_mark_of_mem_items {context : Context} {c : Command} {i : Instruction}
    (member : .instruction i ∈ context.items c) : i = .mark := by
  cases context with
  | main => simp [items] at member
  | goroutine id => simpa [items] using member

end Context

/-- A control stack is within the limit, or has nothing on it but what its context started on. -/
def Machine.Low (limits : Limits) (context : Context) (m : Machine) : Prop :=
  m.control.size ≤ limits.depth ∨ ∃ c, m.control.toList <:+ context.items c

namespace Machine.Low

variable {setting : Setting} {limits : Limits} {context : Context} {role : Role} {m m' : Machine}
  {s : Shared} {i : Instruction} {K : List Item}

theorem start (c : Command) (env : Env) :
    (Machine.start (context.items c) env).Low limits context :=
  .inr ⟨c, List.suffix_refl _⟩

theorem size_le (low : m.Low limits context) :
    m.control.size ≤ max limits.depth context.initialHeight := by
  rcases low with within | ⟨c, initial⟩
  · exact Nat.le_trans within (Nat.le_max_left _ _)
  · have shorter := initial.length_le
    rw [Stack.length_toList, Context.length_items] at shorter
    exact Nat.le_trans shorter (Nat.le_max_right _ _)

/-- Under an instruction other than a mark the limit itself is kept: what a context starts on has
none. -/
theorem size_le_depth (low : m.Low limits context) (top : m.control.toList = .instruction i :: K)
    (notMark : i ≠ .mark) : m.control.size ≤ limits.depth := by
  rcases low with within | ⟨c, initial⟩
  · exact within
  · rw [top] at initial
    exact absurd (Context.eq_mark_of_mem_items (initial.subset List.mem_cons_self)) notMark

/-- A step keeps the control stack low. -/
theorem advance (low : m.Low setting.limits context)
    (goes : (m.advance setting role s).machine? = some m') : m'.Low setting.limits context := by
  obtain ⟨item, left, top, fits | rfl | ⟨rfl, returned⟩⟩ := control_advance goes
  · exact .inl fits
  · rcases low with within | ⟨c, initial⟩
    · rw [← Stack.length_toList, top, List.length_cons, Stack.length_toList] at within
      exact .inl (Nat.le_of_succ_le within)
    · rw [top] at initial
      exact .inr ⟨c, (List.suffix_cons item _).trans initial⟩
  · have within := low.size_le_depth top nofun
    rw [← Stack.length_toList, top, List.length_cons, Stack.length_toList] at within
    exact .inl (Nat.le_trans returned (Nat.le_of_succ_le within))

end Machine.Low

/-- The control stacks of all contexts are low in every reachable world. -/
theorem World.low_reachable {p : Program} {setting : Setting} {w : World}
    (reachable : World.Reachable setting p.initial w) :
    ∀ context m, w.held? context = some m → m.Low setting.limits context := by
  have proceed : ∀ {w : World} (action : Action),
      (∀ context m, w.held? context = some m → m.Low setting.limits context) →
      ∀ context m, (w.proceed setting action).held? context = some m →
        m.Low setting.limits context := by
    intro w action low context m held
    cases source_proceed held with
    | kept before => exact low context m before
    | stepped running goes store => exact (low context _ (held?_of_machine? running)).advance goes
    | @begun id c env goroutine started =>
      subst goroutine started
      exact .start c env
  induction reachable with
  | start =>
    intro context m held
    cases context with
    | main =>
      cases held
      exact .start p.body p.globals.1
    | goroutine id => cases held
  | act context _ _ ih => exact proceed (.act context) ih
  | refuse reason context _ ih => exact proceed (.refuse reason context) ih

/-! ## Returns and throws under way -/

namespace Instruction

/-- Whether an instruction discards items, one with each step. -/
def unwinds : Instruction → Bool
  | .reset => true
  | .throw => true
  | _ => false

/-- Whether an instruction that discards items stops at an item: a return at a mark, a throw at a
catch. -/
def seeks : Instruction → Item → Bool
  | .reset, item => item.isMark
  | .throw, item => item.isCatch
  | _, _ => false

end Instruction

/-- The machine whose unwinding instruction has discarded the items above `K` in `n` steps. -/
def Machine.unwound (m : Machine) (i : Instruction) (K : List Item) (n : Nat) : Machine :=
  of (.instruction i :: K) m.stash.toList m.env (m.steps + n)

/-- Where an unwinding arrives that has found the item it seeks: a return goes on below the mark; a
throw starts the handler in the environment of the catch, extended by a frame for the thrown value,
with a restore of that environment under it. -/
inductive Machine.Lands (m : Machine) (s : Shared) (K : List Item) :
    Item → Machine → Shared → Prop
  | mark : Lands m s K (.instruction .mark) (of K m.stash.toList m.env (m.steps + 1)) s
  | handler {sym : String} {handler : Command} {env : Env} {height : Nat} {v : Value}
    {S : List Value} : m.stash.toList = v :: S →
    Lands m s K (.instruction (.catch sym handler env height))
      (of (.command handler :: .instruction (.restore env) :: K) (S.drop (S.length - height))
        ⟨⟨s.store.frames.size⟩ :: env.frames⟩ (m.steps + 1))
      { s with store := { s.store with frames := s.store.frames.push ⟨[(sym, v)]⟩ } }

namespace Machine

variable {setting : Setting} {role : Role} {m : Machine} {s : Shared} {i : Instruction}
  {item : Item} {K : List Item} {n : Nat}

/-- Below the step limit, and with room for what it discards, an unwinding discards an item. -/
theorem advance_discard (unwinds : i.unwinds = true) (passed : i.seeks item = false)
    (within : m.steps + n < setting.limits.steps) (fits : K.length + 2 ≤ setting.limits.depth) :
    (m.unwound i (item :: K) n).advance setting role s = .next (m.unwound i K (n + 1)) s := by
  unfold unwound
  rw [advance_instruction within]
  cases i
  case reset =>
    cases item with
    | command c => rfl
    | instruction i => cases i <;> first | rfl | cases passed
  case throw =>
    have room : [Item.instruction .throw].length + K.length ≤ setting.limits.depth := by
      rw [List.length_singleton]
      omega
    cases item with
    | command c => exact schedule_of room
    | instruction i => cases i <;> first | exact schedule_of room | cases passed
  all_goals cases unwinds

/-- Below the step limit, and with room for what it discards, an unwinding arrives. -/
theorem advance_lands (sought : i.seeks item = true) (value : 1 ≤ m.stash.size)
    (within : m.steps + n < setting.limits.steps) (fits : K.length + 2 ≤ setting.limits.depth) :
    ∃ m' s', (m.unwound i (item :: K) n).advance setting role s = .next m' s' ∧
      Lands (m.unwound i (item :: K) n) s K item m' s' := by
  cases i
  case reset =>
    obtain rfl : item = .instruction .mark := Item.eq_mark_of_isMark sought
    refine ⟨_, _, ?_, .mark⟩
    unfold unwound
    rw [advance_instruction within]
    rfl
  case throw =>
    rw [← Stack.length_toList] at value
    obtain ⟨v, S, stash⟩ := List.exists_cons_of_length_pos value
    obtain ⟨sym, handler, env, height, rfl⟩ := Item.exists_of_isCatch sought
    exact ⟨_, _, advance_caught rfl stash within (by omega), .handler stash⟩
  all_goals cases sought

/-- With room for the instruction and an item, neither a return nor a throw overflows. -/
theorem advance_unwinds_faults (unwinds : i.unwinds = true)
    (top : m.control.toList = .instruction i :: K) (fits : m.control.size ≤ setting.limits.depth) :
    (m.advance setting role s).Faults fun e => ∀ n, e ≠ .controlStackOverflow n := by
  rw [← Stack.length_toList, top, List.length_cons] at fits
  rcases Nat.lt_or_ge m.steps setting.limits.steps with within | reached
  · rw [m.eq_of, top, advance_instruction within]
    cases i
    case reset =>
      simp only [execute, reset]
      split <;> trivial
    case throw =>
      refine throw_faults (fun e ordinary n overflow => ?_) (fun low => ?_) fun _ n overflow => ?_
      · subst overflow
        cases ordinary
      · exact absurd fits (Nat.not_le.mpr low)
      · cases overflow
    all_goals cases unwinds
  · have popped : m.control.pop? = some (.instruction i, .ofList K) :=
      Stack.pop?_eq_some_iff.mpr top
    rw [advance_of_limit_le popped reached]
    intro n overflow
    cases overflow

end Machine

/-- What has become of a context that had machine `m` when it began to discard the items `M` on the
way to `place`. -/
inductive World.Unwinding (setting : Setting) (context : Context) (m : Machine) (i : Instruction)
    (M : List Item) (place : Item) (K : List Item) (later : List (World × Action)) (v : World) :
    Prop
  /-- It is under way, and has discarded an item in each action of its own. -/
  | under : turnsOf context later ≤ M.length →
    v.machine? context =
      some (m.unwound i (M.drop (turnsOf context later) ++ place :: K) (turnsOf context later)) →
    Unwinding setting context m i M place K later v
  /-- It has arrived, in the action after the last item of `M` was discarded. -/
  | arrived {u : World} {m' : Machine} : (u, .act context) ∈ later →
    u.machine? context = some (m.unwound i (place :: K) M.length) →
    Machine.Lands (m.unwound i (place :: K) M.length) u.commons.shared K place m'
      (u.act setting context).commons.shared →
    (u.act setting context).machine? context = some m' →
    Unwinding setting context m i M place K later v
  /-- It has come to the step limit on the way, and has failed there. -/
  | late {u : World} {n : Nat} {m' : Machine} : (u, .act context) ∈ later → n ≤ M.length →
    setting.limits.steps ≤ m.steps + n →
    u.machine? context = some (m.unwound i (M.drop n ++ place :: K) n) →
    (m.unwound i (M.drop n ++ place :: K) n).advance setting context.role u.commons.shared =
      .stop (.error (.stepLimitExceeded setting.limits.steps)) m' u.commons.shared →
    Unwinding setting context m i M place K later v

/-- A context that has begun to discard items goes on with it, whatever the others do, until it
arrives or comes to the step limit. -/
theorem World.Course.unwinding {setting : Setting} {w v : World} {later : List (World × Action)}
    {context : Context} {m : Machine} {i : Instruction} {M K : List Item} {place : Item}
    (course : World.Course setting w later v) (errands : w.Errands)
    (numbered : context ≠ .goroutine 0) (running : w.machine? context = some m)
    (control : m.control.toList = .instruction i :: (M ++ place :: K)) (unwinds : i.unwinds = true)
    (sought : i.seeks place = true) (passed : ∀ item ∈ M, i.seeks item = false)
    (value : 1 ≤ m.stash.size) (fits : m.control.size ≤ setting.limits.depth) :
    World.Unwinding setting context m i M place K later v := by
  have height : m.control.size = M.length + K.length + 2 := by
    rw [← Stack.length_toList, control, List.length_cons, List.length_append, List.length_cons]
    omega
  have start : m = m.unwound i (M.drop 0 ++ place :: K) 0 := by
    conv_lhs => rw [m.eq_of, control]
    rfl
  have each : ∀ n < min M.length (setting.limits.steps - m.steps), ∀ s,
      (m.unwound i (M.drop n ++ place :: K) n).advance setting context.role s =
        .next (m.unwound i (M.drop (n + 1) ++ place :: K) (n + 1)) s := by
    intro n below s
    obtain ⟨more, within⟩ := Nat.lt_min.mp below
    rw [List.drop_eq_getElem_cons more, List.cons_append]
    refine Machine.advance_discard unwinds (passed _ (List.getElem_mem more)) (by omega) ?_
    rw [List.length_append, List.length_drop, List.length_cons]
    omega
  rw [start] at running
  rcases course.alone (fun n => m.unwound i (M.drop n ++ place :: K) n) errands numbered running
    each with ⟨below, there⟩ | ⟨u, event, there⟩
  · exact .under (Nat.le_trans below (Nat.min_le_left _ _)) there
  · rcases Nat.lt_or_ge (m.steps + M.length) setting.limits.steps with within | few
    · rw [Nat.min_eq_left (by omega), List.drop_length, List.nil_append] at there
      obtain ⟨m', s', next, lands⟩ : ∃ m' s',
          (m.unwound i (place :: K) M.length).advance setting context.role u.commons.shared =
            .next m' s' ∧ Machine.Lands _ u.commons.shared K place m' s' :=
        Machine.advance_lands sought value within (by omega)
      obtain ⟨arrived, rfl⟩ := World.machine?_act_of_next there next
      exact .arrived event there lands arrived
    · rw [Nat.min_eq_right (by omega)] at there
      have reached : setting.limits.steps ≤ m.steps + (setting.limits.steps - m.steps) := by omega
      exact .late event (by omega) reached there (Machine.advance_of_limit_le rfl reached)

/-- The control stack of a context is never higher than the depth limit, or than it was at the
start, whatever the program, the limits and the order in which the contexts act. A return and a
throw never overflow, so they end on the way only by the step limit; one that has a mark or a catch
below it arrives there. -/
theorem control_height_bounded (p : Program) (limits : Limits) {w : World}
    (reachable : World.Reachable (p.setting limits) p.initial w) :
    (∀ context m, w.held? context = some m →
      m.control.size ≤ max limits.depth context.initialHeight) ∧
    ∀ context m i K, w.machine? context = some m → m.control.toList = .instruction i :: K →
      i.unwinds = true →
      ((m.advance (p.setting limits) context.role w.commons.shared).Faults
        fun e => ∀ n, e ≠ .controlStackOverflow n) ∧
      ∀ M place L, K = M ++ place :: L → i.seeks place = true → (∀ item ∈ M, i.seeks item = false) →
        context ∈ w.contexts → ∀ later v, World.Course (p.setting limits) w later v →
          World.Unwinding (p.setting limits) context m i M place L later v := by
  have low := World.low_reachable reachable
  refine ⟨fun context m held => (low context m held).size_le,
    fun context m i K running top unwinds => ?_⟩
  have notMark : i ≠ .mark := by
    rintro rfl
    cases unwinds
  have fits := (low context m (World.held?_of_machine? running)).size_le_depth top notMark
  refine ⟨Machine.advance_unwinds_faults unwinds top fits,
    fun M place L split sought passed member later v course => ?_⟩
  have balance : (balance false).World w := balance_reachable (by simp) reachable
  have balanced := (balance.machine? running).1
  have value : 1 ≤ m.stash.size := by
    rw [top] at balanced
    have taken := balanced.taken_le
    cases i <;> first | exact taken | cases unwinds
  have numbered : context ≠ .goroutine 0 := by
    rintro rfl
    exact absurd (World.pos_of_mem_contexts member) (Nat.lt_irrefl 0)
  exact course.unwinding (World.Errands.reachable reachable) numbered running
    (by rw [top, split]) unwinds sought passed value fits

/-- A try that throws in the middle of a sum. -/
def thrownOperand : Program :=
  ⟨.attempt (.binary .add (.lit (.int 1)) (.throw (.lit (.int 7)))) "e" (.name "e")⟩

namespace thrownOperand

/-- Just the depth that the program needs. -/
def limits : Limits := ⟨20, 4⟩

/-- The throw is about to discard the sum. -/
def thrown : World :=
  (thrownOperand.initial.run (thrownOperand.setting limits) false 5 ⟨0, World.turnLength⟩ #[]).1

/-- The next two actions. -/
def later : List (World × Action) :=
  thrown.turns (thrownOperand.setting limits) 2 ⟨0, World.turnLength⟩

/-- The item that the throw seeks. -/
def place : Item := .instruction (.catch "e" (.name "e") ⟨[⟨1⟩, ⟨0⟩]⟩ 0)

/-- The machine of the main context. -/
def machine : Machine :=
  .of [.instruction .throw, .instruction (.binary .add), place] [.int 7, .int 1] ⟨[⟨1⟩, ⟨0⟩]⟩ 5

end thrownOperand

open thrownOperand in
/-- After two steps the throw has got past the sum and starts the handler. -/
theorem control_height_bounded_thrownOperand :
    thrown.held? .main = some machine ∧ machine.control.size ≤ max limits.depth 1 ∧
      ∃ u m' s', (u, .act .main) ∈ later ∧
        Machine.Lands (machine.unwound .throw [place] 1) u.commons.shared [] place m' s' := by
  have reachable : World.Reachable (thrownOperand.setting limits) thrownOperand.initial thrown :=
    .run .start false 5 ⟨0, World.turnLength⟩ #[]
  have course : World.Course (thrownOperand.setting limits) thrown later _ :=
    World.Course.start.run false 2 ⟨0, World.turnLength⟩ #[]
  have held : thrown.held? .main = some machine := rfl
  obtain ⟨bounded, unwinds⟩ := control_height_bounded thrownOperand limits reachable
  refine ⟨held, bounded .main machine held, ?_⟩
  have passed : ∀ item ∈ [Item.instruction (.binary .add)],
      Instruction.throw.seeks item = false := by
    simp [Instruction.seeks, Item.isCatch]
  have arrival := (unwinds .main machine .throw _ rfl rfl rfl).2 [.instruction (.binary .add)]
    place [] rfl rfl passed List.mem_cons_self later _ course
  cases arrival with
  | under below => exact absurd below (by decide)
  | arrived event there lands => exact ⟨_, _, _, event, lands⟩
  | @late u n m' event bound reached =>
    have bound : n ≤ 1 := bound
    have reached : 20 ≤ 5 + n := reached
    omega

end ControlStash
