import ControlStash.Proofs.Solo

/-!
# The two call protocols

The plain protocol puts a mark and a restore under the body of every function and a restore under
every block. The economical one leaves out restores that the next item makes needless, and in return
position throws away the rest of the running function's items and uses its mark again. This module
shows that no program without goroutines can tell the two apart.

A plain control stack is the economical one with additional items in two places (`Sim`): restores at
the bottom, and below each mark a piece that does nothing but go from one environment to another
until the items below it are come to (`Dead`). The economical stack below a mark is `Settled`: the
environment in which it is come to does not matter. `Twin` relates the states of the two machines,
and `Twin.step` is the simulation: one step of the economical machine is matched by one or more
steps of the plain one.
-/

namespace ControlStash

open Machine (of)

/-- Whether an item restores an environment. -/
def Item.isRestore : Item → Bool
  | .instruction (.restore _) => true
  | _ => false

/-- Whether the environment does not matter to a control stack: it is empty, or it
restores one first. -/
def Settled : List Item → Bool
  | [] => true
  | item :: _ => item.isRestore

/-- Items that do nothing but change the environment: restores, and returns from function bodies of
which nothing is left to do. -/
inductive Dead : List Item → Prop
  | nil : Dead []
  | restore {e D} : Dead D → Dead (.instruction (.restore e) :: D)
  | reset {M D} : (∀ item ∈ M, item.isMark = false ∧ item.isCatch = false) → Dead D →
    Dead (.instruction .reset :: (M ++ .instruction .mark :: D))

/-- An economical control stack, and a plain one that does the same. -/
inductive Sim : List Item → List Item → Prop
  | bottom {D} : (∀ item ∈ D, item.isRestore = true) → Sim [] D
  | item {x K K'} : x.isMark = false → Sim K K' → Sim (x :: K) (x :: K')
  | mark {D K K'} : Dead D → Settled K = true → Sim K K' →
    Sim (.instruction .mark :: K) (.instruction .mark :: (D ++ K'))

/-! ## Control stacks -/

theorem Item.not_isMark_of_isRestore {item : Item} (restores : item.isRestore = true) :
    item.isMark = false ∧ item.isCatch = false := by
  unfold Item.isRestore at restores
  split at restores
  · exact ⟨rfl, rfl⟩
  · cases restores

theorem Dead.no_catch {D : List Item} (dead : Dead D) : ∀ item ∈ D, item.isCatch = false := by
  induction dead with
  | nil => simp
  | restore _ ih => exact List.forall_mem_cons.mpr ⟨rfl, ih⟩
  | reset clear _ ih =>
    refine List.forall_mem_cons.mpr ⟨rfl, List.forall_mem_append.mpr ⟨fun item member => ?_, ?_⟩⟩
    · exact (clear item member).2
    · exact List.forall_mem_cons.mpr ⟨rfl, ih⟩

namespace Sim

variable {K K' D : List Item}

/-- The economical control stack is no higher than the plain one. -/
theorem length_le (sim : Sim K K') : K.length ≤ K'.length := by
  induction sim with
  | bottom => exact Nat.zero_le _
  | item _ _ ih => exact Nat.succ_le_succ ih
  | mark _ _ _ ih =>
    simp only [List.length_cons, List.length_append]
    omega

theorem append {M : List Item} (noMark : ∀ item ∈ M, item.isMark = false) (sim : Sim K K') :
    Sim (M ++ K) (M ++ K') := by
  induction M with
  | nil => exact sim
  | cons item M ih =>
    rw [List.forall_mem_cons] at noMark
    exact .item noMark.1 (ih noMark.2)

theorem of_cons {x : Item} (sim : Sim (x :: K) K') (notMark : x.isMark = false) :
    ∃ K₁, K' = x :: K₁ ∧ Sim K K₁ := by
  cases sim with
  | item _ below => exact ⟨_, rfl, below⟩
  | mark => cases notMark

/-- Above the first mark the two control stacks are the same. -/
theorem of_append {M : List Item} (noMark : ∀ item ∈ M, item.isMark = false)
    (sim : Sim (M ++ .instruction .mark :: K) K') :
    ∃ D K₁, K' = M ++ .instruction .mark :: (D ++ K₁) ∧ Dead D ∧ Settled K = true ∧ Sim K K₁ := by
  induction M generalizing K' with
  | nil =>
    cases sim with
    | item notMark => cases notMark
    | mark dead settled below => exact ⟨_, _, rfl, dead, settled, below⟩
  | cons item M ih =>
    rw [List.forall_mem_cons] at noMark
    cases sim with
    | item _ below =>
      obtain ⟨D, K₁, rfl, rest⟩ := ih noMark.2 below
      exact ⟨D, K₁, rfl, rest⟩
    | mark => cases noMark.1

/-- A restore on top of both control stacks. -/
theorem restore (env : Env) (sim : Sim K K') :
    Sim (.instruction (.restore env) :: K) (.instruction (.restore env) :: K') :=
  .item rfl sim

/-- The bodies of a block on top of both control stacks. -/
theorem underBlock (env : Env) (sim : Sim K K') :
    Sim (Machine.underBlock .economical env K) (Machine.underBlock .plain env K') := by
  cases sim with
  | bottom restores => exact .bottom (List.forall_mem_cons.mpr ⟨rfl, restores⟩)
  | item notMark below => exact (Sim.item notMark below).restore env
  | mark dead settled below => exact (Sim.mark dead settled below).restore env

/-- What lies under the body of a function in both control stacks. -/
theorem underBody (env : Env) (sim : Sim K K') :
    Sim (Machine.underBody .economical env K) (Machine.underBody .plain env K') := by
  have own : Sim (.instruction .mark :: .instruction (.restore env) :: K)
      (.instruction .mark :: .instruction (.restore env) :: K') :=
    .mark .nil rfl (sim.restore env)
  show Sim _ (.instruction .mark :: ([.instruction (.restore env)] ++ K'))
  unfold Machine.underBody
  split
  · exact own
  · exact .mark (.restore .nil) rfl sim
  · exact .mark (.restore .nil) rfl sim
  · next items =>
    split
    · next above found =>
      obtain ⟨M, K, rfl, rfl, clear⟩ := eq_append_of_tailFrame? found
      rw [List.drop_left]
      cases sim with
      | item _ below =>
        obtain ⟨D, K₁, rfl, dead, settled, rest⟩ :=
          of_append (fun item member => (clear item member).1) below
        have made := Sim.mark (D := .instruction (.restore env) :: .instruction .reset ::
          (M ++ .instruction .mark :: D)) (.restore (.reset clear dead)) settled rest
        simpa using made
    · exact own
  · exact own

end Sim

/-! ## The simulation -/

/-- The economical and the plain machine in states that do the same. -/
structure Twin (a b : Machine × Shared) : Prop where
  shared : a.2 = b.2
  stash : a.1.stash = b.1.stash
  control : Sim a.1.control.toList b.1.control.toList
  env : Settled a.1.control.toList = true ∨ a.1.env = b.1.env
  steps : a.1.steps ≤ b.1.steps

section Simulation

variable {globals : Env} {a b a' : Machine × Shared} {m m' : Machine} {K K' D : List Item}
  {S S' : List Value} {env env' : Env} {k k' : Nat} {s s' : Shared}

/-- A dead piece leads to the items below it with the same stash. -/
theorem Dead.reach (dead : Dead D) (globals : Env) (K : List Item) (S : List Value) (env : Env)
    (k : Nat) (s : Shared) : ∃ env' k', k ≤ k' ∧
      Reach .plain globals (of (D ++ K) S env k, s) (of K S env' k', s) := by
  induction dead generalizing env k with
  | nil => exact ⟨env, k, Nat.le_refl k, .refl⟩
  | @restore e D _ ih =>
    obtain ⟨env', k', later, reach⟩ := ih e (k + 1)
    exact ⟨env', k', by omega, .head (Step.of_move .restore) reach⟩
  | @reset M D clear _ ih =>
    obtain ⟨env', k', later, reach⟩ := ih env (k + M.length + 1)
    have unwound : Reach .plain globals
        (of (.instruction .reset :: (M ++ .instruction .mark :: (D ++ K))) S env k, s) _ :=
      reach_reset fun item member => (clear item member).1
    refine ⟨env', k', by omega, ?_⟩
    rw [List.cons_append, List.append_assoc, List.cons_append]
    exact (unwound.tail (Step.of_move .resetMark)).trans reach

/-- The plain machine has followed when it has reached a state that does the same. -/
def Followed (globals : Env) (b a' : Machine × Shared) : Prop :=
  ∃ b', Reach .plain globals b b' ∧ Twin a' b'

/-- A step that the plain machine takes as well, in the same environment. -/
theorem Followed.step (step : Step .plain globals b (of K' S env (k' + 1), s))
    (control : Sim K K') (later : k ≤ k') : Followed globals b (of K S env (k + 1), s) :=
  ⟨_, .single step, rfl, rfl, control, .inr rfl, Nat.succ_le_succ later⟩

namespace Command

/-- Operands and the instruction that takes them can be unwound. -/
theorem waits_operands (cs : List Command) (last : Instruction)
    (waits : (Item.instruction last).isMark = false ∧ (Item.instruction last).isCatch = false) :
    ∀ item ∈ cs.map Item.command ++ [.instruction last],
      item.isMark = false ∧ item.isCatch = false := by
  intro item member
  rcases List.mem_append.mp member with operand | rest
  · obtain ⟨c, -, rfl⟩ := List.mem_map.mp operand
    exact ⟨rfl, rfl⟩
  · rw [List.mem_singleton.mp rest]
    exact waits

/-- Statements can be unwound. -/
theorem waits_sequencePlan (stmts : List Command) :
    ∀ item ∈ sequencePlan stmts, item.isMark = false ∧ item.isCatch = false := by
  fun_induction sequencePlan stmts with
  | case1 => simp [Item.isMark, Item.isCatch]
  | case2 stmt => simp [Item.isMark, Item.isCatch]
  | case3 stmt stmts _ ih =>
    exact List.forall_mem_cons.mpr ⟨⟨rfl, rfl⟩, List.forall_mem_cons.mpr ⟨⟨rfl, rfl⟩, ih⟩⟩

/-- No plan holds a mark. -/
theorem noMark_plan (c : Command) (env : Env) (height : Nat) :
    ∀ item ∈ c.plan env height, item.isMark = false := by
  intro item member
  cases c
  case call callee args => exact (waits_operands (callee :: args) _ ⟨rfl, rfl⟩ item member).1
  case go callee args => exact (waits_operands (callee :: args) _ ⟨rfl, rfl⟩ item member).1
  case arrayOf elements => exact (waits_operands elements _ ⟨rfl, rfl⟩ item member).1
  case seq stmts => exact (waits_sequencePlan stmts item member).1
  all_goals revert item
  case logical op a b => cases op <;> simp [plan, Item.isMark]
  all_goals simp [plan, Item.isMark]

end Command

/-- One step of the economical machine is matched by one or more steps of the plain one. -/
theorem followed_of_move (control : Sim m.control.toList K')
    (same : Settled m.control.toList = true ∨ m.env = env') (later : m.steps ≤ k')
    (move : Move .economical globals .main m s (.next m' s')) :
    Followed globals (of K' m.stash.toList env' k', s) (m', s') := by
  cases move
  case restore e K S env k =>
    cases control with
    | item _ below => exact .step (Step.of_move .restore) below later
  case mark K S env k =>
    cases control with
    | item notMark => cases notMark
    | @mark D _ K₁ dead settled below =>
      obtain ⟨env₁, k₁, after, reach⟩ := dead.reach globals K₁ S env' (k' + 1) s
      refine ⟨_, .head (Step.of_move .mark) reach, rfl, rfl, below, .inl settled, ?_⟩
      exact Nat.le_trans (Nat.succ_le_succ later) after
  all_goals
    obtain ⟨K₁, rfl, below⟩ := control.of_cons rfl
    obtain rfl := same.resolve_left Bool.false_ne_true
  case lit => exact .step (Step.of_move .lit) below later
  case name found => exact .step (Step.of_move (.name found)) below later
  case lambda => exact .step (Step.of_move .lambda) below later
  case plan c K S env k planned =>
    exact .step (Step.of_move (.plan planned)) (below.append (c.noMark_plan env S.length)) later
  case block extended =>
    exact .step (Step.of_move (.block extended)) (.item rfl (below.underBlock _)) later
  case unary applied => exact .step (Step.of_move (.unary applied)) below later
  case binary applied => exact .step (Step.of_move (.binary applied)) below later
  case pop => exact .step (Step.of_move .pop) below later
  case assign assigned => exact .step (Step.of_move (.assign assigned)) below later
  case native length reply => exact .step (Step.of_move (.native length reply)) below later
  case call length extended =>
    exact .step (Step.of_move (.call length extended)) (.item rfl (below.underBody _)) later
  case branchTrue => exact .step (Step.of_move .branchTrue) (.item rfl below) later
  case branchFalse => exact .step (Step.of_move .branchFalse) (.item rfl below) later
  case branchNone => exact .step (Step.of_move .branchNone) below later
  case loopAgain =>
    exact .step (Step.of_move .loopAgain)
      (.item rfl (.item rfl (.item rfl (.item rfl below)))) later
  case loopDone => exact .step (Step.of_move .loopDone) below later
  case makeArray length => exact .step (Step.of_move (.makeArray length)) below later
  case index accessed found => exact .step (Step.of_move (.index accessed found)) below later
  case indexAssign accessed inRange =>
    exact .step (Step.of_move (.indexAssign accessed inRange)) below later
  case pass => exact .step (Step.of_move .pass) below later
  case resetEmpty S env k =>
    cases below with
    | bottom restores =>
    -- The restores at the bottom of the plain stack are discarded one by one.
    have unwound : Reach .plain globals (of (.instruction .reset :: (K₁ ++ [])) S env k', s) _ :=
      reach_reset fun item member => (Item.not_isMark_of_isRestore (restores item member)).1
    rw [List.append_nil] at unwound
    refine ⟨_, unwound.tail (Step.of_move .resetEmpty), rfl, rfl, .bottom (by simp), .inr rfl, ?_⟩
    simp only [Machine.steps_of] at later ⊢
    omega
  case resetMark K S env k =>
    obtain ⟨D, K₂, rfl, dead, settled, rest⟩ := Sim.of_append (M := []) (by simp) below
    obtain ⟨env₁, k₁, after, reach⟩ := dead.reach globals K₂ S env (k' + 1) s
    refine ⟨_, .head (Step.of_move .resetMark) reach, rfl, rfl, rest, .inl settled, ?_⟩
    exact Nat.le_trans (Nat.succ_le_succ later) after
  case resetDiscard item K S env k notMark =>
    obtain ⟨K₂, rfl, rest⟩ := below.of_cons notMark
    exact .step (Step.of_move (.resetDiscard notMark)) (.item rfl rest) later
  case throwDiscard item K S env k notCatch =>
    cases below with
    | item _ rest => exact .step (Step.of_move (.throwDiscard notCatch)) (.item rfl rest) later
    | @mark D _ K₂ dead settled rest =>
      have unwound : Reach .plain globals
          (of (.instruction .throw :: (D ++ K₂)) S env (k' + 1), s) _ := reach_throw dead.no_catch
      refine ⟨_, .head (Step.of_move (.throwDiscard rfl)) unwound, rfl, rfl,
        .item rfl rest, .inr rfl, ?_⟩
      simp only [Machine.steps_of] at later ⊢
      omega
  case caught extended =>
    obtain ⟨K₂, rfl, rest⟩ := below.of_cons rfl
    exact .step (Step.of_move (.caught extended)) (.item rfl (rest.restore _)) later

/-- One step of the economical machine is matched by one or more steps of the plain one. -/
theorem Twin.step (twin : Twin a b) (step : Step .economical globals a a') :
    Followed globals b a' := by
  obtain ⟨m, s⟩ := a
  obtain ⟨n, s₁⟩ := b
  obtain ⟨m', s'⟩ := a'
  obtain ⟨rfl, stash, control, env, later⟩ := twin
  have followed := followed_of_move control env later step.move
  rwa [show m.stash = n.stash from stash, ← n.eq_of] at followed

theorem dead_of_restores (restores : ∀ item ∈ D, item.isRestore = true) : Dead D := by
  induction D with
  | nil => exact .nil
  | cons item D ih =>
    rw [List.forall_mem_cons] at restores
    have rest := ih restores.2
    have top := restores.1
    unfold Item.isRestore at top
    split at top
    · exact .restore rest
    · cases top

/-- Where the economical machine ends, the plain one ends in the same way. -/
theorem finishes_of_halts {result : Except Fault Value} {steps : Nat}
    (control : Sim m.control.toList K')
    (same : Settled m.control.toList = true ∨ m.env = env') (later : m.steps ≤ k')
    (halts : Halts globals .main m s result steps s') :
    ∃ n', Finishes .plain globals (of K' m.stash.toList env' k', s) result (n', s') ∧
      steps ≤ n'.steps := by
  cases halts with
  | @done S env k =>
    cases control with
    | bottom restores =>
      obtain ⟨env₁, k₁, after, reach⟩ := (dead_of_restores restores).reach globals [] S env' k' s
      rw [List.append_nil] at reach
      obtain ⟨n, counted, finishes⟩ := Finishes.of_halts reach .done
      exact ⟨n, finishes, counted ▸ Nat.le_trans later after⟩
  | @fault item K S env k _ e _ fails =>
    have notMark : item.isMark = false := by cases fails <;> rfl
    have unsettled : Settled (item :: K) = false := by cases fails <;> rfl
    obtain ⟨K₁, rfl, below⟩ := control.of_cons notMark
    obtain rfl := same.resolve_left (by rw [Machine.toList_control_of, unsettled]; simp)
    have halts : Halts globals .main (of (item :: K₁) S env k') s _ _ _ := .fault fails
    obtain ⟨n, counted, finishes⟩ := Finishes.of_halts .refl halts
    simp only [Machine.steps_of] at later
    exact ⟨n, finishes, by omega⟩
  | @uncaught v S env k =>
    obtain ⟨K₁, rfl, below⟩ := control.of_cons rfl
    obtain rfl := same.resolve_left Bool.false_ne_true
    cases below with
    | bottom restores =>
      have unwound : Reach .plain globals
          (of (.instruction .throw :: (K₁ ++ [])) (v :: S) env k', s) _ :=
        reach_throw fun item member => (Item.not_isMark_of_isRestore (restores item member)).2
      rw [List.append_nil] at unwound
      obtain ⟨n, counted, finishes⟩ := Finishes.of_halts unwound .uncaught
      simp only [Machine.steps_of] at later
      exact ⟨n, finishes, by omega⟩

theorem Twin.stop {result : Except Fault Value} (solo : Solo a.1 a.2) (twin : Twin a b)
    (stops : a.1.act .economical globals .main a.2 = .stop result a'.1 a'.2) :
    ∃ b', Finishes .plain globals b result b' ∧ b'.2 = a'.2 ∧ a'.1.steps ≤ b'.1.steps := by
  have halts := solo.halts stops
  obtain ⟨m, s⟩ := a
  obtain ⟨n, s₁⟩ := b
  obtain ⟨rfl, stash, control, env, later⟩ := twin
  obtain ⟨n', finishes, after⟩ := finishes_of_halts control env later halts
  rw [show m.stash = n.stash from stash, ← n.eq_of] at finishes
  exact ⟨(n', a'.2), finishes, rfl, after⟩

/-- Whatever the economical machine comes to, the plain one comes to a state that does the same. -/
theorem Twin.reach (twin : Twin a b) (reach : Reach .economical globals a a') :
    ∃ b', Reach .plain globals b b' ∧ Twin a' b' := by
  induction reach with
  | refl => exact ⟨b, .refl, twin⟩
  | tail _ step ih =>
    obtain ⟨b₁, on, twin₁⟩ := ih
    obtain ⟨b₂, further, twin₂⟩ := twin₁.step step
    exact ⟨b₂, on.trans further, twin₂⟩

variable {result : Except Fault Value} {c : Machine × Shared}

/-- If the economical machine comes to an end, the plain one comes to the same end. -/
theorem Twin.plain_finishes (solo : Solo a.1 a.2) (twin : Twin a b)
    (finishes : Finishes .economical globals a result c) :
    ∃ c', Finishes .plain globals b result c' ∧ c'.2 = c.2 ∧ c.1.steps ≤ c'.1.steps := by
  obtain ⟨d, reach, stops⟩ := finishes
  obtain ⟨d', reach', twin'⟩ := twin.reach reach
  obtain ⟨c', finishes', same, later⟩ := twin'.stop (solo.reach reach) stops
  exact ⟨c', finishes'.head reach', same, later⟩

/-- If the plain machine comes to an end, the economical one comes to the same end: it has no more
steps to take than the plain one. -/
theorem Twin.economical_finishes (solo : Solo a.1 a.2) (soloPlain : Solo b.1 b.2) (twin : Twin a b)
    (finishes : Finishes .plain globals b result c) :
    ∃ c', Finishes .economical globals a result c' ∧ c'.2 = c.2 ∧ c'.1.steps ≤ c.1.steps := by
  induction left : c.1.steps - a.1.steps using Nat.strongRecOn generalizing a b with
  | _ left ih =>
    rcases solo.act .economical globals with ⟨a₁, step, solo₁⟩ | ⟨result₁, c₁, stops⟩
    · obtain ⟨b₁, reach, twin₁⟩ := twin.step step
      have soloPlain₁ := soloPlain.reach reach
      have finishes₁ := finishes.of_reach reach
      have counted := (Step.move step).steps_next
      have bound := finishes₁.steps_le soloPlain₁
      have ahead := twin₁.steps
      obtain ⟨c', finishes', same, later⟩ :=
        ih (c.1.steps - a₁.1.steps) (by omega) solo₁ soloPlain₁ twin₁ finishes₁ rfl
      exact ⟨c', finishes'.head (.single step), same, later⟩
    · obtain ⟨c₂, finishes₂, same, later⟩ := twin.stop solo stops
      obtain ⟨rfl, rfl⟩ := finishes.deterministic finishes₂
      exact ⟨c₁, ⟨a, .refl, stops⟩, same.symm, later⟩

end Simulation

/-! ## Programs -/

namespace Program

variable {p : Program}

theorem twin (p : Program) : Twin (p.machine, p.shared) (p.machine, p.shared) :=
  ⟨rfl, rfl, .item rfl (.bottom (by simp)), .inr rfl, Nat.le_refl _⟩

/-- A program that comes to an end under one protocol comes to the same end under the other. -/
theorem finishes_under {protocol : CallProtocol} {result : Except Fault Value}
    {b : Machine × Shared}
    (goFree : p.body.GoFree)
    (finishes : Finishes protocol p.globals.1 (p.machine, p.shared) result b)
    (protocol' : CallProtocol) :
    ∃ c, Finishes protocol' p.globals.1 (p.machine, p.shared) result c ∧ c.2 = b.2 := by
  have solo := Program.solo goFree
  cases protocol with
  | economical =>
    cases protocol' with
    | economical => exact ⟨b, finishes, rfl⟩
    | plain =>
      obtain ⟨c, finishes, same, -⟩ := p.twin.plain_finishes solo finishes
      exact ⟨c, finishes, same⟩
  | plain =>
    cases protocol' with
    | economical =>
      obtain ⟨c, finishes, same, -⟩ := p.twin.economical_finishes solo solo finishes
      exact ⟨c, finishes, same⟩
    | plain => exact ⟨b, finishes, rfl⟩

variable {limits limits' : Limits} {traced traced' : Bool} {fuel fuel' : Nat}
  {report report' : Report}

/-- A run that no limit puts an end to shows what all runs under the other protocol show, if their
limits are large enough. -/
theorem runUnder_agree {protocol : CallProtocol} (goFree : p.body.GoFree)
    (ran : p.runUnder protocol limits traced fuel = some report) (uncut : report.Uncut)
    (protocol' : CallProtocol) (traced' : Bool) :
    ∃ bound : Limits, ∀ limits', bound ≤ limits' → ∃ enough, ∀ fuel', enough ≤ fuel' →
      ∃ report', p.runUnder protocol' limits' traced' fuel' = some report' ∧
        report'.result = report.result ∧ report'.output = report.output ∧
        report'.store = report.store := by
  obtain ⟨result, b, finishes, shows⟩ := finishes_of_runUnder goFree ran uncut
  obtain ⟨c, finishes', same⟩ := finishes_under goFree finishes protocol'
  obtain ⟨bound, runs⟩ := runUnder_of_finishes finishes'
  refine ⟨bound, fun limits' large => ?_⟩
  obtain ⟨enough, runs⟩ := runs limits' large traced'
  refine ⟨enough, fun fuel' more => ?_⟩
  obtain ⟨report', ran', shows'⟩ := runs fuel' more
  rw [same] at shows'
  exact ⟨report', ran', shows'.result.trans shows.result.symm,
    shows'.output.trans shows.output.symm, shows'.store.trans shows.store.symm⟩

theorem steps_le_of_runUnder (goFree : p.body.GoFree)
    (ran : p.runUnder .economical limits traced fuel = some report) (uncut : report.Uncut)
    (ran' : p.runUnder .plain limits' traced' fuel' = some report') (uncut' : report'.Uncut) :
    report.steps ≤ report'.steps := by
  obtain ⟨result, b, finishes, shows⟩ := finishes_of_runUnder goFree ran uncut
  obtain ⟨result', b', finishes', shows'⟩ := finishes_of_runUnder goFree ran' uncut'
  obtain ⟨c, finishesPlain, -, fewer⟩ := p.twin.plain_finishes (solo goFree) finishes
  obtain ⟨-, rfl⟩ := finishesPlain.deterministic finishes'
  rw [shows.steps, shows'.steps]
  exact fewer

/-- Each machine of an economical run has its like in a plain run. -/
theorem reachable_plain {w : World} {m : Machine} (goFree : p.body.GoFree)
    (reachable : World.Reachable (p.settingUnder .economical limits) p.initial w)
    (running : w.machine? .main = some m) :
    ∃ (limits' : Limits) (w' : World) (m' : Machine),
      World.Reachable (p.settingUnder .plain limits') p.initial w' ∧ w'.machine? .main = some m' ∧
        Twin (m, w.commons.shared) (m', w'.commons.shared) := by
  obtain ⟨main, s, rfl, active⟩ := reachable_alone goFree reachable
  have main_eq : main = .active (.running m) := by
    unfold World.machine? World.alone at running
    dsimp only at running
    split at running
    · cases running
      rfl
    · cases running
  subst main_eq
  obtain ⟨m₁, same, -, reach⟩ := active _ rfl
  cases same
  obtain ⟨b, reach', twin⟩ := p.twin.reach reach
  obtain ⟨bound, reachable'⟩ := reachable_of_reach reach'
  exact ⟨bound, _, b.1, reachable' bound ⟨Nat.le_refl _, Nat.le_refl _⟩, rfl, twin⟩

end Program

/-- A program without goroutines does the same under both call protocols. If a run under one of them
is not put to an end by a limit, all runs under the other with large enough limits end with the same
result, the same printed lines and the same store. The economical protocol takes no more steps, and
at no time has a higher control stack than the plain one has at the corresponding time. -/
theorem protocols_agree (p : Program) (goFree : p.body.GoFree) :
    (∀ (protocol protocol' : CallProtocol) (limits : Limits) (traced traced' : Bool) (fuel : Nat)
        (report : Report),
      p.runUnder protocol limits traced fuel = some report → report.Uncut →
      ∃ bound : Limits, ∀ limits', bound ≤ limits' → ∃ enough, ∀ fuel', enough ≤ fuel' →
        ∃ report', p.runUnder protocol' limits' traced' fuel' = some report' ∧
          report'.result = report.result ∧ report'.output = report.output ∧
          report'.store = report.store) ∧
    (∀ (limits limits' : Limits) (traced traced' : Bool) (fuel fuel' : Nat) (report report' : Report),
      p.runUnder .economical limits traced fuel = some report → report.Uncut →
      p.runUnder .plain limits' traced' fuel' = some report' → report'.Uncut →
      report.steps ≤ report'.steps) ∧
    ∀ (limits : Limits) (w : World) (m : Machine),
      World.Reachable (p.settingUnder .economical limits) p.initial w → w.machine? .main = some m →
      ∃ (limits' : Limits) (w' : World) (m' : Machine),
        World.Reachable (p.settingUnder .plain limits') p.initial w' ∧ w'.machine? .main = some m' ∧
        w.commons.shared = w'.commons.shared ∧ m.stash = m'.stash ∧
        m.steps ≤ m'.steps ∧ m.control.size ≤ m'.control.size := by
  refine ⟨fun protocol protocol' limits traced traced' fuel report ran uncut => ?_,
    fun limits limits' traced traced' fuel fuel' report report' ran uncut ran' uncut' => ?_,
    fun limits w m reachable running => ?_⟩
  · exact Program.runUnder_agree goFree ran uncut protocol' traced'
  · exact Program.steps_le_of_runUnder goFree ran uncut ran' uncut'
  · obtain ⟨limits', w', m', reachable', running', twin⟩ :=
      Program.reachable_plain goFree reachable running
    refine ⟨limits', w', m', reachable', running', twin.shared, twin.stash, twin.steps, ?_⟩
    rw [← Stack.length_toList, ← Stack.length_toList]
    exact twin.control.length_le

/-- A function that returns a call of itself out of a loop. -/
def loopReturn : Program :=
  ⟨.seq [.function "f" [⟨"b", none⟩]
      (.block (.loop .whileForm (.lit (.bool true))
        (.branch (.name "b") (.ret (.callNamed "f" [.lit (.bool false)]))
          (some (.ret (.lit (.int 2))))))),
    .callNamed "f" [.lit (.bool true)]]⟩

theorem protocols_agree_loopReturn :
    ∃ bound : Limits, ∀ limits, bound ≤ limits → ∃ enough, ∀ fuel, enough ≤ fuel →
      ∃ report, loopReturn.runUnder .plain limits false fuel = some report ∧
        report.result = .ok (.int 2) := by
  have ran : ∃ report, loopReturn.runUnder .economical {} false 60 = some report ∧
      report.result = .ok (.int 2) := ⟨_, rfl, rfl⟩
  obtain ⟨report, ran, two⟩ := ran
  have uncut : report.Uncut := by
    rw [Report.Uncut, two]
    simp
  obtain ⟨bound, agrees⟩ := (protocols_agree loopReturn (by decide)).1 .economical .plain
    {} false false 60 report ran uncut
  refine ⟨bound, fun limits large => ?_⟩
  obtain ⟨enough, agrees⟩ := agrees limits large
  refine ⟨enough, fun fuel more => ?_⟩
  obtain ⟨report', ran', same, -⟩ := agrees fuel more
  exact ⟨report', ran', same.trans two⟩

end ControlStash
