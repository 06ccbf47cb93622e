import ControlStash.Proofs.Evaluator
import ControlStash.Proofs.Protocol

/-!
# Machine and evaluator

The machine computes what the evaluator says. The statement behind this is about a command on top of
any control stack, with any stash and in any environment, and says where each completion of the
command leads (`Carries`):

* a value is put on the stash, and the items below are come to in the same environment;
* a return leads below the nearest mark, with the returned value and no other on top of the stash;
* a throw has the thrown value on top and discards the items below; the operands that were being
  collected are still on the stash;
* a fault ends the context;
* an evaluation that is not deep enough has a run of at least as many steps.

It is proved for the plain call protocol, under which an environment is restored as soon as it is
left, by induction on the depth (`adequate`). The economical protocol does the same by the
simulation between the two, which gives the result for programs.
-/

namespace ControlStash

open Machine (of)

/-! ## States of programs without goroutines and with clear returns -/

/-- A machine alone, in which no return stands in an operand position. -/
structure Tame (a : Machine × Shared) : Prop where
  solo : Solo a.1 a.2
  machine : a.1.Holds Command.returnsClear
  store : a.2.store.Holds (Value.Holds Command.returnsClear)

section Tame

variable {protocol : CallProtocol} {globals : Env} {a b : Machine × Shared}

theorem Tame.step (tame : Tame a) (step : Step protocol globals a b) : Tame b := by
  have holds := (Step.move step).holds Command.heritable_returnsClear tame.machine tame.store
  exact ⟨tame.solo.step step, holds.1, holds.2⟩

theorem Tame.reach (tame : Tame a) (reach : Reach protocol globals a b) : Tame b := by
  induction reach with
  | refl => exact tame
  | tail _ step ih => exact ih.step step

/-- The command on top of the control stack has no return in an operand position. -/
theorem Tame.root {c : Command} {K : List Item} {S : List Value} {env : Env} {k : Nat} {s : Shared}
    (tame : Tame (of (.command c :: K) S env k, s)) : c.returnsClear = true :=
  Command.root_of_everywhere (tame.machine.items _ List.mem_cons_self)

end Tame

/-! ## Where completions lead -/

/-- The items below the nearest mark. -/
def afterMark : List Item → List Item
  | [] => []
  | .instruction .mark :: K => K
  | _ :: K => afterMark K

theorem afterMark_cons {item : Item} (notMark : item.isMark = false) (K : List Item) :
    afterMark (item :: K) = afterMark K := by
  cases item with
  | command c => rfl
  | instruction i => cases i <;> first | rfl | cases notMark

theorem afterMark_append {M : List Item} (noMark : ∀ item ∈ M, item.isMark = false)
    (K : List Item) : afterMark (M ++ K) = afterMark K := by
  induction M with
  | nil => rfl
  | cons item M ih =>
    rw [List.forall_mem_cons] at noMark
    rw [List.cons_append, afterMark_cons noMark.1, ih noMark.2]

/-- Where the completion of an evaluation leads from a state, if it is to leave a control stack, a
stash and an environment behind: a value is put on that stash. A return and a throw leave by the
control stack. An evaluation without an answer has a run of at least `n` steps. -/
def Carries {α : Type} (globals : Env) (K : List Item) (S : List Value) (env : Env) (n : Nat)
    (put : α → List Value) (a : Machine × Shared) : Evaluation α → Prop
  | none => ∃ b, Reach .plain globals a b ∧ a.1.steps + n ≤ b.1.steps
  | some (.value x, s) => ∃ k, Reach .plain globals a (of K (put x ++ S) env k, s)
  | some (.returned v, s) => ∃ e k, Reach .plain globals a (of (afterMark K) (v :: S) e k, s)
  | some (.thrown v, s) =>
    ∃ T e k, Reach .plain globals a (of (.instruction .throw :: K) (v :: (T ++ S)) e k, s)
  | some (.failed e, s) => ∃ b, Finishes .plain globals a (.error e) b ∧ b.2 = s

namespace Carries

variable {α β : Type} {globals : Env} {K M : List Item} {S P : List Value}
  {env inner : Env} {n : Nat}
  {put : α → List Value} {put' : β → List Value} {a b : Machine × Shared} {r : Evaluation α}

/-- Steps before an evaluation. -/
theorem head (reach : Reach .plain globals a b) (carries : Carries globals K S env n put b r) :
    Carries globals K S env n put a r := by
  rcases r with _ | ⟨x | v | v | e, s⟩
  · obtain ⟨c, on, long⟩ := carries
    have earlier := Reach.steps_le reach
    exact ⟨c, reach.trans on, by omega⟩
  · obtain ⟨k, on⟩ := carries
    exact ⟨k, reach.trans on⟩
  · obtain ⟨e, k, on⟩ := carries
    exact ⟨e, k, reach.trans on⟩
  · obtain ⟨T, e, k, on⟩ := carries
    exact ⟨T, e, k, reach.trans on⟩
  · obtain ⟨c, finishes, same⟩ := carries
    exact ⟨c, finishes.head reach, same⟩

/-- A step before an evaluation. -/
theorem after (tame : Tame a) (step : Step .plain globals a b)
    (rest : Tame b → Carries globals K S env n put b r) : Carries globals K S env n put a r :=
  head (.single step) (rest (tame.step step))

/-- The length of a run matters only to an evaluation without an answer. -/
theorem of_answer {answer : Completion α × Shared}
    (carries : Carries globals K S env n put a (some answer)) (m : Nat) :
    Carries globals K S env m put a (some answer) := by
  rcases answer with ⟨x | v | v | e, s⟩ <;> exact carries

/-- A step before an evaluation makes it longer. -/
theorem step (step : Step .plain globals a b) (carries : Carries globals K S env n put b r) :
    Carries globals K S env (n + 1) put a r := by
  rcases r with _ | completed
  · obtain ⟨c, on, long⟩ := carries
    have counted := (Step.move step).steps_next
    exact ⟨c, .head step on, by omega⟩
  · exact (head (.single step) carries).of_answer (n + 1)

/-- A longer run is a run. -/
theorem weaken {m : Nat} (carries : Carries globals K S env n put a r) (fewer : m ≤ n) :
    Carries globals K S env m put a r := by
  rcases r with _ | completed
  · obtain ⟨c, on, long⟩ := carries
    exact ⟨c, on, by omega⟩
  · exact carries.of_answer m

/-- An item that gives a value in one step. -/
theorem give {x : α} {k : Nat} {s : Shared}
    (step : Step .plain globals a (of K (put x ++ S) env k, s)) :
    Carries globals K S env n put a (Evaluation.give x s) :=
  ⟨k, .single step⟩

/-- An item that raises a fault. -/
theorem fail {item : Item} {K' : List Item} {S' : List Value} {env' : Env} {k : Nat} {s s' : Shared}
    {e : Fault} (fails : Fails globals .main item S' env' s e s') :
    Carries globals K S env n put (of (item :: K') S' env' k, s) (Evaluation.fail e s') := by
  obtain ⟨m, -, finishes⟩ := Finishes.of_halts .refl (.fault fails)
  exact ⟨(m, s'), finishes, rfl⟩

/-- Goes on after an operand. The items `M` wait for it, and the operands `P` that came before it
are on the stash; if there are any, no return may leave the operand. -/
theorem andThen {next : α → Shared → Evaluation β}
    (first : Carries globals (M ++ K) (P ++ S) env n put a r)
    (waits : ∀ item ∈ M, item.isMark = false ∧ item.isCatch = false)
    (clear : P = [] ∨ r.NoReturn)
    (later : ∀ x k s, r = some (.value x, s) →
      Reach .plain globals a (of (M ++ K) (put x ++ (P ++ S)) env k, s) →
      Carries globals K S env n put' (of (M ++ K) (put x ++ (P ++ S)) env k, s) (next x s)) :
    Carries globals K S env n put' a (r.andThen next) := by
  rcases r with _ | ⟨x | v | v | e, s⟩
  · exact first
  · obtain ⟨k, reach⟩ := first
    exact head reach (later x k s rfl reach)
  · rcases clear with rfl | noReturn
    · obtain ⟨e, k, reach⟩ := first
      rw [afterMark_append fun item member => (waits item member).1] at reach
      exact ⟨e, k, reach⟩
    · exact absurd rfl (noReturn v s)
  · obtain ⟨T, e, k, reach⟩ := first
    have unwound : Reach .plain globals
        (of (.instruction .throw :: (M ++ K)) (v :: (T ++ (P ++ S))) e k, s) _ :=
      reach_throw fun item member => (waits item member).2
    refine ⟨T ++ P, e, k + M.length, ?_⟩
    rw [List.append_assoc]
    exact reach.trans unwound
  · exact first

/-- Goes back to the environment around a scope. -/
theorem restored (carries : Carries globals (.instruction (.restore env) :: K) S inner n put a r) :
    Carries globals K S env n put a r := by
  rcases r with _ | ⟨x | v | v | e, s⟩
  · exact carries
  · obtain ⟨k, reach⟩ := carries
    exact ⟨k + 1, reach.tail (Step.of_move .restore)⟩
  · exact carries
  · obtain ⟨T, e, k, reach⟩ := carries
    exact ⟨T, e, k + 1, reach.tail (Step.of_move (.throwDiscard rfl))⟩
  · exact carries

/-- Goes back from the body of a function to the environment of the call. -/
theorem asCall {r : Evaluation Value}
    (carries : Carries globals (.instruction .mark :: .instruction (.restore env) :: K) S
      inner n ([·]) a r) : Carries globals K S env n ([·]) a r.asCall := by
  rcases r with _ | ⟨v | v | v | e, s⟩
  · exact carries
  · obtain ⟨k, reach⟩ := carries
    exact ⟨k + 2, (reach.tail (Step.of_move .mark)).tail (Step.of_move .restore)⟩
  · obtain ⟨e, k, reach⟩ := carries
    exact ⟨k + 1, reach.tail (Step.of_move .restore)⟩
  · obtain ⟨T, e, k, reach⟩ := carries
    have noCatch : ∀ item ∈ [Item.instruction .mark, .instruction (.restore env)],
        item.isCatch = false := by simp [Item.isCatch]
    exact ⟨T, e, k + 2, reach.trans (reach_throw noCatch)⟩
  · exact carries

/-- Goes on in the handler of a `try`, or past it. -/
theorem orHandle {sym : String} {c : Command} {r : Evaluation Value} {height : Nat}
    {handler : Value → Shared → Evaluation Value}
    (body : Carries globals (.instruction (.catch sym c env height) :: K) S env n ([·]) a r)
    (handles : ∀ v T e k s, Reach .plain globals a
        (of (.instruction .throw :: .instruction (.catch sym c env height) :: K)
          (v :: (T ++ S)) e k, s) →
      Carries globals K S env n ([·])
        (of (.instruction .throw :: .instruction (.catch sym c env height) :: K)
          (v :: (T ++ S)) e k, s)
        (handler v s)) :
    Carries globals K S env n ([·]) a (r.orHandle handler) := by
  rcases r with _ | ⟨v | v | v | e, s⟩
  · exact body
  · obtain ⟨k, reach⟩ := body
    exact ⟨k + 1, reach.tail (Step.of_move .pass)⟩
  · exact body
  · obtain ⟨T, e, k, reach⟩ := body
    exact head reach (handles v T e k s reach)
  · exact body

end Carries

/-! ## Commands -/

/-- The evaluator says to a depth where a command leads on top of any control stack. -/
def Command.Leads (globals : Env) (depth : Nat) (c : Command) : Prop :=
  ∀ (K : List Item) (S : List Value) (env : Env) (k : Nat) (s : Shared),
    Tame (of (.command c :: K) S env k, s) →
    Carries globals K S env depth ([·]) (of (.command c :: K) S env k, s) (c.evaluate depth env s)

/-- The evaluator says to a depth where all commands lead. -/
def Adequate (globals : Env) (depth : Nat) : Prop :=
  ∀ c : Command, c.Leads globals depth

namespace Adequate

variable {globals : Env} {depth : Nat} {K M : List Item} {S P : List Value} {env : Env} {k : Nat}
  {s : Shared} {c : Command} {v : Value}

theorem zero (globals : Env) : Adequate globals 0 :=
  fun _ _ _ _ _ _ _ => ⟨_, .refl, Nat.le_refl _⟩

/-- A command that schedules its plan leads where the plan leads. -/
theorem of_plan (planned : c.isPlanned = true)
    (plan : ∀ (K : List Item) (S : List Value) (env : Env) (k : Nat) (s : Shared),
      c.returnsClear = true → Tame (of (c.plan env S.length ++ K) S env k, s) →
      Carries globals K S env depth ([·]) (of (c.plan env S.length ++ K) S env k, s)
        (c.evaluate (depth + 1) env s)) :
    c.Leads globals (depth + 1) := by
  intro K S env k s tame
  have step : Step .plain globals (of (.command c :: K) S env k, s) _ :=
    Step.of_move (.plan planned)
  exact .step step (plan K S env (k + 1) s tame.root (tame.step step))

section Nodes

variable (adequate : Adequate globals depth)

include adequate

/-- An operand on top of the items that wait for it. -/
theorem operand_le {β : Type} {put : β → List Value}
    {next : Value → Shared → Evaluation β} {m : Nat}
    (tame : Tame (of (.command c :: (M ++ K)) (P ++ S) env k, s))
    (waits : ∀ item ∈ M, item.isMark = false ∧ item.isCatch = false)
    (clear : P = [] ∨ c.escapes = false) (few : m ≤ depth)
    (later : ∀ v k s, Tame (of (M ++ K) (v :: (P ++ S)) env k, s) →
      Carries globals K S env m put (of (M ++ K) (v :: (P ++ S)) env k, s) (next v s)) :
    Carries globals K S env m put (of (.command c :: (M ++ K)) (P ++ S) env k, s)
      ((c.evaluate depth env s).andThen next) := by
  have first := (adequate c (M ++ K) (P ++ S) env k s tame).weaken few
  refine first.andThen waits ?_ fun v k s _ reach => ?_
  · exact clear.imp_right (Command.noReturn_evaluate depth env c s)
  · exact later v k s (tame.reach reach)

@[inherit_doc operand_le]
theorem operand {β : Type} {put : β → List Value} {next : Value → Shared → Evaluation β}
    (tame : Tame (of (.command c :: (M ++ K)) (P ++ S) env k, s))
    (waits : ∀ item ∈ M, item.isMark = false ∧ item.isCatch = false)
    (clear : P = [] ∨ c.escapes = false)
    (later : ∀ v k s, Tame (of (M ++ K) (v :: (P ++ S)) env k, s) →
      Carries globals K S env depth put (of (M ++ K) (v :: (P ++ S)) env k, s) (next v s)) :
    Carries globals K S env depth put (of (.command c :: (M ++ K)) (P ++ S) env k, s)
      ((c.evaluate depth env s).andThen next) :=
  adequate.operand_le tame waits clear (Nat.le_refl _) later

/-! ### Operators -/

theorem unary (op : UnaryOp) (a : Command) : (Command.unary op a).Leads globals (depth + 1) := by
  refine of_plan rfl fun K S env k s _ tame => ?_
  refine adequate.operand (M := [.instruction (.unary op)]) (P := []) tame ?_ (.inl rfl) ?_
  · simp [Item.isMark, Item.isCatch]
  · intro v k s tame
    cases applied : op.apply v with
    | ok w => exact .give (Step.of_move (.unary applied))
    | error e => exact .fail (.unary applied)

theorem binary (op : BinaryOp) (a b : Command) :
    (Command.binary op a b).Leads globals (depth + 1) := by
  refine of_plan rfl fun K S env k s clear tame => ?_
  have noReturn : b.escapes = false := by simpa [Command.returnsClear] using clear
  refine adequate.operand (M := [.command b, .instruction (.binary op)]) (P := []) tame
    ?_ (.inl rfl) ?_
  · simp [Item.isMark, Item.isCatch]
  intro v k s tame
  refine adequate.operand (M := [.instruction (.binary op)]) (P := [v]) tame ?_ (.inr noReturn) ?_
  · simp [Item.isMark, Item.isCatch]
  intro w k s tame
  cases applied : op.apply s.store v w with
  | ok x => exact .give (Step.of_move (.binary applied))
  | error e => exact .fail (.binary applied)

/-! ### Conditions -/

omit adequate in
/-- A condition on top of the two commands it decides between. -/
theorem choose {cons alt : Command} {yes no : Shared → Evaluation Value}
    (tame : Tame (of (.instruction (.branch cons (some alt)) :: K) (v :: S) env k, s))
    (onYes : ∀ k, Tame (of (.command cons :: K) S env k, s) →
      Carries globals K S env depth ([·]) (of (.command cons :: K) S env k, s) (yes s))
    (onNo : ∀ k, Tame (of (.command alt :: K) S env k, s) →
      Carries globals K S env depth ([·]) (of (.command alt :: K) S env k, s) (no s)) :
    Carries globals K S env depth ([·])
      (of (.instruction (.branch cons (some alt)) :: K) (v :: S) env k, s)
      (Evaluation.choose .condition v s yes no) := by
  cases v
  case bool b =>
    cases b with
    | true => exact .after tame (Step.of_move .branchTrue) (onYes (k + 1))
    | false => exact .after tame (Step.of_move .branchFalse) (onNo (k + 1))
  all_goals exact .fail (.condition rfl)

theorem conditional (a b c : Command) : (Command.conditional a b c).Leads globals (depth + 1) := by
  refine of_plan rfl fun K S env k s _ tame => ?_
  refine adequate.operand (M := [.instruction (.branch b (some c))]) (P := []) tame ?_ (.inl rfl) ?_
  · simp [Item.isMark, Item.isCatch]
  · intro v k s tame
    exact choose tame (fun k tame => adequate b K S env k s tame) fun k tame =>
      adequate c K S env k s tame

theorem logical (op : LogicalOp) (a b : Command) :
    (Command.logical op a b).Leads globals (depth + 1) := by
  cases op with
  | and =>
    refine of_plan rfl fun K S env k s _ tame => ?_
    refine .after tame (Step.of_move (.plan rfl)) fun tame => ?_
    refine adequate.operand (M := [.instruction (.branch b (some (.lit (.bool false))))])
      (P := []) tame ?_ (.inl rfl) ?_
    · simp [Item.isMark, Item.isCatch]
    · intro v k s tame
      exact choose tame (fun k tame => adequate b K S env k s tame) fun k tame =>
        .give (Step.of_move .lit)
  | or =>
    refine of_plan rfl fun K S env k s _ tame => ?_
    refine .after tame (Step.of_move (.plan rfl)) fun tame => ?_
    refine adequate.operand (M := [.instruction (.branch (.lit (.bool true)) (some b))])
      (P := []) tame ?_ (.inl rfl) ?_
    · simp [Item.isMark, Item.isCatch]
    · intro v k s tame
      exact choose tame (fun k tame => .give (Step.of_move .lit)) fun k tame =>
        adequate b K S env k s tame

theorem branch (a b : Command) (alt : Option Command) :
    (Command.branch a b alt).Leads globals (depth + 1) := by
  refine of_plan rfl fun K S env k s _ tame => ?_
  refine adequate.operand (M := [.instruction (.branch b alt)]) (P := []) tame ?_ (.inl rfl) ?_
  · simp [Item.isMark, Item.isCatch]
  intro v k s tame
  cases alt with
  | some c =>
    exact choose tame (fun k tame => adequate b K S env k s tame) fun k tame =>
      adequate c K S env k s tame
  | none =>
    cases v
    case bool value =>
      cases value with
      | true => exact .after tame (Step.of_move .branchTrue) fun tame => adequate b K S env _ s tame
      | false => exact .give (Step.of_move .branchNone)
    all_goals exact .fail (.condition rfl)

/-- A loop leads where its rounds lead. -/
theorem rounds {form : LoopForm} {pred body : Command} {rounds : Nat} (few : rounds ≤ depth)
    (tame : Tame
      (of (.command pred :: .instruction (.loop form pred body) :: .command .undefined :: K) S
      env k, s)) :
    Carries globals K S env rounds ([·])
      (of (.command pred :: .instruction (.loop form pred body) :: .command .undefined ::
        K) S env k, s)
      (Evaluation.iterate (pred.evaluate depth env) (body.evaluate depth env) rounds s) := by
  induction rounds generalizing k s with
  | zero => exact ⟨_, .refl, Nat.le_refl _⟩
  | succ rounds ih =>
    refine adequate.operand_le
      (M := [.instruction (.loop form pred body), .command .undefined]) (P := [])
      tame ?_ (.inl rfl) few ?_
    · simp [Item.isMark, Item.isCatch]
    intro v k s tame
    cases v
    case bool value =>
      cases value with
      | true =>
        have again :
          Step .plain globals _ (of (.command body :: .instruction .pop :: .command pred ::
          .instruction (.loop form pred body) :: .command .undefined :: K) S env (k + 1), s) :=
          Step.of_move .loopAgain
        refine .step again ?_
        refine adequate.operand_le (M := [.instruction .pop, .command pred,
          .instruction (.loop form pred body), .command .undefined]) (P := []) (tame.step again) ?_
          (.inl rfl) (Nat.le_of_succ_le few) ?_
        · simp [Item.isMark, Item.isCatch]
        · intro w k s tame
          exact .after tame (Step.of_move .pop) fun tame => ih (Nat.le_of_succ_le few) tame
      | false => exact .after tame (Step.of_move .loopDone) fun tame => .give (Step.of_move .lit)
    all_goals exact .fail (.loopCondition rfl)

theorem loop (form : LoopForm) (pred body : Command) :
    (Command.loop form pred body).Leads globals (depth + 1) :=
  of_plan rfl fun _ _ _ _ _ _ tame => adequate.rounds (Nat.le_refl _) tame

/-! ### Names -/

omit adequate in
theorem assignment {sym : String} :
    Carries globals K S env depth ([·]) (of (.instruction (.assign sym) :: K) (v :: S) env k, s)
      (Evaluation.assignTo env sym v s) := by
  unfold Evaluation.assignTo
  cases assigned : s.store.assign env sym v with
  | ok store => exact .give (Step.of_move (.assign assigned))
  | error e => exact .fail (.assign assigned)

theorem assign (sym : String) (a : Command) : (Command.assign sym a).Leads globals (depth + 1) := by
  refine of_plan rfl fun K S env k s _ tame => ?_
  refine adequate.operand (M := [.instruction (.assign sym)]) (P := []) tame ?_ (.inl rfl) ?_
  · simp [Item.isMark, Item.isCatch]
  · intro v k s tame
    exact assignment

omit adequate in
/-- A declaration gives its name the value on top of the stash, and is undefined itself. -/
theorem declaration {sym : String}
    (tame : Tame (of (.instruction (.assign sym) :: .instruction .pop :: .command .undefined :: K)
      (v :: S) env k, s)) :
    Carries globals K S env depth ([·])
      (of (.instruction (.assign sym) :: .instruction .pop :: .command .undefined :: K)
        (v :: S) env k, s)
      ((Evaluation.assignTo env sym v s).andThen fun _ s => Evaluation.give .undefined s) := by
  refine Carries.andThen (M := [.instruction .pop, .command .undefined]) (P := [])
    assignment ?_ (.inl rfl) fun w k s _ reach => ?_
  · simp [Item.isMark, Item.isCatch]
  · exact .after (tame.reach reach) (Step.of_move .pop) fun tame => .give (Step.of_move .lit)

theorem declare (form : DeclForm) (sym : String) (a : Command) :
    (Command.declare form sym a).Leads globals (depth + 1) := by
  refine of_plan rfl fun K S env k s _ tame => ?_
  refine adequate.operand
    (M := [.instruction (.assign sym), .instruction .pop, .command .undefined])
    (P := []) tame ?_ (.inl rfl) ?_
  · simp [Item.isMark, Item.isCatch]
  · intro v k s tame
    exact declaration tame

omit adequate in
theorem function (sym : String) (params : List Param) (body : Command) :
    (Command.function sym params body).Leads globals (depth + 1) := by
  refine of_plan rfl fun K S env k s _ tame => ?_
  refine .after tame (Step.of_move (.plan rfl)) fun tame => ?_
  exact .after tame (Step.of_move .lambda) fun tame => declaration tame

/-! ### Calls and arrays -/

/-- Operands put their values on the stash, the last on top. A return may leave the first
of them only. -/
theorem operands {cs : List Command} (clear : Command.escapesAny cs.tail = false)
    (tame : Tame (of (cs.map Item.command ++ K) S env k, s)) :
    Carries globals K S env depth List.reverse (of (cs.map Item.command ++ K) S env k, s)
      (Evaluation.inOrder (Command.evaluate depth env) cs s) := by
  induction cs generalizing S k s with
  | nil => exact ⟨k, .refl⟩
  | cons c cs ih =>
    have clearTail : Command.escapesAny cs.tail = false := by
      cases cs with
      | nil => rfl
      | cons d ds => exact (Bool.or_eq_false_iff.mp clear).2
    refine adequate.operand (M := cs.map Item.command) (P := []) tame ?_ (.inl rfl) ?_
    · intro item member
      obtain ⟨c, -, rfl⟩ := List.mem_map.mp member
      exact ⟨rfl, rfl⟩
    intro v k s tame
    refine Carries.andThen (M := []) (P := [v]) (ih clearTail tame) (by simp)
      (.inr (Command.noReturn_inOrder clear s)) fun vs k s _ _ => ?_
    refine ⟨k, ?_⟩
    rw [List.reverse_cons, List.append_assoc]
    exact .refl

/-- A call leads where the body of the callee leads. -/
theorem application {f : Value} {vs : List Value} {arity : Nat} (length : vs.length = arity)
    (tame : Tame (of (.instruction (.call arity) :: K) (vs.reverse ++ f :: S) env k, s)) :
    Carries globals K S env depth ([·])
      (of (.instruction (.call arity) :: K) (vs.reverse ++ f :: S) env k, s)
      (Evaluation.apply (Command.evaluate depth) f vs s) := by
  cases f
  case closure c =>
    simp only [Evaluation.apply, Evaluation.inScope]
    rcases extended : s.store.extend c.env c.params vs with e | ⟨inner, store⟩
    · exact .fail (.params length extended)
    · exact .after tame (Step.of_move (.call length extended)) fun tame =>
        (adequate c.body _ S inner (k + 1) _ tame).asCall
  case builtin b =>
    simp only [Evaluation.apply]
    have idle := Native.invoke_idle tame.solo.idle b vs
    rcases reply : Native.invoke .main s b vs with ⟨v, s'⟩ | ⟨e, s'⟩ | s'
    · exact .give (Step.of_move (.native length reply))
    · exact .fail (.native length reply)
    · rw [reply] at idle
      cases idle
  all_goals exact .fail (.callee length rfl)

theorem call (callee : Command) (args : List Command) :
    (Command.call callee args).Leads globals (depth + 1) := by
  refine of_plan rfl fun K S env k s clear tame => ?_
  have noReturn : Command.escapesAny args = false := by simpa [Command.returnsClear] using clear
  refine adequate.operand (c := callee) (K := K) (S := S)
    (M := args.map Item.command ++ [Item.instruction (.call args.length)]) (P := []) tame
    (Command.waits_operands args _ ⟨rfl, rfl⟩) (.inl rfl) ?_
  intro f k s tame
  rw [List.append_assoc] at tame ⊢
  have noReturnTail : Command.escapesAny args.tail = false := by
    cases args with
    | nil => rfl
    | cons a args => exact (Bool.or_eq_false_iff.mp noReturn).2
  refine Carries.andThen (M := [.instruction (.call args.length)]) (P := [f])
    (adequate.operands noReturnTail tame) ?_ (.inr (Command.noReturn_inOrder noReturn s))
    fun vs k s gives reach => ?_
  · simp [Item.isMark, Item.isCatch]
  · exact adequate.application (Evaluation.length_of_inOrder gives) (tame.reach reach)

theorem lengthOf (a : Command) : (Command.lengthOf a).Leads globals (depth + 1) := by
  refine of_plan rfl fun K S env k s clear tame => ?_
  have noReturn : a.escapes = false := by simpa [Command.returnsClear] using clear
  refine .after tame (Step.of_move (.plan rfl)) fun tame => ?_
  refine adequate.operand (M := [.command a, .instruction (.call 1)]) (P := []) tame
    ?_ (.inl rfl) ?_
  · simp [Item.isMark, Item.isCatch]
  intro f k s tame
  refine adequate.operand (M := [.instruction (.call 1)]) (P := [f]) tame ?_ (.inr noReturn) ?_
  · simp [Item.isMark, Item.isCatch]
  intro v k s tame
  exact adequate.application (show [v].length = 1 from rfl) tame

theorem arrayOf (elements : List Command) :
    (Command.arrayOf elements).Leads globals (depth + 1) := by
  refine of_plan rfl fun K S env k s clear tame => ?_
  have noReturn : Command.escapesAny elements.tail = false := by
    cases elements with
    | nil => rfl
    | cons c cs => simpa [Command.returnsClear] using clear
  simp only [Command.plan, List.append_assoc] at tame ⊢
  refine Carries.andThen (M := [.instruction (.makeArray elements.length)]) (P := [])
    (adequate.operands noReturn tame) ?_ (.inl rfl) fun vs k s gives reach => ?_
  · simp [Item.isMark, Item.isCatch]
  · exact .give (Step.of_move (.makeArray (Evaluation.length_of_inOrder gives)))

theorem index (a i : Command) : (Command.index a i).Leads globals (depth + 1) := by
  refine of_plan rfl fun K S env k s clear tame => ?_
  have noReturn : i.escapes = false := by simpa [Command.returnsClear] using clear
  refine adequate.operand (M := [.command i, .instruction .index]) (P := []) tame ?_ (.inl rfl) ?_
  · simp [Item.isMark, Item.isCatch]
  intro v k s tame
  refine adequate.operand (M := [.instruction .index]) (P := [v]) tame ?_ (.inr noReturn) ?_
  · simp [Item.isMark, Item.isCatch]
  intro w k s tame
  unfold Evaluation.element
  rcases accessed : Machine.access s.store v w with e | ⟨ref, n⟩
  · exact .fail (.index accessed)
  · have found : s.store.element? ref n = some _ :=
      Array.getElem?_eq_getElem (Machine.lt_of_access accessed)
    simp only [found, Option.getD_some]
    exact .give (Step.of_move (.index accessed found))

theorem indexAssign (a i e : Command) : (Command.indexAssign a i e).Leads globals (depth + 1) := by
  refine of_plan rfl fun K S env k s clear tame => ?_
  have noReturn : i.escapes = false ∧ e.escapes = false := by
    simpa [Command.returnsClear] using clear
  refine adequate.operand (M := [.command i, .command e, .instruction .indexAssign])
    (P := []) tame ?_
    (.inl rfl) ?_
  · simp [Item.isMark, Item.isCatch]
  intro v k s tame
  refine adequate.operand (M := [.command e, .instruction .indexAssign]) (P := [v]) tame ?_
    (.inr noReturn.1) ?_
  · simp [Item.isMark, Item.isCatch]
  intro w k s tame
  refine adequate.operand (M := [.instruction .indexAssign]) (P := [w, v]) tame ?_
    (.inr noReturn.2) ?_
  · simp [Item.isMark, Item.isCatch]
  intro x k s tame
  unfold Evaluation.setElement
  rcases accessed : Machine.access s.store v w with e | ⟨ref, n⟩
  · exact .fail (.indexAssign accessed)
  · exact .give (Step.of_move (.indexAssign accessed (Machine.lt_of_access accessed)))

/-! ### Sequences and scopes -/

theorem statements {stmts : List Command}
    (tame : Tame (of (Command.sequencePlan stmts ++ K) S env k, s)) :
    Carries globals K S env depth ([·]) (of (Command.sequencePlan stmts ++ K) S env k, s)
      (Evaluation.lastOf (Command.evaluate depth env) stmts s) := by
  induction stmts generalizing k s with
  | nil => exact .give (Step.of_move .lit)
  | cons stmt stmts ih =>
    cases stmts with
    | nil => exact adequate stmt K S env k s tame
    | cons next stmts =>
      refine adequate.operand
        (M := .instruction .pop :: Command.sequencePlan (next :: stmts)) (P := [])
        tame (List.forall_mem_cons.mpr ⟨⟨rfl, rfl⟩, Command.waits_sequencePlan _⟩) (.inl rfl) ?_
      intro v k s tame
      exact .after tame (Step.of_move .pop) ih

theorem seq (stmts : List Command) : (Command.seq stmts).Leads globals (depth + 1) :=
  of_plan rfl fun _ _ _ _ _ _ tame => adequate.statements tame

theorem block (body : Command) : (Command.block body).Leads globals (depth + 1) := by
  intro K S env k s tame
  show Carries _ _ _ _ _ _ _ (Evaluation.inScope _ _ _ _ _)
  unfold Evaluation.inScope
  rcases extended : s.store.extend env body.locals (body.locals.map fun _ => .unassigned) with
    e | ⟨inner, store⟩
  · simp [Store.extend] at extended
  · have step : Step .plain globals (of (.command (.block body) :: K) S env k, s) _ :=
      Step.of_move (.block extended)
    exact .step step (adequate body _ S inner (k + 1) _ (tame.step step)).restored

/-! ### Returns and throws -/

omit adequate in
/-- A return leads below the nearest mark. -/
theorem returning :
    Carries globals K S env depth ([·]) (of (.instruction .reset :: K) (v :: S) env k, s)
      (some (.returned v, s)) := by
  induction K generalizing k with
  | nil => exact ⟨env, k + 1, .single (Step.of_move .resetEmpty)⟩
  | cons item K ih =>
    cases marked : item.isMark with
    | false =>
      obtain ⟨e, k', reach⟩ := ih (k := k + 1)
      rw [← afterMark_cons marked] at reach
      exact ⟨e, k', .head (Step.of_move (.resetDiscard marked)) reach⟩
    | true =>
      obtain rfl := Item.eq_mark_of_isMark marked
      exact ⟨env, k + 1, .single (Step.of_move .resetMark)⟩

theorem ret (a : Command) : (Command.ret a).Leads globals (depth + 1) := by
  refine of_plan rfl fun K S env k s _ tame => ?_
  refine adequate.operand (M := [.instruction .reset]) (P := []) tame ?_ (.inl rfl) ?_
  · simp [Item.isMark, Item.isCatch]
  · intro v k s tame
    exact returning

theorem throw (a : Command) : (Command.throw a).Leads globals (depth + 1) := by
  refine of_plan rfl fun K S env k s _ tame => ?_
  refine adequate.operand (M := [.instruction .throw]) (P := []) tame ?_ (.inl rfl) ?_
  · simp [Item.isMark, Item.isCatch]
  · intro v k s tame
    exact ⟨[], env, k, .refl⟩

theorem attempt (body : Command) (sym : String) (handler : Command) :
    (Command.attempt body sym handler).Leads globals (depth + 1) := by
  refine of_plan rfl fun K S env k s _ tame => ?_
  refine Carries.orHandle (adequate body _ S env k s tame) fun v T e k s reach => ?_
  unfold Evaluation.inScope
  rcases extended : s.store.extend env [sym] [v] with e | ⟨inner, store⟩
  · simp [Store.extend] at extended
  -- The catch cuts the stash to the height that it had before the body.
  have cut : (T ++ S).drop ((T ++ S).length - S.length) = S := by simp
  refine .after (tame.reach reach) (Step.of_move (.caught extended)) fun tame => ?_
  rw [cut] at tame ⊢
  exact (adequate handler _ S inner (k + 1) _ tame).restored

/-! ### All commands -/

/-- What holds to a depth holds to the next. -/
theorem succ : Adequate globals (depth + 1) := by
  intro c
  cases c with
  | lit l => exact fun K S env k s tame => .give (Step.of_move .lit)
  | lambda params body => exact fun K S env k s tame => .give (Step.of_move .lambda)
  | name sym =>
    intro K S env k s tame
    show Carries _ _ _ _ _ _ _ (Evaluation.ofExcept _ _)
    cases found : s.store.lookup env sym with
    | ok v => exact .give (Step.of_move (.name found))
    | error e => exact .fail (.name found)
  | unrecognized => exact fun K S env k s tame => .fail .unrecognized
  | go callee args =>
    intro K S env k s tame
    have starts := Command.root_of_everywhere (tame.solo.machine.items _ List.mem_cons_self)
    cases starts
  | unary op a => exact adequate.unary op a
  | binary op a b => exact adequate.binary op a b
  | function sym params body => exact function sym params body
  | logical op a b => exact adequate.logical op a b
  | conditional a b c => exact adequate.conditional a b c
  | call callee args => exact adequate.call callee args
  | assign sym a => exact adequate.assign sym a
  | arrayOf elements => exact adequate.arrayOf elements
  | lengthOf a => exact adequate.lengthOf a
  | index a i => exact adequate.index a i
  | indexAssign a i e => exact adequate.indexAssign a i e
  | seq stmts => exact adequate.seq stmts
  | branch a b alt => exact adequate.branch a b alt
  | block body => exact adequate.block body
  | declare form sym a => exact adequate.declare form sym a
  | ret a => exact adequate.ret a
  | loop form pred body => exact adequate.loop form pred body
  | attempt body sym handler => exact adequate.attempt body sym handler
  | throw a => exact adequate.throw a

end Nodes

end Adequate

/-- The evaluator says where every command leads. -/
theorem adequate (globals : Env) (depth : Nat) : Adequate globals depth := by
  induction depth with
  | zero => exact Adequate.zero globals
  | succ depth ih => exact ih.succ

/-! ## Programs -/

namespace Program

variable {p : Program} {depth : Nat} {result : Except Fault Value} {s : Shared}

theorem tame (goFree : p.body.GoFree) (retSafe : p.body.RetSafe) : Tame (p.machine, p.shared) :=
  ⟨solo goFree, holds_start retSafe, p.holds_globals⟩

/-- The body of a program leads where the evaluator says, with nothing below it. -/
theorem carries (goFree : p.body.GoFree) (retSafe : p.body.RetSafe) (depth : Nat) :
    Carries p.globals.1 [] [] p.globals.1 depth ([·]) (p.machine, p.shared)
      (p.body.evaluate depth p.globals.1 p.shared) :=
  adequate p.globals.1 depth p.body [] [] p.globals.1 0 p.shared (tame goFree retSafe)

/-- What a program evaluates to, its machine finishes with. -/
theorem finishes_of_evaluate (goFree : p.body.GoFree) (retSafe : p.body.RetSafe)
    (evaluates : p.evaluate depth = some (result, s)) :
    ∃ b, Finishes .plain p.globals.1 (p.machine, p.shared) result b ∧ b.2 = s := by
  have carries := carries goFree retSafe depth
  obtain ⟨⟨completion, s⟩, completes, eq⟩ := Option.map_eq_some_iff.mp evaluates
  rw [completes] at carries
  cases eq
  cases completion with
  | value v =>
    obtain ⟨k, reach⟩ := carries
    obtain ⟨m, -, finishes⟩ := Finishes.of_halts reach .done
    exact ⟨(m, s), finishes, rfl⟩
  | returned v =>
    obtain ⟨e, k, reach⟩ := carries
    obtain ⟨m, -, finishes⟩ := Finishes.of_halts reach .done
    exact ⟨(m, s), finishes, rfl⟩
  | thrown v =>
    obtain ⟨T, e, k, reach⟩ := carries
    obtain ⟨m, -, finishes⟩ := Finishes.of_halts reach .uncaught
    exact ⟨(m, s), finishes, rfl⟩
  | failed e => exact carries

/-- A program that finishes evaluates to the same, to a depth of one more than the
steps it takes. -/
theorem evaluate_of_finishes {b : Machine × Shared} (goFree : p.body.GoFree)
    (retSafe : p.body.RetSafe)
    (finishes : Finishes .plain p.globals.1 (p.machine, p.shared) result b) :
    p.evaluate (b.1.steps + 1) = some (result, b.2) := by
  cases evaluates : p.evaluate (b.1.steps + 1) with
  | some answer =>
    obtain ⟨c, finishes', same⟩ := finishes_of_evaluate goFree retSafe evaluates
    obtain ⟨rfl, rfl⟩ := finishes.deterministic finishes'
    rw [same]
  | none =>
    -- A run longer than the one that finishes.
    have carries := carries goFree retSafe (b.1.steps + 1)
    rw [Option.map_eq_none_iff.mp evaluates] at carries
    obtain ⟨c, reach, long⟩ := carries
    have alone := (tame goFree retSafe).solo.reach reach
    have bound := (finishes.of_reach reach).steps_le alone
    omega

end Program

/-- A program without goroutines, in which no return stands in an operand position, runs as it is
evaluated. A run that is given enough actions gives a report, whatever its limits are. If no limit
has put an end to the run, the program evaluates to the result that is reported, with the same store
and the same printed lines. And whatever a program evaluates to is reported, with store and printed
lines, by all runs with large enough limits. -/
theorem run_agrees_with_evaluate (p : Program) (goFree : p.body.GoFree) (retSafe : p.body.RetSafe) :
    (∀ (limits : Limits) (traced : Bool), ∃ enough, ∀ fuel, enough ≤ fuel →
      ∃ report, p.run limits traced fuel = some report) ∧
    (∀ (limits : Limits) (traced : Bool) (fuel : Nat) (report : Report),
      p.run limits traced fuel = some report → report.Uncut →
      ∃ depth s, p.evaluate depth = some (report.result, s) ∧ s.store = report.store ∧
        s.output = report.output) ∧
    ∀ (depth : Nat) (result : Except Fault Value) (s : Shared),
      p.evaluate depth = some (result, s) →
      ∃ bound : Limits, ∀ limits, bound ≤ limits → ∀ traced, ∃ enough, ∀ fuel, enough ≤ fuel →
        ∃ report, p.run limits traced fuel = some report ∧ report.result = result ∧
          report.store = s.store ∧ report.output = s.output := by
  rw [Program.run_eq_runUnder]
  refine ⟨fun limits traced => ?_, fun limits traced fuel report ran uncut => ?_,
    fun depth result s evaluates => ?_⟩
  · obtain ⟨result, m, s, ends⟩ := (Program.solo goFree).ends
    obtain ⟨enough, runs⟩ := Program.runUnder_of_ends traced ends
    refine ⟨enough, fun fuel more => ?_⟩
    obtain ⟨report, ran, -⟩ := runs fuel more
    exact ⟨report, ran⟩
  · obtain ⟨result, b, finishes, shows⟩ := Program.finishes_of_runUnder goFree ran uncut
    obtain ⟨c, plain, same⟩ := Program.finishes_under goFree finishes .plain
    have evaluates := Program.evaluate_of_finishes goFree retSafe plain
    rw [same] at evaluates
    rw [shows.result]
    exact ⟨_, b.2, evaluates, shows.store.symm, shows.output.symm⟩
  · obtain ⟨b, plain, rfl⟩ := Program.finishes_of_evaluate goFree retSafe evaluates
    obtain ⟨c, finishes, same⟩ := Program.finishes_under goFree plain .economical
    obtain ⟨bound, runs⟩ := Program.runUnder_of_finishes finishes
    refine ⟨bound, fun limits large traced => ?_⟩
    obtain ⟨enough, runs⟩ := runs limits large traced
    refine ⟨enough, fun fuel more => ?_⟩
    obtain ⟨report, ran, shows⟩ := runs fuel more
    rw [same] at shows
    exact ⟨report, ran, shows.result, shows.store, shows.output⟩

/-- A function that is called in a sum and returns out of a loop what a call of itself throws. -/
def caughtReturn : Program :=
  ⟨.seq [.function "f" [⟨"b", none⟩]
      (.block (.loop .whileForm (.lit (.bool true))
        (.branch (.name "b")
          (.attempt (.callNamed "f" [.lit (.bool false)]) "e" (.ret (.name "e")))
          (some (.throw (.lit (.int 2))))))),
    .binary .add (.lit (.int 1)) (.callNamed "f" [.lit (.bool true)])]⟩

theorem run_agrees_with_evaluate_caughtReturn :
    ∃ bound : Limits, ∀ limits, bound ≤ limits → ∃ enough, ∀ fuel, enough ≤ fuel →
      ∃ report, caughtReturn.run limits false fuel = some report ∧
        report.result = .ok (.int 3) := by
  have evaluates : ∃ s, caughtReturn.evaluate 20 = some (.ok (.int 3), s) := ⟨_, rfl⟩
  obtain ⟨s, evaluates⟩ := evaluates
  obtain ⟨bound, runs⟩ :=
    (run_agrees_with_evaluate caughtReturn (by decide) (by decide)).2.2 20 _ s evaluates
  refine ⟨bound, fun limits large => ?_⟩
  obtain ⟨enough, runs⟩ := runs limits large false
  refine ⟨enough, fun fuel more => ?_⟩
  obtain ⟨report, ran, same, -⟩ := runs fuel more
  exact ⟨report, ran, same⟩

end ControlStash
