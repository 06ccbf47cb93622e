import ControlStash.Proofs.Footing
import ControlStash.Proofs.Protocol

/-!
# The environment of pending items

An item of the control stack is come to in the environment that is current then. Restores say which
one it will be: `flowEnv` goes through the items above a place and takes the environment of the last
restore. Calls and blocks leave restores out, calls in return position discard some, and so do
returns and throws. This module shows that all the same no item that makes use of the environment is
come to in another one than `flowEnv` says.

* `Lined` is the condition on a part `L` of a control stack above a base `B`. Whatever is done in
  order, `B` is come to in an environment of which `home` holds; every catch in `L` goes back to the
  environment in which it would be come to; and below every mark lies a restore, or nothing.
* `Flows` is the form of it that holds in every state. A return or a throw under way has discarded
  restores, so the current environment says nothing then.
* `Move.flows` is the step lemma: a move keeps `L` lined, or it leaves it for the base (`Leaves`).
* `Spaced` is needed for one case. A call in return position puts a body on the mark that was there
  already, and in no other way can a command come to stand where an equal one stood before.
-/

namespace ControlStash

open Machine (of)

namespace Item

/-- Whether an item has no use for the environment in which it is come to. -/
def ignoresEnv : Item → Bool
  | .instruction (.restore _) => true
  | .instruction .mark => true
  | .instruction .reset => true
  | .instruction .throw => true
  | _ => false

/-- Whether an item is a return or a throw under way. -/
def isUnwinding : Item → Bool
  | .instruction .reset => true
  | .instruction .throw => true
  | _ => false

/-- An item that passes the environment on in which it is come to, and is no mark. A catch has to
go back to this environment. -/
def Neutral (e : Env) : Item → Prop
  | .instruction (.restore _) => False
  | .instruction .mark => False
  | .instruction (.catch _ _ e' _) => e' = e
  | _ => True

end Item

/-- The environment after some items, if they are done in order. -/
def flowEnv (e : Env) : List Item → Env
  | [] => e
  | .instruction (.restore e') :: L => flowEnv e' L
  | _ :: L => flowEnv e L

/-- Items above a base that lead to it in an environment of which `home` holds. -/
def Lined (B : List Item) (home : Env → Prop) : Env → List Item → Prop
  | e, [] => home e
  | _, .instruction (.restore e') :: L => Lined B home e' L
  | e, .instruction .mark :: L => Settled (L ++ B) = true ∧ Lined B home e L
  | e, .instruction (.catch _ _ e' _) :: L => e' = e ∧ Lined B home e L
  | e, _ :: L => Lined B home e L

/-- Items above a base that are lined, also while a return or a throw is under way. -/
def Flows (B : List Item) (home : Env → Prop) (e : Env) : List Item → Prop
  | .instruction .reset :: L => ∃ e', Lined B home e' L
  | .instruction .throw :: L => ∃ e', Lined B home e' L
  | L => Lined B home e L

section Lined

variable {B : List Item} {home : Env → Prop} {e e' : Env} {L : List Item}

theorem Lined.flows (lined : Lined B home e L) : Flows B home e L := by
  unfold Flows
  split
  · exact ⟨e, lined⟩
  · exact ⟨e, lined⟩
  · exact lined

theorem Flows.lined {item : Item} (flows : Flows B home e (item :: L))
    (ordered : item.isUnwinding = false) : Lined B home e (item :: L) := by
  unfold Flows at flows
  split at flows
  · next same => cases same; cases ordered
  · next same => cases same; cases ordered
  · exact flows

theorem lined_cons_iff {item : Item} (neutral : item.Neutral e) :
    Lined B home e (item :: L) ↔ Lined B home e L := by
  cases item with
  | command c => rfl
  | instruction i =>
    cases i
    case restore => cases neutral
    case mark => cases neutral
    case «catch» sym handler env height =>
      have same : env = e := neutral
      simp [Lined, same]
    all_goals rfl

theorem lined_append_iff {M : List Item} (neutral : ∀ item ∈ M, item.Neutral e) :
    Lined B home e (M ++ L) ↔ Lined B home e L := by
  induction M with
  | nil => rfl
  | cons item M ih =>
    rw [List.forall_mem_cons] at neutral
    rw [List.cons_append, lined_cons_iff neutral.1, ih neutral.2]

/-- Whatever an item is, the items below it are lined in some environment. -/
theorem Lined.exists_tail {item : Item} (lined : Lined B home e (item :: L)) :
    ∃ e', Lined B home e' L := by
  unfold Lined at lined
  split at lined
  case h_1 same => cases same
  case h_2 e' _ same => cases same; exact ⟨e', lined⟩
  case h_3 same => cases same; exact ⟨_, lined.2⟩
  case h_4 same => cases same; exact ⟨_, lined.2⟩
  case h_5 same => cases same; exact ⟨_, lined⟩

theorem Lined.exists_of_append {M : List Item} (lined : Lined B home e (M ++ L)) :
    ∃ e', Lined B home e' L := by
  induction M generalizing e with
  | nil => exact ⟨e, lined⟩
  | cons item M ih =>
    obtain ⟨e', rest⟩ := Lined.exists_tail lined
    exact ih rest

theorem Flows.exists_of_append {M : List Item} {item : Item} (ordered : item.isUnwinding = false)
    (flows : Flows B home e (M ++ item :: L)) : ∃ e', Lined B home e' (item :: L) := by
  rcases M with _ | ⟨first, M⟩
  · exact ⟨e, Flows.lined flows ordered⟩
  · unfold Flows at flows
    split at flows
    · next same =>
      obtain ⟨-, rfl⟩ := List.cons.inj same
      exact flows.elim fun _ lined => lined.exists_of_append
    · next same =>
      obtain ⟨-, rfl⟩ := List.cons.inj same
      exact flows.elim fun _ lined => lined.exists_of_append
    · exact Lined.exists_of_append flows

/-- Where the environment does not matter, items that are lined in one environment are lined in
every other. -/
theorem Lined.of_settled (free : Settled B = true → ∀ e, home e) (settled : Settled (L ++ B) = true)
    (lined : Lined B home e L) : Lined B home e' L := by
  rcases L with _ | ⟨item, L⟩
  · exact free settled e'
  · have restores : item.isRestore = true := settled
    unfold Item.isRestore at restores
    split at restores
    · exact lined
    · cases restores

/-- What is lined down to the end is lined down to every place in between, and the environment there
is the one that the items say. -/
theorem Lined.split {K : List Item} (lined : Lined B home e (L ++ K)) :
    Lined (K ++ B) (· = flowEnv e L) e L := by
  fun_induction flowEnv e L with
  | case1 e => rfl
  | case2 e e' L ih => exact ih lined
  | case3 e item L notRestore ih =>
    cases item with
    | command c => exact ih lined
    | instruction i =>
      cases i
      case restore e' => exact absurd rfl (notRestore e')
      case mark =>
        refine ⟨?_, ih lined.2⟩
        rw [← List.append_assoc]
        exact lined.1
      case «catch» => exact ⟨lined.1, ih lined.2⟩
      all_goals exact ih lined

end Lined

namespace Command

variable {env : Env}

theorem neutral_operands (cs : List Command) (last : Instruction)
    (neutral : (Item.instruction last).Neutral env) :
    ∀ item ∈ cs.map Item.command ++ [.instruction last], item.Neutral env := by
  intro item member
  rcases List.mem_append.mp member with operand | rest
  · obtain ⟨c, -, rfl⟩ := List.mem_map.mp operand
    trivial
  · rw [List.mem_singleton.mp rest]
    exact neutral

theorem neutral_sequencePlan (stmts : List Command) :
    ∀ item ∈ sequencePlan stmts, item.Neutral env := by
  fun_induction sequencePlan stmts with
  | case1 => simp [Item.Neutral]
  | case2 stmt => simp [Item.Neutral]
  | case3 stmt stmts _ ih =>
    exact List.forall_mem_cons.mpr ⟨trivial, List.forall_mem_cons.mpr ⟨trivial, ih⟩⟩

/-- The items of a plan pass on the environment in which the plan was made. -/
theorem neutral_plan (c : Command) (height : Nat) :
    ∀ item ∈ c.plan env height, item.Neutral env := by
  intro item member
  cases c
  case call callee args =>
    exact neutral_operands (callee :: args) (.call args.length) trivial item member
  case go callee args =>
    exact neutral_operands (callee :: args) (.go args.length) trivial item member
  case arrayOf elements =>
    exact neutral_operands elements (.makeArray elements.length) trivial item member
  case seq stmts => exact neutral_sequencePlan stmts item member
  all_goals revert item
  case logical op a b => cases op <;> simp [plan, Item.Neutral]
  all_goals simp [plan, Item.Neutral]

end Command

/-! ## Moves -/

/-- What a move can make of a base when the items `L` above it are all done with in another way than
in order. The last case is a call in return position whose frame reaches into the base. -/
inductive Leaves : (L B after : List Item) → Prop
  | resetMark {B} : Leaves [.instruction .reset] (.instruction .mark :: B) B
  | reset {b B} : b.isMark = false →
    Leaves [.instruction .reset] (b :: B) (.instruction .reset :: B)
  | throw {b B} : Leaves [.instruction .throw] (b :: B) (.instruction .throw :: B)
  | caught {sym handler e height B} :
    Leaves [.instruction .throw] (.instruction (.catch sym handler e height) :: B)
      (.command handler :: .instruction (.restore e) :: B)
  | tail {arity L D B body} : (∀ item ∈ D, item.isMark = false) →
    L = [] ∧ (∃ D', D = .instruction .reset :: D') ∨ (∃ L', L = .instruction .reset :: L') →
    Leaves (.instruction (.call arity) :: L) (D ++ .instruction .mark :: B)
      (.command body :: .instruction .mark :: B)

section Moves

variable {protocol : CallProtocol} {globals : Env} {role : Role} {m m' : Machine} {s : Shared}
  {o : Outcome} {B : List Item} {home : Env → Prop} {e : Env} {L : List Item}

/-- A block that is entered above a base. -/
theorem Lined.underBlock (free : Settled B = true → ∀ e, home e) (inner : Env)
    (lined : Lined B home e L) :
    ∃ L', Machine.underBlock .economical e (L ++ B) = L' ++ B ∧ Lined B home inner L' := by
  have restored : Lined B home inner (.instruction (.restore e) :: L) := lined
  rcases L with _ | ⟨item, L⟩
  · rcases B with _ | ⟨b, B⟩
    · exact ⟨[], rfl, free rfl inner⟩
    · exact ⟨_, rfl, restored⟩
  · exact ⟨_, rfl, restored⟩

/-- A body that is entered above a base. -/
theorem Lined.underBody (free : Settled B = true → ∀ e, home e) (inner : Env) (arity : Nat)
    (body : Command) (lined : Lined B home e L) :
    (∃ L', Machine.underBody .economical e (L ++ B) = L' ++ B ∧ Lined B home inner L') ∨
      Leaves (.instruction (.call arity) :: L) B
        (.command body :: Machine.underBody .economical e (L ++ B)) := by
  have own : Lined B home inner (.instruction .mark :: .instruction (.restore e) :: L) :=
    ⟨rfl, lined⟩
  have marked : ∀ settled : Settled (L ++ B) = true, Lined B home inner (.instruction .mark :: L) :=
    fun settled => ⟨settled, lined.of_settled free settled⟩
  generalize joined : L ++ B = K
  unfold Machine.underBody
  split
  case h_1 same => cases same
  case h_2 =>
    obtain ⟨rfl, rfl⟩ := List.append_eq_nil_iff.mp joined
    exact .inl ⟨_, rfl, marked rfl⟩
  case h_3 =>
    rw [← joined]
    exact .inl ⟨_, rfl, marked (by rw [joined]; rfl)⟩
  case h_4 items _ =>
    cases found : tailFrame? items with
    | none =>
      dsimp only
      rw [← joined]
      exact .inl ⟨_, rfl, own⟩
    | some above =>
      obtain ⟨D, K, rfl, rfl, clear⟩ := eq_append_of_tailFrame? found
      have clear : ∀ item ∈ D, item.isMark = false := fun item member => (clear item member).1
      dsimp only
      rw [List.drop_left]
      rcases L with _ | ⟨item, M⟩
      · obtain rfl : B = .instruction .reset :: D ++ .instruction .mark :: K := joined
        exact .inr (.tail (List.forall_mem_cons.mpr ⟨rfl, clear⟩) (.inl ⟨rfl, D, rfl⟩))
      · obtain ⟨rfl, rest⟩ := List.cons.inj joined
        rcases List.append_eq_append_iff.mp rest with ⟨M', rfl, rfl⟩ | ⟨M', rfl, upper⟩
        · rw [List.forall_mem_append] at clear
          exact .inr (.tail clear.2 (.inr ⟨M, rfl⟩))
        · rcases M' with _ | ⟨item, M'⟩
          · obtain rfl : .instruction .mark :: K = B := upper
            exact .inr (.tail (D := []) (by simp) (.inr ⟨_, rfl⟩))
          · obtain ⟨rfl, rfl⟩ := List.cons.inj upper
            obtain ⟨e', settled, below⟩ := Lined.exists_of_append (M := .instruction .reset :: D)
              lined
            exact .inl ⟨.instruction .mark :: M', rfl, settled, below.of_settled free settled⟩
  case h_5 =>
    rw [← joined]
    exact .inl ⟨_, rfl, own⟩

/-- A move keeps the items above a base lined, or it leaves them for the base. -/
theorem Move.flows (free : Settled B = true → ∀ e, home e) {item : Item}
    (move : Move .economical globals role m s o)
    (control : m.control.toList = item :: (L ++ B)) (flows : Flows B home m.env (item :: L))
    (goes : o.machine? = some m') :
    (∃ L', m'.control.toList = L' ++ B ∧ Flows B home m'.env L') ∨
      Leaves (item :: L) B m'.control.toList := by
  cases move
  case lit | name | lambda | unary | binary | pop | assign | native | sleep | branchNone |
      loopDone | makeArray | index | indexAssign | launch | launchNative =>
    obtain ⟨rfl, rfl⟩ := List.cons.inj control
    cases goes
    have lined := Flows.lined flows rfl
    exact .inl ⟨L, rfl, Lined.flows lined⟩
  case restore e K S env k =>
    obtain ⟨rfl, rfl⟩ := List.cons.inj control
    cases goes
    have lined := Flows.lined flows rfl
    exact .inl ⟨L, rfl, Lined.flows lined⟩
  case mark | pass =>
    obtain ⟨rfl, rfl⟩ := List.cons.inj control
    cases goes
    have lined := Flows.lined flows rfl
    exact .inl ⟨L, rfl, Lined.flows lined.2⟩
  case plan c K S env k planned =>
    obtain ⟨rfl, rfl⟩ := List.cons.inj control
    cases goes
    have lined := Flows.lined flows rfl
    refine .inl ⟨c.plan env S.length ++ L, (List.append_assoc ..).symm, Lined.flows ?_⟩
    exact (lined_append_iff (c.neutral_plan S.length)).mpr lined
  case branchTrue | branchFalse =>
    obtain ⟨rfl, rfl⟩ := List.cons.inj control
    cases goes
    have lined := Flows.lined flows rfl
    exact .inl ⟨.command _ :: L, rfl, Lined.flows lined⟩
  case loopAgain form pred body K S env k =>
    obtain ⟨rfl, rfl⟩ := List.cons.inj control
    cases goes
    have lined := Flows.lined flows rfl
    exact .inl ⟨.command body :: .instruction .pop :: .command pred ::
      .instruction (.loop form pred body) :: L, rfl, Lined.flows lined⟩
  case block body inner store K S env k extended =>
    obtain ⟨rfl, rfl⟩ := List.cons.inj control
    cases goes
    have lined : Lined B home env L := Flows.lined flows rfl
    obtain ⟨L', under, below⟩ := lined.underBlock free inner
    refine .inl ⟨.command body :: L', ?_, Lined.flows below⟩
    exact congrArg (Item.command body :: ·) under
  case call arity c args inner store K S env k length extended =>
    obtain ⟨rfl, rfl⟩ := List.cons.inj control
    cases goes
    have lined : Lined B home env L := Flows.lined flows rfl
    rcases lined.underBody free inner arity c.body with ⟨L', under, below⟩ | leaves
    · refine .inl ⟨.command c.body :: L', ?_, Lined.flows below⟩
      exact congrArg (Item.command c.body :: ·) under
    · exact .inr leaves
  case resetEmpty S env k =>
    obtain ⟨rfl, nothing⟩ := List.cons.inj control
    cases goes
    obtain ⟨rfl, rfl⟩ := List.append_eq_nil_iff.mp nothing.symm
    exact .inl ⟨[], rfl, free rfl env⟩
  case resetMark K S env k =>
    obtain ⟨rfl, below⟩ := List.cons.inj control
    cases goes
    obtain ⟨e', lined⟩ := flows
    rcases L with _ | ⟨first, L⟩
    · obtain rfl : .instruction .mark :: K = B := below
      exact .inr .resetMark
    · obtain ⟨rfl, rfl⟩ := List.cons.inj below
      obtain ⟨settled, rest⟩ := lined
      exact .inl ⟨L, rfl, (rest.of_settled free settled).flows⟩
  case resetDiscard first K S env k notMark =>
    obtain ⟨rfl, below⟩ := List.cons.inj control
    cases goes
    obtain ⟨e', lined⟩ := flows
    rcases L with _ | ⟨first', L⟩
    · obtain rfl : first :: K = B := below
      exact .inr (.reset notMark)
    · obtain ⟨rfl, rfl⟩ := List.cons.inj below
      exact .inl ⟨.instruction .reset :: L, rfl, Lined.exists_tail lined⟩
  case throwDiscard first K S env k notCatch =>
    obtain ⟨rfl, below⟩ := List.cons.inj control
    cases goes
    obtain ⟨e', lined⟩ := flows
    rcases L with _ | ⟨first', L⟩
    · obtain rfl : first :: K = B := below
      exact .inr .throw
    · obtain ⟨rfl, rfl⟩ := List.cons.inj below
      exact .inl ⟨.instruction .throw :: L, rfl, Lined.exists_tail lined⟩
  case caught sym handler e height inner store v K S env k extended =>
    obtain ⟨rfl, below⟩ := List.cons.inj control
    cases goes
    obtain ⟨e', lined⟩ := flows
    rcases L with _ | ⟨first, L⟩
    · obtain rfl : .instruction (.catch sym handler e height) :: K = B := below
      exact .inr .caught
    · obtain ⟨rfl, rfl⟩ := List.cons.inj below
      obtain ⟨rfl, rest⟩ := lined
      exact .inl ⟨.command handler :: .instruction (.restore e) :: L, rfl, rest⟩

end Moves

/-! ## Commands above marks -/

/-- Whether an item may stand on a command that stands on a mark: it comes from a sequence, a
declaration or a loop whose last part the command is, or it is under way to the mark. -/
def Item.separates : Item → Bool
  | .instruction .pop => true
  | .instruction (.loop _ _ _) => true
  | .instruction .reset => true
  | .instruction .throw => true
  | _ => false

/-- Whether a command on a mark is on top. -/
def crowded : List Item → Bool
  | .command _ :: .instruction .mark :: _ => true
  | _ => false

/-- Commands that stand on marks have nothing on top of them but items that may stand there. -/
def Spaced : List Item → Prop
  | [] => True
  | item :: K => (crowded K = true → item.separates = true) ∧ Spaced K

section Spaced

variable {K : List Item} {globals : Env} {role : Role} {m m' : Machine} {s : Shared} {o : Outcome}

@[simp]
theorem crowded_instruction (i : Instruction) : crowded (.instruction i :: K) = false := rfl

@[simp]
theorem crowded_command_command (c d : Command) : crowded (.command c :: .command d :: K) = false :=
  rfl

@[simp]
theorem crowded_command_instruction (c : Command) (i : Instruction) :
    crowded (.command c :: .instruction i :: K) = (Item.instruction i).isMark := by
  cases i <;> rfl

theorem Spaced.of_append {D : List Item} (spaced : Spaced (D ++ K)) : Spaced K := by
  induction D with
  | nil => exact spaced
  | cons item D ih => exact ih spaced.2

theorem Spaced.not_crowded {item : Item} (spaced : Spaced (item :: K))
    (joins : item.separates = false) : crowded K = false := by
  cases full : crowded K with
  | false => rfl
  | true =>
    have separates := spaced.1 full
    rw [joins] at separates
    cases separates

theorem spaced_cons {item : Item} (clear : crowded K = false) (spaced : Spaced K) :
    Spaced (item :: K) :=
  ⟨fun full => absurd full (by simp [clear]), spaced⟩

namespace Command

theorem spaced_operands (cs : List Command) (last : Instruction)
    (notMark : (Item.instruction last).isMark = false) (clear : crowded K = false)
    (spaced : Spaced K) :
    crowded (cs.map Item.command ++ .instruction last :: K) = false ∧
      Spaced (cs.map Item.command ++ .instruction last :: K) := by
  induction cs with
  | nil => exact ⟨rfl, spaced_cons clear spaced⟩
  | cons c cs ih =>
    refine ⟨?_, spaced_cons ih.1 ih.2⟩
    cases cs with
    | cons c' cs => rfl
    | nil => simpa using notMark

theorem spaced_sequencePlan (stmts : List Command) (clear : crowded K = false)
    (spaced : Spaced K) : Spaced (sequencePlan stmts ++ K) := by
  fun_induction sequencePlan stmts with
  | case1 => exact spaced_cons clear spaced
  | case2 stmt => exact spaced_cons clear spaced
  | case3 stmt stmts _ ih => exact spaced_cons rfl ⟨fun _ => rfl, ih⟩

/-- A plan that ends in a command has an item before it that may stand there. -/
theorem spaced_plan (c : Command) (env : Env) (height : Nat) (clear : crowded K = false)
    (spaced : Spaced K) : Spaced (c.plan env height ++ K) := by
  cases c
  case seq stmts => exact spaced_sequencePlan stmts clear spaced
  case call callee args =>
    have operands := spaced_operands (callee :: args) (.call args.length) rfl clear spaced
    simpa [plan, operandPlan] using operands.2
  case go callee args =>
    have operands := spaced_operands (callee :: args) (.go args.length) rfl clear spaced
    simpa [plan, operandPlan] using operands.2
  case arrayOf elements =>
    have operands := spaced_operands elements (.makeArray elements.length) rfl clear spaced
    simpa [plan] using operands.2
  case logical op a b => cases op <;> simp [plan, Spaced, clear, spaced]
  all_goals
    simp [plan, Spaced, Item.separates, Item.isMark, callNamed, undefined, clear, spaced]

end Command

/-- A body that is entered leaves the items below it spaced. -/
theorem Spaced.underBody {arity : Nat} {env : Env}
    (spaced : Spaced (.instruction (.call arity) :: K)) :
    Spaced (Machine.underBody .economical env K) := by
  have clear := spaced.not_crowded rfl
  have own : Spaced (.instruction .mark :: .instruction (.restore env) :: K) :=
    spaced_cons rfl (spaced_cons clear spaced.2)
  unfold Machine.underBody
  split
  · exact own
  · exact spaced_cons rfl trivial
  · exact spaced_cons rfl spaced.2
  · next items _ =>
    cases found : tailFrame? items with
    | none => exact own
    | some above =>
      obtain ⟨D, K, rfl, rfl, -⟩ := eq_append_of_tailFrame? found
      dsimp only
      rw [List.drop_left]
      exact spaced.2.2.of_append
  · exact own

/-- A command may be put on the items below another, since a command never stands on a command that
stands on a mark. -/
theorem Spaced.command {item : Item} (c : Command) (spaced : Spaced (item :: K))
    (joins : item.separates = false) : Spaced (.command c :: K) :=
  spaced_cons (spaced.not_crowded joins) spaced.2

/-- A move keeps the items spaced. -/
theorem Move.spaced (move : Move .economical globals role m s o)
    (spaced : Spaced m.control.toList) (goes : o.machine? = some m') :
    Spaced m'.control.toList := by
  cases move
  case plan c K S env k planned =>
    cases goes
    exact c.spaced_plan env S.length (spaced.not_crowded rfl) spaced.2
  case block body inner store K S env k extended =>
    cases goes
    have clear := spaced.not_crowded rfl
    have below : crowded (Machine.underBlock .economical env K) = false ∧
        Spaced (Machine.underBlock .economical env K) := by
      cases K with
      | nil => exact ⟨rfl, trivial⟩
      | cons item K => exact ⟨rfl, spaced_cons clear spaced.2⟩
    exact spaced_cons below.1 below.2
  case call arity c args inner store K S env k length extended =>
    cases goes
    obtain ⟨K', under⟩ := Machine.exists_underBody .economical env K
    have below : Spaced (Machine.underBody .economical env K) := spaced.underBody
    rw [under] at below
    show Spaced (.command c.body :: Machine.underBody .economical env K)
    rw [under]
    exact spaced_cons rfl below
  case branchTrue cons alt K S env k =>
    cases goes
    exact Spaced.command cons spaced rfl
  case branchFalse cons alt K S env k =>
    cases goes
    exact Spaced.command alt spaced rfl
  case loopAgain form pred body K S env k =>
    cases goes
    exact spaced_cons rfl ⟨fun _ => rfl, spaced_cons rfl ⟨fun _ => rfl, spaced.2⟩⟩
  case resetMark K S env k =>
    cases goes
    exact spaced.2.2
  case resetDiscard item K S env k notMark =>
    cases goes
    exact ⟨fun _ => rfl, spaced.2.2⟩
  case throwDiscard item K S env k notCatch =>
    cases goes
    exact ⟨fun _ => rfl, spaced.2.2⟩
  case caught sym handler e height inner store v K S env k extended =>
    cases goes
    exact spaced_cons rfl (spaced_cons (spaced.2.not_crowded rfl) spaced.2.2)
  all_goals
    cases goes
    exact spaced.2

end Spaced

/-! ## Runs -/

/-- The discipline of a run whose pending items are come to in the environments that they say. -/
def ordered : Discipline where
  store _ := True
  machine m := Flows [] (fun _ => True) m.env m.control.toList ∧ Spaced m.control.toList
  task _ := True
  fault _ := True

section Runs

variable {setting : Setting} {m m' : Machine} {s : Shared} {role : Role} {b : Item} {K : List Item}
  {E : Env} {home : Env → Prop}

theorem Flows.goes (economical : setting.protocol = .economical) {item : Item} {L B : List Item}
    (free : Settled B = true → ∀ e, home e) (control : m.control.toList = item :: (L ++ B))
    (flows : Flows B home m.env (item :: L)) (goes : m.Goes setting role s m') :
    (∃ L', m'.control.toList = L' ++ B ∧ Flows B home m'.env L') ∨
      Leaves (item :: L) B m'.control.toList := by
  obtain ⟨o, move, going⟩ := goes
  rw [economical] at move
  exact move.flows free control flows going

/-- What is left of a base whose top is no mark. -/
theorem Leaves.cases_of_not_mark {L after : List Item} (notMark : b.isMark = false)
    (leaves : Leaves L (b :: K) after) :
    after = .instruction .reset :: K ∨ after = .instruction .throw :: K ∨
    (∃ sym handler e height, b = .instruction (.catch sym handler e height) ∧
      after = .command handler :: .instruction (.restore e) :: K) ∨
    ∃ body D R, K = D ++ .instruction .mark :: R ∧
      after = .command body :: .instruction .mark :: R ∧
      (b = .instruction .reset ∨ 1 < L.length) := by
  generalize base : b :: K = B at leaves
  cases leaves
  case resetMark =>
    cases base
    cases notMark
  case reset =>
    cases base
    exact .inl rfl
  case throw =>
    cases base
    exact .inr (.inl rfl)
  case caught sym handler e height B =>
    cases base
    exact .inr (.inr (.inl ⟨sym, handler, e, height, rfl, rfl⟩))
  case tail arity L D R body clear shape =>
    rcases D with _ | ⟨first, D⟩
    · cases base
      cases notMark
    · obtain ⟨rfl, rfl⟩ := List.cons.inj base
      refine .inr (.inr (.inr ⟨body, D, R, rfl, rfl, ?_⟩))
      rcases shape with ⟨-, D', same⟩ | ⟨L', rfl⟩
      · exact .inl (List.cons.inj same).1
      · exact .inr (by simp)

/-- With nothing below there is nothing to leave for. -/
theorem not_leaves_nil {L after : List Item} : ¬ Leaves L [] after := by
  intro leaves
  generalize nothing : ([] : List Item) = B at leaves
  cases leaves
  case tail => exact absurd nothing.symm (by simp)
  all_goals cases nothing

theorem ordered_goes (economical : setting.protocol = .economical) (start : ordered.machine m)
    (goes : m.Goes setting role s m') : ordered.machine m' := by
  obtain ⟨flows, spaced⟩ := start
  obtain ⟨o, move, going⟩ := goes
  rw [economical] at move
  refine ⟨?_, move.spaced spaced going⟩
  rcases contents : m.control.toList with _ | ⟨item, L⟩
  · cases move <;> cases contents
  · rw [contents] at flows
    have control : m.control.toList = item :: (L ++ []) := by rw [contents, List.append_nil]
    rcases move.flows (fun _ _ => trivial) control flows going with ⟨L', made, flows'⟩ | leaves
    · rw [made, List.append_nil]
      exact flows'
    · exact absurd leaves not_leaves_nil

theorem kept_ordered (economical : setting.protocol = .economical) : ordered.Kept setting := by
  refine ⟨fun _ _ => trivial, fun c env _ => ?_, fun role m s machine _ => ?_⟩
  · exact ⟨⟨rfl, trivial⟩, spaced_cons rfl (spaced_cons rfl trivial)⟩
  · have step : ∀ m', (m.advance setting role s).machine? = some m' → ordered.machine m' := by
      intro m' goes
      have moves : (m.advance setting role s).isStop = false := by
        revert goes
        cases m.advance setting role s with
        | stop result m s => exact fun goes => by cases goes
        | _ => exact fun _ => rfl
      exact ordered_goes economical machine ⟨_, Machine.move_of_advance moves, goes⟩
    revert step
    cases m.advance setting role s with
    | next m s => exact fun step => ⟨step m rfl, trivial⟩
    | asleep m s => exact fun step => ⟨step m rfl, trivial⟩
    | launch task m s => exact fun step => ⟨trivial, step m rfl, trivial⟩
    | stop result m s => cases result <;> exact fun _ => ⟨trivial, trivial⟩

theorem ordered_reachable {program : Program} {limits : Limits} {w : World}
    (reachable : World.Reachable (program.setting limits) program.initial w) : ordered.World w := by
  refine (kept_ordered rfl).reachable ?_ reachable
  exact ⟨⟨trivial, spaced_cons rfl trivial⟩, trivial,
    fun _ member => absurd member (Array.not_mem_empty _),
    fun _ member => absurd member (Array.not_mem_empty _)⟩

theorem Item.not_isMark_of_heeds (heeds : b.ignoresEnv = false) : b.isMark = false := by
  cases marked : b.isMark with
  | false => rfl
  | true =>
    obtain rfl := Item.eq_mark_of_isMark marked
    cases heeds

/-- The environment matters to an item that makes use of it. -/
theorem Item.unsettled_of_heeds (heeds : b.ignoresEnv = false) :
    Settled (b :: K) = true → ∀ e, home e := by
  intro settled
  have restores : b.isRestore = true := settled
  unfold Item.isRestore at restores
  split at restores
  · cases heeds
  · cases restores

/-- The items `K` lie on the control stack, and something lies above them. -/
def Machine.Pends (K : List Item) (m : Machine) : Prop :=
  ∃ item L, m.control.toList = item :: (L ++ K)

theorem Machine.Pends.length_lt (pends : m.Pends K) : K.length < m.control.toList.length := by
  obtain ⟨item, L, control⟩ := pends
  rw [control, List.length_cons, List.length_append]
  omega

theorem Machine.Pends.ne (pends : m.Pends K) : m.control.toList ≠ K := by
  intro same
  have higher := pends.length_lt
  rw [same] at higher
  exact Nat.lt_irrefl _ higher

/-- A command on top of the items `K`, in the environment `E`, is under way: either what has come of
it is still above `K`, or it has thrown to the catch that was on top of `K`. -/
def UnderWay (K : List Item) (E : Env) (m : Machine) : Prop :=
  (∃ item L, m.control.toList = item :: (L ++ K) ∧ Flows K (· = E) m.env (item :: L)) ∨
  ∃ sym handler e height K' item L, K = .instruction (.catch sym handler e height) :: K' ∧
    m.control.toList = item :: (L ++ .instruction (.restore e) :: K') ∧
    Flows (.instruction (.restore e) :: K') (fun _ => True) m.env (item :: L)

theorem UnderWay.ne (under : UnderWay K E m) : m.control.toList ≠ K := by
  rcases under with ⟨item, L, control, -⟩ | ⟨_, _, _, _, K', item, L, rfl, control, -⟩
  · have pends : m.Pends K := ⟨item, L, control⟩
    exact pends.ne
  · intro same
    have higher := Machine.Pends.length_lt ⟨item, L, control⟩
    rw [same] at higher
    exact Nat.lt_irrefl _ higher

/-- When a command is done with, the environment is as before, if the item below makes use of it. -/
theorem UnderWay.goes (economical : setting.protocol = .economical)
    (heeds : b.ignoresEnv = false) (clear : crowded (b :: K) = false)
    (under : UnderWay (b :: K) E m) (goes : m.Goes setting role s m') :
    ((b :: K).length < m'.control.size → UnderWay (b :: K) E m') ∧
      (m'.control.toList = b :: K → m'.env = E) := by
  have notMark := Item.not_isMark_of_heeds heeds
  rw [← Stack.length_toList]
  rcases under with ⟨item, L, control, flows⟩ |
    ⟨sym, handler, e, height, K', item, L, same, control, flows⟩
  · rcases flows.goes economical (Item.unsettled_of_heeds heeds) control goes with
      ⟨L', made, flows'⟩ | leaves
    · rcases L' with _ | ⟨item', L'⟩
      · rw [made]
        exact ⟨fun higher => absurd higher (by simp), fun _ => flows'⟩
      · have pends : m'.Pends (b :: K) := ⟨item', L', made⟩
        exact ⟨fun _ => .inl ⟨item', L', made, flows'⟩, fun same => absurd same pends.ne⟩
    · rcases leaves.cases_of_not_mark notMark with made | made | caught | ⟨body, D, R, rfl, made, -⟩
      · rw [made]
        refine ⟨fun higher => absurd higher (by simp), fun same => ?_⟩
        cases same
        cases heeds
      · rw [made]
        refine ⟨fun higher => absurd higher (by simp), fun same => ?_⟩
        cases same
        cases heeds
      · obtain ⟨sym, handler, e, height, rfl, made⟩ := caught
        refine ⟨fun _ => ?_, fun same => ?_⟩
        · exact .inr ⟨sym, handler, e, height, K, .command handler, [], rfl, made, trivial⟩
        · rw [made] at same
          cases same
      · rw [made]
        refine ⟨fun higher => ?_, fun same => ?_⟩
        · simp only [List.length_append, List.length_cons] at higher
          omega
        · -- The frame has one item besides its mark, and the body would be equal to it.
          obtain ⟨rfl, below⟩ := List.cons.inj same
          have lengths := congrArg List.length below
          rcases D with _ | ⟨d, D⟩
          · cases clear
          · simp only [List.length_append, List.length_cons] at lengths
            omega
  · obtain ⟨rfl, rfl⟩ := List.cons.inj same
    rcases flows.goes economical (fun _ _ => trivial) control goes with ⟨L', made, flows'⟩ | leaves
    · rcases L' with _ | ⟨item', L'⟩
      · rw [made]
        exact ⟨fun higher => absurd higher (by simp), fun same => by cases same⟩
      · refine ⟨fun _ => .inr ⟨sym, handler, e, height, K, item', L', rfl, made, flows'⟩,
          fun same => ?_⟩
        have higher := Machine.Pends.length_lt ⟨item', L', made⟩
        rw [same] at higher
        exact absurd higher (Nat.lt_irrefl _)
    · rcases leaves.cases_of_not_mark rfl with made | made | ⟨_, _, _, _, restores, -⟩ |
        ⟨body, D, R, rfl, made, -⟩
      · rw [made]
        exact ⟨fun higher => absurd higher (by simp), fun same => by cases same⟩
      · rw [made]
        exact ⟨fun higher => absurd higher (by simp), fun same => by cases same⟩
      · cases restores
      · rw [made]
        refine ⟨fun higher => ?_, fun same => by cases same⟩
        simp only [List.length_append, List.length_cons] at higher
        omega

/-- What is done above an item that makes use of the environment leads to it in the environment that
the items above it have said. -/
theorem Flows.pends (economical : setting.protocol = .economical) {item : Item} {L : List Item}
    (heeds : b.ignoresEnv = false) (control : m.control.toList = item :: (L ++ b :: K))
    (flows : Flows (b :: K) (· = E) m.env (item :: L)) (goes : m.Goes setting role s m') :
    (m'.Pends (b :: K) → ∃ item' L', m'.control.toList = item' :: (L' ++ b :: K) ∧
      Flows (b :: K) (· = E) m'.env (item' :: L')) ∧
    (L = [] → m'.control.toList = b :: K → m'.env = E) := by
  rcases flows.goes economical (Item.unsettled_of_heeds heeds) control goes with
    ⟨L', made, flows'⟩ | leaves
  · rcases L' with _ | ⟨item', L'⟩
    · exact ⟨fun pends => absurd made pends.ne, fun _ _ => flows'⟩
    · have pends : m'.Pends (b :: K) := ⟨item', L', made⟩
      exact ⟨fun _ => ⟨item', L', made, flows'⟩, fun _ same => absurd same pends.ne⟩
  · rcases leaves.cases_of_not_mark (Item.not_isMark_of_heeds heeds) with
      made | made | caught | ⟨body, D, R, rfl, made, deep⟩
    · refine ⟨fun pends => absurd pends.length_lt (by simp [made]), fun _ same => ?_⟩
      cases made.symm.trans same
      cases heeds
    · refine ⟨fun pends => absurd pends.length_lt (by simp [made]), fun _ same => ?_⟩
      cases made.symm.trans same
      cases heeds
    · obtain ⟨sym, handler, e, height, rfl, made⟩ := caught
      refine ⟨fun ⟨first, M, above⟩ => ?_, fun _ same => ?_⟩
      · obtain ⟨-, below⟩ := List.cons.inj (above.symm.trans made)
        rcases M with _ | ⟨second, M⟩
        · cases below
        · have lengths := congrArg List.length below
          simp only [List.length_append, List.length_cons] at lengths
          omega
      · cases made.symm.trans same
    · refine ⟨fun pends => ?_, fun shallow _ => ?_⟩
      · have higher := pends.length_lt
        rw [made] at higher
        simp only [List.length_append, List.length_cons] at higher
        omega
      · rcases deep with rfl | deep
        · cases heeds
        · rw [shallow] at deep
          exact absurd deep (by simp)

end Runs

/-- The environment is restored around every command. In every world that a run comes to, and for
every context of it:

* When a command `c` is on top of the items `K` and the control stack becomes for the first time no
  higher than `K`, and is exactly `K`, then the environment is the one in which `c` was come to;
  unless `K` is empty or the item on top of it makes no use of the environment.
* Every mark lies at the bottom of the control stack or directly above a restore.
* An item that makes use of the environment and lies below others is come to in the environment
  that the restores among these say, so in no environment of a block, a call or a handler that is
  done with. -/
theorem environment_restored (program : Program) (limits : Limits) {w : World} {context : Context}
    {m : Machine} (reachable : World.Reachable (program.setting limits) program.initial w)
    (held : w.held? context = some m) :
    (∀ c K, m.control.toList = .command c :: K → ∀ w' w'' n,
      World.Stretch (program.setting limits) context (K.length < ·.control.size) w w' →
      World.Next (program.setting limits) w' w'' → w''.held? context = some n →
      n.control.toList = K →
      n.env = m.env ∨ K = [] ∨ ∃ item K', K = item :: K' ∧ item.ignoresEnv = true) ∧
    (∀ D K, m.control.toList = D ++ .instruction .mark :: K →
      K = [] ∨ ∃ e K', K = .instruction (.restore e) :: K') ∧
    ∀ first L item K, m.control.toList = first :: (L ++ item :: K) → first.isUnwinding = false →
      item.ignoresEnv = false → ∀ w' w'' n above n',
      World.Stretch (program.setting limits) context (·.Pends (item :: K)) w w' →
      w'.held? context = some n → n.control.toList = above :: item :: K →
      World.Next (program.setting limits) w' w'' → w''.held? context = some n' →
      n'.control.toList = item :: K → n'.env = flowEnv m.env (first :: L) := by
  obtain ⟨flows, spaced⟩ : ordered.machine m := (ordered_reachable reachable).held? held
  refine ⟨fun c K control w' w'' n stretch next held'' done => ?_, fun D K control => ?_, ?_⟩
  · rcases K with _ | ⟨b, K⟩
    · exact .inr (.inl rfl)
    · cases heeds : b.ignoresEnv with
      | true => exact .inr (.inr ⟨b, K, rfl, heeds⟩)
      | false =>
        left
        rw [control] at spaced
        have clear := spaced.not_crowded rfl
        have start : UnderWay (b :: K) m.env m := .inl ⟨.command c, [], control, rfl⟩
        obtain ⟨n', held', under⟩ := stretch.carries (UnderWay (b :: K) m.env) held start
          fun v n n' _ _ under goes higher => (under.goes rfl heeds clear goes).1 higher
        rcases next.held? held' held'' with rfl | goes
        · exact absurd done under.ne
        · exact (under.goes rfl heeds clear goes).2 done
  · rw [control] at flows
    obtain ⟨e, settled, -⟩ := flows.exists_of_append rfl
    rw [List.append_nil] at settled
    rcases K with _ | ⟨item, K⟩
    · exact .inl rfl
    · have restores : item.isRestore = true := settled
      unfold Item.isRestore at restores
      split at restores
      · next e => exact .inr ⟨e, K, rfl⟩
      · cases restores
  · intro first L item K control onward heeds w' w'' n above n' stretch held' last next held'' done
    rw [control] at flows
    have lined : Lined (item :: K) (· = flowEnv m.env (first :: L)) m.env (first :: L) := by
      have split := Lined.split (L := first :: L) (Flows.lined flows onward)
      rwa [List.append_nil] at split
    obtain ⟨n₁, held₁, first', L', control', flows'⟩ := stretch.carries
      (fun n => ∃ item' L', n.control.toList = item' :: (L' ++ item :: K) ∧
        Flows (item :: K) (· = flowEnv m.env (first :: L)) n.env (item' :: L'))
      held ⟨first, L, control, lined.flows⟩
      fun v n n' _ _ ⟨item', L', control, flows⟩ goes pends =>
        (flows.pends rfl heeds control goes).1 pends
    rw [held'] at held₁
    cases held₁
    obtain ⟨rfl, below⟩ := List.cons.inj (control'.symm.trans last)
    have empty : L' = [] := by
      have lengths := congrArg List.length below
      simp only [List.length_append, List.length_cons] at lengths
      exact List.eq_nil_of_length_eq_zero (by omega)
    rcases next.held? held' held'' with rfl | goes
    · cases last.symm.trans done
    · exact (flows'.pends rfl heeds control' goes).2 empty done

/-- A block that declares a name of the scope around it anew. -/
def shadowingBlock : Program :=
  ⟨.seq [.declare .letForm "x" (.lit (.int 1)), .block (.declare .letForm "x" (.lit (.int 2))),
    .name "x"]⟩

theorem environment_restored_shadowingBlock :
    ∃ m n, (shadowingBlock.initial.acts (shadowingBlock.setting {}) .main 7).held? .main = some m ∧
      (shadowingBlock.initial.acts (shadowingBlock.setting {}) .main 14).held? .main = some n ∧
      m.control.toList = [.command (.block (.declare .letForm "x" (.lit (.int 2)))),
        .instruction .pop, .command (.name "x")] ∧
      n.control.toList = [.instruction .pop, .command (.name "x")] ∧ n.env = m.env := by
  have reachable : World.Reachable (shadowingBlock.setting {}) shadowingBlock.initial
      (shadowingBlock.initial.acts (shadowingBlock.setting {}) .main 7) := by
    refine .acts .start fun j below => ?_
    interval_cases j <;> rfl
  have stretch : World.Stretch (shadowingBlock.setting {}) .main
      ([Item.instruction .pop, .command (.name "x")].length < ·.control.size)
      (shadowingBlock.initial.acts (shadowingBlock.setting {}) .main 7)
      ((shadowingBlock.initial.acts (shadowingBlock.setting {}) .main 7).acts
        (shadowingBlock.setting {}) .main 6) := by
    refine .acts fun j below => ?_
    interval_cases j <;> exact ⟨rfl, _, rfl, of_decide_eq_true rfl⟩
  have next : World.Next (shadowingBlock.setting {})
      (shadowingBlock.initial.acts (shadowingBlock.setting {}) .main 13)
      (shadowingBlock.initial.acts (shadowingBlock.setting {}) .main 14) := .act .main rfl
  have held : (shadowingBlock.initial.acts (shadowingBlock.setting {}) .main 7).held? .main =
      some (of [.command (.block (.declare .letForm "x" (.lit (.int 2)))),
        .instruction .pop, .command (.name "x")] [] ⟨[⟨1⟩, ⟨0⟩]⟩ 7) := rfl
  have held' : (shadowingBlock.initial.acts (shadowingBlock.setting {}) .main 14).held? .main =
      some (of [.instruction .pop, .command (.name "x")] [.undefined] ⟨[⟨1⟩, ⟨0⟩]⟩ 14) := rfl
  refine ⟨_, _, held, held', rfl, rfl, ?_⟩
  rcases (environment_restored shadowingBlock {} reachable held).1 _ _ rfl _ _ _ stretch next held'
    rfl with same | empty | ⟨item, K', below, ignores⟩
  · exact same
  · cases empty
  · cases below
    cases ignores

end ControlStash
