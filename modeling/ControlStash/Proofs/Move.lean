import ControlStash.Proofs.Unlimited

/-!
# The moves of a machine

`Move` lists what a step can do, rule by rule, with the condition under which each rule applies.
Control stack and stash are written as lists, top first, so that a rule shows what it takes off them
and what it leaves. The rules say the same as the step function: `Move.act_eq` and `move_of_act`
together are an equivalence between a move and a step that does not end the context. What every run
preserves is proved over the rules.

Two rules look at what lies below the top item. A block leaves its restore out at the bottom of an
economical stack, and a call puts a mark under the body in one of the three ways of `underBody`.
-/

namespace ControlStash

namespace Machine

/-- The machine with the given control stack and stash, top first. -/
def of (control : List Item) (stash : List Value) (env : Env) (steps : Nat) : Machine :=
  ⟨.ofList control, .ofList stash, env, steps⟩

@[simp]
theorem toList_control_of (K : List Item) (S : List Value) (env : Env) (k : Nat) :
    (of K S env k).control.toList = K := rfl

@[simp]
theorem toList_stash_of (K : List Item) (S : List Value) (env : Env) (k : Nat) :
    (of K S env k).stash.toList = S := rfl

@[simp]
theorem size_control_of (K : List Item) (S : List Value) (env : Env) (k : Nat) :
    (of K S env k).control.size = K.length := rfl

@[simp]
theorem size_stash_of (K : List Item) (S : List Value) (env : Env) (k : Nat) :
    (of K S env k).stash.size = S.length := rfl

@[simp]
theorem env_of (K : List Item) (S : List Value) (env : Env) (k : Nat) : (of K S env k).env = env :=
  rfl

@[simp]
theorem steps_of (K : List Item) (S : List Value) (env : Env) (k : Nat) :
    (of K S env k).steps = k := rfl

/-- Every machine is given by its two lists, its environment and its number of steps. -/
theorem eq_of (m : Machine) : m = of m.control.toList m.stash.toList m.env m.steps := by
  simp [of]

/-- What lies under the body of a block that is entered in an environment from a control stack. -/
def underBlock (protocol : CallProtocol) (env : Env) (K : List Item) : List Item :=
  match protocol, K with
  | .economical, [] => []
  | _, K => .instruction (.restore env) :: K

/-- What lies under the body of a function that is entered in an environment from
a control stack. -/
def underBody (protocol : CallProtocol) (env : Env) (K : List Item) : List Item :=
  match protocol, K with
  | .plain, K => .instruction .mark :: .instruction (.restore env) :: K
  | .economical, [] => [.instruction .mark]
  | .economical, .instruction (.restore e) :: K =>
    .instruction .mark :: .instruction (.restore e) :: K
  | .economical, .instruction .reset :: items =>
    match tailFrame? items with
    | some above => items.drop above
    | none => .instruction .mark :: .instruction (.restore env) :: .instruction .reset :: items
  | .economical, K => .instruction .mark :: .instruction (.restore env) :: K

end Machine

namespace Command

/-- Whether a command does nothing but schedule its plan. -/
def isPlanned : Command → Bool
  | .lit _ => false
  | .name _ => false
  | .lambda _ _ => false
  | .block _ => false
  | .unrecognized => false
  | _ => true

end Command

namespace Item

/-- Whether an item is the mark of a function. -/
def isMark : Item → Bool
  | .instruction .mark => true
  | _ => false

/-- Whether an item is a catch. -/
def isCatch : Item → Bool
  | .instruction (.catch _ _ _ _) => true
  | _ => false

variable {item : Item}

theorem eq_mark_of_isMark (marked : item.isMark = true) : item = .instruction .mark := by
  unfold isMark at marked
  split at marked
  · rfl
  · cases marked

theorem exists_of_isCatch (caught : item.isCatch = true) :
    ∃ sym handler env height, item = .instruction (.catch sym handler env height) := by
  unfold isCatch at caught
  split at caught
  · exact ⟨_, _, _, _, rfl⟩
  · cases caught

theorem isMark_eq_false (notMark : item ≠ .instruction .mark) : item.isMark = false :=
  Bool.eq_false_iff.mpr fun marked => notMark (eq_mark_of_isMark marked)

theorem isCatch_eq_false
    (notCatch : ∀ sym handler env height, item ≠ .instruction (.catch sym handler env height)) :
    item.isCatch = false := by
  refine Bool.eq_false_iff.mpr fun caught => ?_
  obtain ⟨sym, handler, env, height, same⟩ := exists_of_isCatch caught
  exact notCatch sym handler env height same

end Item

/-- The frame that a call in return position reuses ends in a mark, with neither mark nor
catch before it. -/
theorem eq_append_of_tailFrame? {items : List Item} {above : Nat}
    (found : tailFrame? items = some above) :
    ∃ D K, items = D ++ .instruction .mark :: K ∧ D.length = above ∧
      ∀ item ∈ D, item.isMark = false ∧ item.isCatch = false := by
  fun_induction tailFrame? items generalizing above with
  | case1 => cases found
  | case2 K =>
    cases found
    exact ⟨[], K, rfl, rfl, (by simp)⟩
  | case3 => cases found
  | case4 item items notMark notCatch ih =>
    obtain ⟨n, later, rfl⟩ := Option.map_eq_some_iff.mp found
    obtain ⟨D, K, rfl, rfl, clear⟩ := ih later
    have passed : item.isMark = false ∧ item.isCatch = false :=
      ⟨Item.isMark_eq_false notMark, Item.isCatch_eq_false notCatch⟩
    exact ⟨item :: D, K, rfl, rfl, List.forall_mem_cons.mpr ⟨passed, clear⟩⟩

namespace Outcome

/-- Whether a step ends the context. -/
def isStop : Outcome → Bool
  | .stop _ _ _ => true
  | _ => false

/-- What contexts share after a step. -/
def shared : Outcome → Shared
  | .next _ s => s
  | .asleep _ s => s
  | .launch _ _ s => s
  | .stop _ _ s => s

/-- The number of steps that a machine has taken after a step. -/
def steps : Outcome → Nat
  | .next m _ => m.steps
  | .asleep m _ => m.steps
  | .launch _ m _ => m.steps
  | .stop _ m _ => m.steps

end Outcome

open Machine (of)

/-- What a step can do that does not end the context. -/
inductive Move (protocol : CallProtocol) (globals : Env) (role : Role) :
    Machine → Shared → Outcome → Prop
  | lit {l K S env k s} :
    Move protocol globals role (of (.command (.lit l) :: K) S env k) s
      (.next (of K (.ofLiteral l :: S) env (k + 1)) s)
  | name {sym v K S env k s} : s.store.lookup env sym = .ok v →
    Move protocol globals role (of (.command (.name sym) :: K) S env k) s
      (.next (of K (v :: S) env (k + 1)) s)
  | lambda {params body K S env k s} :
    Move protocol globals role (of (.command (.lambda params body) :: K) S env k) s
      (.next (of K (.closure (s.store.newClosure params body env).1 :: S) env (k + 1))
        { s with store := (s.store.newClosure params body env).2 })
  | plan {c K S env k s} : c.isPlanned = true →
    Move protocol globals role (of (.command c :: K) S env k) s
      (.next (of (c.plan env S.length ++ K) S env (k + 1)) s)
  | block {body inner store K S env k s} :
    s.store.extend env body.locals (body.locals.map fun _ => .unassigned) = .ok (inner, store) →
    Move protocol globals role (of (.command (.block body) :: K) S env k) s
      (.next (of (.command body :: Machine.underBlock protocol env K) S inner (k + 1))
        { s with store })
  | unary {op v w K S env k s} : op.apply v = .ok w →
    Move protocol globals role (of (.instruction (.unary op) :: K) (v :: S) env k) s
      (.next (of K (w :: S) env (k + 1)) s)
  | binary {op a b v K S env k s} : op.apply s.store a b = .ok v →
    Move protocol globals role (of (.instruction (.binary op) :: K) (b :: a :: S) env k) s
      (.next (of K (v :: S) env (k + 1)) s)
  | pop {v K S env k s} :
    Move protocol globals role (of (.instruction .pop :: K) (v :: S) env k) s
      (.next (of K S env (k + 1)) s)
  | assign {sym v store K S env k s} : s.store.assign env sym v = .ok store →
    Move protocol globals role (of (.instruction (.assign sym) :: K) (v :: S) env k) s
      (.next (of K (v :: S) env (k + 1)) { s with store })
  | native {arity b args v s' K S env k s} : args.length = arity →
    Native.invoke role s b args = .value v s' →
    Move protocol globals role
      (of (.instruction (.call arity) :: K) (args.reverse ++ .builtin b :: S) env k) s
      (.next (of K (v :: S) env (k + 1)) s')
  | sleep {arity b args s' K S env k s} : args.length = arity →
    Native.invoke role s b args = .asleep s' →
    Move protocol globals role
      (of (.instruction (.call arity) :: K) (args.reverse ++ .builtin b :: S) env k) s
      (.asleep (of K (.undefined :: S) env (k + 1)) s')
  | call {arity c args inner store K S env k s} : args.length = arity →
    s.store.extend c.env c.params args = .ok (inner, store) →
    Move protocol globals role
      (of (.instruction (.call arity) :: K) (args.reverse ++ .closure c :: S) env k) s
      (.next (of (.command c.body :: Machine.underBody protocol env K) S inner (k + 1))
        { s with store })
  | branchTrue {cons alt K S env k s} :
    Move protocol globals role (of (.instruction (.branch cons alt) :: K) (.bool true :: S) env k) s
      (.next (of (.command cons :: K) S env (k + 1)) s)
  | branchFalse {cons alt K S env k s} :
    Move protocol globals role
      (of (.instruction (.branch cons (some alt)) :: K) (.bool false :: S) env k) s
      (.next (of (.command alt :: K) S env (k + 1)) s)
  | branchNone {cons K S env k s} :
    Move protocol globals role
      (of (.instruction (.branch cons none) :: K) (.bool false :: S) env k) s
      (.next (of K (.undefined :: S) env (k + 1)) s)
  | loopAgain {form pred body K S env k s} :
    Move protocol globals role
      (of (.instruction (.loop form pred body) :: K) (.bool true :: S) env k) s
      (.next (of (.command body :: .instruction .pop :: .command pred ::
        .instruction (.loop form pred body) :: K) S env (k + 1)) s)
  | loopDone {form pred body K S env k s} :
    Move protocol globals role
      (of (.instruction (.loop form pred body) :: K) (.bool false :: S) env k) s
      (.next (of K S env (k + 1)) s)
  | restore {e K S env k s} :
    Move protocol globals role (of (.instruction (.restore e) :: K) S env k) s
      (.next (of K S e (k + 1)) s)
  | makeArray {arity K S env k s} {elements : List Value} : elements.length = arity →
    Move protocol globals role
      (of (.instruction (.makeArray arity) :: K) (elements.reverse ++ S) env k) s
      (.next (of K (.array (s.store.newArray elements.toArray).1 :: S) env (k + 1))
        { s with store := (s.store.newArray elements.toArray).2 })
  | index {array position ref n v K S env k s} :
    Machine.access s.store array position = .ok (ref, n) →
    s.store.element? ref n = some v →
    Move protocol globals role (of (.instruction .index :: K) (position :: array :: S) env k) s
      (.next (of K (v :: S) env (k + 1)) s)
  | indexAssign {array position v ref n K S env k s} :
    Machine.access s.store array position = .ok (ref, n) → n < (s.store.elements ref).size →
    Move protocol globals role
      (of (.instruction .indexAssign :: K) (v :: position :: array :: S) env k) s
      (.next (of K (v :: S) env (k + 1)) { s with store := s.store.setElement ref n v })
  | mark {K S env k s} :
    Move protocol globals role (of (.instruction .mark :: K) S env k) s
      (.next (of K S env (k + 1)) s)
  | pass {sym handler e height K S env k s} :
    Move protocol globals role (of (.instruction (.catch sym handler e height) :: K) S env k) s
      (.next (of K S env (k + 1)) s)
  | resetEmpty {S env k s} :
    Move protocol globals role (of [.instruction .reset] S env k) s (.next (of [] S env (k + 1)) s)
  | resetMark {K S env k s} :
    Move protocol globals role (of (.instruction .reset :: .instruction .mark :: K) S env k) s
      (.next (of K S env (k + 1)) s)
  | resetDiscard {item K S env k s} : item.isMark = false →
    Move protocol globals role (of (.instruction .reset :: item :: K) S env k) s
      (.next (of (.instruction .reset :: K) S env (k + 1)) s)
  | throwDiscard {item K S env k s} : item.isCatch = false →
    Move protocol globals role (of (.instruction .throw :: item :: K) S env k) s
      (.next (of (.instruction .throw :: K) S env (k + 1)) s)
  | caught {sym handler e height inner store v K S env k s} :
    s.store.extend e [sym] [v] = .ok (inner, store) →
    Move protocol globals role
      (of (.instruction .throw :: .instruction (.catch sym handler e height) :: K) (v :: S) env k) s
      (.next (of (.command handler :: .instruction (.restore e) :: K)
        (S.drop (S.length - height)) inner
        (k + 1)) { s with store })
  | launch {arity c args inner store K S env k s} : args.length = arity →
    s.store.extend globals c.params args = .ok (inner, store) →
    Move protocol globals role
      (of (.instruction (.go arity) :: K) (args.reverse ++ .closure c :: S) env k) s
      (.launch (.body c.body inner) (of K (.undefined :: S) env (k + 1)) { s with store })
  | launchNative {arity b args K S env k s} : args.length = arity → args.length = b.arity →
    Move protocol globals role
      (of (.instruction (.go arity) :: K) (args.reverse ++ .builtin b :: S) env k) s
      (.launch (.builtin b args) (of K (.undefined :: S) env (k + 1)) s)

namespace Machine

section Rules

variable {protocol : CallProtocol} {globals : Env} {role : Role} {limits : Limits}
  {K : List Item} {S : List Value} {env : Env} {k : Nat} {s : Shared}

theorem act_command (c : Command) :
    (of (.command c :: K) S env k).act protocol globals role s =
      (of K S env (k + 1)).expand
        ⟨(of (.command c :: K) S env k).room, globals, protocol⟩ c s :=
  if_neg (Nat.not_succ_le_self k)

theorem act_instruction (i : Instruction) :
    (of (.instruction i :: K) S env k).act protocol globals role s =
      (of K S env (k + 1)).execute
        ⟨(of (.instruction i :: K) S env k).room, globals, protocol⟩ role i s :=
  if_neg (Nat.not_succ_le_self k)

theorem expand_of_isPlanned {setting : Setting} {c : Command} {m : Machine}
    (planned : c.isPlanned = true) :
    m.expand setting c s = m.schedule setting.limits (c.plan m.env m.stash.size) m.env s := by
  cases c
  case lit | name | lambda | block | unrecognized => cases planned
  all_goals rfl

theorem schedule_of {items : List Item} {inner : Env}
    (fits : items.length + K.length ≤ limits.depth) :
    (of K S env k).schedule limits items inner s = .next (of (items ++ K) S inner k) s := by
  simp [schedule, of, fits]

theorem blockPlan_of (body : Command) :
    (of K S env k).blockPlan protocol body ++ K = .command body :: underBlock protocol env K := by
  cases protocol <;> cases K <;> rfl

/-- On most control stacks the economical protocol does as the plain one. -/
theorem underBody_eq_plain (notEmpty : K ≠ [])
    (notRestore : ∀ e tail, K ≠ .instruction (.restore e) :: tail)
    (notReset : ∀ items, K ≠ .instruction .reset :: items) :
    underBody .economical env K = underBody .plain env K := by
  rcases K with _ | ⟨item, K⟩
  · exact absurd rfl notEmpty
  · cases item with
    | command c => rfl
    | instruction i =>
      cases i
      case restore e => exact absurd rfl (notRestore e K)
      case reset => exact absurd rfl (notReset K)
      all_goals rfl

/-- Entering a body on a control stack that may grow by three items. -/
theorem enter_of {body : Command} {inner : Env} (fits : K.length + 3 ≤ limits.depth) :
    (of K S env k).enter ⟨limits, globals, protocol⟩ body inner s =
      .next (of (.command body :: underBody protocol env K) S inner k) s := by
  unfold enter enterPlain
  dsimp only [toList_control_of]
  split
  · rw [schedule_of (by simp; omega)]
    rfl
  · rw [schedule_of (by simp; omega)]
    rfl
  · rw [schedule_of (by simp at fits ⊢; omega)]
    rfl
  · next items =>
    cases found : tailFrame? items with
    | none =>
      simp only [underBody, found]
      rw [schedule_of (by simp at fits ⊢; omega)]
      rfl
    | some above =>
      have shorter : [Item.command body].length + (items.drop above).length ≤ limits.depth := by
        simp at fits ⊢
        omega
      have cut : (Stack.ofList (Item.instruction .reset :: items)).drop (above + 1) =
          .ofList (items.drop above) := by simp
      simp only [underBody, found, of, cut]
      exact schedule_of shorter
  · next notEmpty notRestore notReset =>
    rw [schedule_of (by simp; omega), underBody_eq_plain notEmpty notRestore notReset]
    rfl

end Rules

end Machine

namespace Move

open Machine

variable {protocol : CallProtocol} {globals : Env} {role : Role} {m : Machine} {s : Shared}
  {o : Outcome}

/-- A rule is what the step function does. -/
theorem act_eq (move : Move protocol globals role m s o) : m.act protocol globals role s = o := by
  cases move
  case lit | lambda => rw [act_command]; rfl
  case name found =>
    rw [act_command]
    simp [expand, found, Machine.push, of]
  case plan c K S env k planned =>
    have fits :
      (c.plan env S.length).length + K.length ≤ (of (.command c :: K) S env k).room.depth := by
      simp [room]
      omega
    rw [act_command, expand_of_isPlanned planned]
    exact schedule_of fits
  case block body inner store K S env k extended =>
    have length : ((of K S env (k + 1)).blockPlan protocol body).length ≤ 2 := by
      unfold blockPlan
      split <;> simp
    have fits : ((of K S env (k + 1)).blockPlan protocol body).length + K.length ≤
        (of (.command (.block body) :: K) S env k).room.depth := by
      simp [room]
      omega
    rw [act_command, ← blockPlan_of body]
    simp only [expand, size_control_of, if_pos fits, env_of, extended]
    simp only [of, Stack.pushAll_ofList]
    rfl
  case unary applied =>
    rw [act_instruction]
    simp [execute, of, applied]
  case binary op a b v K S env k applied =>
    rw [act_instruction]
    simp [execute, of, applied]
  case pop | restore | mark | pass | resetEmpty | resetMark => rw [act_instruction]; rfl
  case assign assigned =>
    rw [act_instruction]
    simp [execute, of, assigned]
  case native arity b args v s' K S env k length reply =>
    have popped := Stack.popMany?_ofList args (Value.builtin b :: S)
    rw [act_instruction]
    simp [execute, Machine.call, of, ← length, popped, reply, Machine.push]
  case sleep arity b args s' K S env k length reply =>
    have popped := Stack.popMany?_ofList args (Value.builtin b :: S)
    rw [act_instruction]
    simp [execute, Machine.call, of, ← length, popped, reply, Machine.push]
  case call arity c args inner store K S env k length extended =>
    have popped := Stack.popMany?_ofList args (Value.closure c :: S)
    subst length
    have fits : K.length + 3 ≤ (of (.instruction (.call args.length) :: K)
        (args.reverse ++ .closure c :: S) env k).room.depth := by
      simp [room]
    rw [act_instruction]
    simp only [execute, Machine.call, of, popped, Stack.pop?_ofList_cons, extended]
    exact enter_of fits
  case branchTrue cons alt K S env k =>
    have fits : [Item.command cons].length + K.length ≤
        (of (.instruction (.branch cons alt) :: K) (.bool true :: S) env k).room.depth := by
      simp [room]
      omega
    rw [act_instruction]
    exact schedule_of fits
  case branchFalse cons alt K S env k =>
    have fits : [Item.command alt].length + K.length ≤
        (of (.instruction (.branch cons (some alt)) :: K) (.bool false :: S) env k).room.depth := by
      simp [room]
      omega
    rw [act_instruction]
    exact schedule_of fits
  case branchNone | loopDone => rw [act_instruction]; rfl
  case loopAgain form pred body K S env k =>
    have fits : [Item.command body, .instruction .pop, .command pred,
        .instruction (.loop form pred body)].length + K.length ≤
        (of (.instruction (.loop form pred body) :: K) (.bool true :: S) env k).room.depth := by
      simp [room]
      omega
    rw [act_instruction]
    exact schedule_of fits
  case makeArray arity K S env k elements length =>
    have popped := Stack.popMany?_ofList elements S
    rw [act_instruction]
    simp [execute, of, ← length, popped]
  case index array position ref n v K S env k accessed element =>
    rw [act_instruction]
    simp [execute, of, accessed, element]
  case indexAssign array position v ref n K S env k accessed inRange =>
    rw [act_instruction]
    simp [execute, of, accessed, inRange]
  case resetDiscard item K S env k notMark =>
    rw [act_instruction]
    cases item with
    | command c => rfl
    | instruction i => cases i <;> first | rfl | cases notMark
  case throwDiscard item K S env k notCatch =>
    have fits : [Item.instruction .throw].length + K.length ≤
        (of (.instruction .throw :: item :: K) S env k).room.depth := by
      simp [room]
      omega
    rw [act_instruction]
    cases item with
    | command c => exact schedule_of fits
    | instruction i => cases i <;> first | exact schedule_of fits | cases notCatch
  case caught sym handler e height inner store v K S env k extended =>
    have fits : [Item.command handler, .instruction (.restore e)].length + K.length ≤
        (of (.instruction .throw :: .instruction (.catch sym handler e height) :: K) (v :: S) env
          k).room.depth := by
      simp [room]
      omega
    rw [act_instruction]
    simp only [execute, Machine.throw, of, Stack.pop?_ofList_cons, Stack.size_ofList, extended]
    refine (if_pos fits).trans ?_
    simp [Stack.cutTo]
  case launch arity c args inner store K S env k length extended =>
    have popped := Stack.popMany?_ofList args (Value.closure c :: S)
    rw [act_instruction]
    simp [execute, go, of, ← length, popped, extended, Machine.push]
  case launchNative arity b args K S env k length fits =>
    have popped := Stack.popMany?_ofList args (Value.builtin b :: S)
    subst length
    rw [act_instruction]
    simp only [execute, go, of, popped, Stack.pop?_ofList_cons, if_pos fits]
    rfl

/-- A machine for which a rule applies takes the step of the rule. -/
theorem realize (move : Move protocol globals role m s o) :
    Move protocol globals role m s (m.act protocol globals role s) := by
  rw [move.act_eq]
  exact move

end Move

namespace Machine

section Complete

variable {protocol : CallProtocol} {globals : Env} {role : Role} {K : List Item} {S : List Value}
  {env : Env} {k : Nat} {s : Shared}

theorem move_of_command {c : Command}
    (goes : ((of (.command c :: K) S env k).act protocol globals role s).isStop = false) :
    Move protocol globals role (of (.command c :: K) S env k) s
      ((of (.command c :: K) S env k).act protocol globals role s) := by
  cases c
  case lit => exact Move.lit.realize
  case name sym =>
    cases found : s.store.lookup env sym with
    | ok v => exact (Move.name found).realize
    | error e =>
      rw [act_command] at goes
      simp [expand, found, fail, Outcome.isStop] at goes
  case lambda => exact Move.lambda.realize
  case block body =>
    cases extended : s.store.extend env body.locals (body.locals.map fun _ => .unassigned) with
    | ok made => exact (Move.block extended).realize
    | error e => simp [Store.extend] at extended
  case unrecognized =>
    rw [act_command] at goes
    cases goes
  all_goals exact (Move.plan rfl).realize

/-- The values that an instruction takes, and the rest of the stash. -/
theorem exists_operands {n : Nat} (enough : n ≤ S.length) :
    ∃ args rest : List Value, args.length = n ∧ S = args.reverse ++ rest := by
  refine ⟨(S.take n).reverse, S.drop n, ?_, by simp⟩
  simp only [List.length_reverse, List.length_take]
  omega

/-- The values under an instruction: too few of them, or those it takes and the rest. -/
theorem operands_of (n : Nat) (S : List Value) :
    (Stack.ofList S).popMany? n = none ∨
      ∃ args rest : List Value, args.length = n ∧ S = args.reverse ++ rest := by
  rcases Nat.lt_or_ge S.length n with few | enough
  · exact .inl (Stack.popMany?_eq_none_iff.mpr few)
  · exact .inr (exists_operands enough)

theorem move_of_instruction {i : Instruction}
    (goes : ((of (.instruction i :: K) S env k).act protocol globals role s).isStop = false) :
    Move protocol globals role (of (.instruction i :: K) S env k) s
      ((of (.instruction i :: K) S env k).act protocol globals role s) := by
  cases i
  case restore => exact Move.restore.realize
  case mark => exact Move.mark.realize
  case reset =>
    cases K with
    | nil => exact Move.resetEmpty.realize
    | cons item K =>
      cases marked : item.isMark with
      | false => exact (Move.resetDiscard marked).realize
      | true =>
        obtain rfl := Item.eq_mark_of_isMark marked
        exact Move.resetMark.realize
  case pop =>
    cases S with
    | nil => rw [act_instruction] at goes; cases goes
    | cons v S => exact Move.pop.realize
  case unary op =>
    cases S with
    | nil => rw [act_instruction] at goes; cases goes
    | cons v S =>
      cases applied : op.apply v with
      | ok w => exact (Move.unary applied).realize
      | error e =>
        rw [act_instruction] at goes
        simp [execute, of, applied, fail, Outcome.isStop] at goes
  case assign sym =>
    cases S with
    | nil => rw [act_instruction] at goes; cases goes
    | cons v S =>
      cases assigned : s.store.assign env sym v with
      | ok store => exact (Move.assign assigned).realize
      | error e =>
        rw [act_instruction] at goes
        simp [execute, of, assigned, fail, Outcome.isStop] at goes
  case branch cons alt =>
    rcases S with _ | ⟨v, S⟩
    · rw [act_instruction] at goes; cases goes
    · cases v
      case bool b =>
        cases b with
        | true => exact Move.branchTrue.realize
        | false =>
          cases alt with
          | none => exact Move.branchNone.realize
          | some alt => exact Move.branchFalse.realize
      all_goals rw [act_instruction] at goes; cases goes
  case loop form pred body =>
    rcases S with _ | ⟨v, S⟩
    · rw [act_instruction] at goes; cases goes
    · cases v
      case bool b =>
        cases b with
        | true => exact Move.loopAgain.realize
        | false => exact Move.loopDone.realize
      all_goals rw [act_instruction] at goes; cases goes
  case binary op =>
    rcases operands_of 2 S with few | ⟨args, S, length, rfl⟩
    · rw [act_instruction] at goes
      simp [execute, of, few, underflow, fail, Outcome.isStop] at goes
    · obtain ⟨a, b, rfl⟩ := List.length_eq_two.mp length
      cases applied : op.apply s.store a b with
      | ok v => exact (Move.binary applied).realize
      | error e =>
        rw [act_instruction] at goes
        simp [execute, of, applied, fail, Outcome.isStop] at goes
  case makeArray arity =>
    rcases operands_of arity S with few | ⟨args, S, length, rfl⟩
    · rw [act_instruction] at goes
      simp [execute, of, few, underflow, fail, Outcome.isStop] at goes
    · exact (Move.makeArray length).realize
  case index =>
    rcases operands_of 2 S with few | ⟨args, S, length, rfl⟩
    · rw [act_instruction] at goes
      simp [execute, of, few, underflow, fail, Outcome.isStop] at goes
    · obtain ⟨array, position, rfl⟩ := List.length_eq_two.mp length
      rcases accessed : access s.store array position with e | ⟨ref, n⟩
      · rw [act_instruction] at goes
        simp [execute, of, accessed, fail, Outcome.isStop] at goes
      · rcases element : s.store.element? ref n with _ | v
        · rw [act_instruction] at goes
          simp [execute, of, accessed, element, fail, Outcome.isStop] at goes
        · exact (Move.index accessed element).realize
  case indexAssign =>
    rcases operands_of 3 S with few | ⟨args, S, length, rfl⟩
    · rw [act_instruction] at goes
      simp [execute, of, few, underflow, fail, Outcome.isStop] at goes
    · obtain ⟨array, position, v, rfl⟩ := List.length_eq_three.mp length
      rcases accessed : access s.store array position with e | ⟨ref, n⟩
      · rw [act_instruction] at goes
        simp [execute, of, accessed, fail, Outcome.isStop] at goes
      · by_cases inRange : n < (s.store.elements ref).size
        · exact (Move.indexAssign accessed inRange).realize
        · rw [act_instruction] at goes
          simp [execute, of, accessed, inRange, fail, Outcome.isStop] at goes
  case call arity =>
    rcases operands_of arity S with few | ⟨args, S, rfl, rfl⟩
    · rw [act_instruction] at goes
      simp [execute, call, of, few, underflow, fail, Outcome.isStop] at goes
    · have popped := Stack.popMany?_ofList args S
      rcases S with _ | ⟨callee, S⟩
      · rw [act_instruction] at goes
        simp only [execute, call, of, popped] at goes
        cases goes
      · cases callee
        case builtin b =>
          rcases reply : Native.invoke role s b args with ⟨v, s'⟩ | ⟨e, s'⟩ | s'
          · exact (Move.native rfl reply).realize
          · rw [act_instruction] at goes
            simp [execute, call, of, popped, reply, fail, Outcome.isStop] at goes
          · exact (Move.sleep rfl reply).realize
        case closure c =>
          rcases extended : s.store.extend c.env c.params args with e | ⟨inner, store⟩
          · rw [act_instruction] at goes
            simp [execute, call, of, popped, extended, fail, Outcome.isStop] at goes
          · exact (Move.call rfl extended).realize
        all_goals
          rw [act_instruction] at goes
          simp [execute, call, of, popped, fail, Outcome.isStop] at goes
  case go arity =>
    rcases operands_of arity S with few | ⟨args, S, rfl, rfl⟩
    · rw [act_instruction] at goes
      simp [execute, go, of, few, underflow, fail, Outcome.isStop] at goes
    · have popped := Stack.popMany?_ofList args S
      rcases S with _ | ⟨callee, S⟩
      · rw [act_instruction] at goes
        simp only [execute, go, of, popped] at goes
        cases goes
      · cases callee
        case builtin b =>
          by_cases fits : args.length = b.arity
          · exact (Move.launchNative rfl fits).realize
          · rw [act_instruction] at goes
            simp [execute, go, of, popped, fits, fail, Outcome.isStop] at goes
        case closure c =>
          rcases extended : s.store.extend globals c.params args with e | ⟨inner, store⟩
          · rw [act_instruction] at goes
            simp [execute, go, of, popped, extended, fail, Outcome.isStop] at goes
          · exact (Move.launch rfl extended).realize
        all_goals
          rw [act_instruction] at goes
          simp [execute, go, of, popped, fail, Outcome.isStop] at goes
  case throw =>
    rcases K with _ | ⟨item, K⟩
    · rw [act_instruction] at goes
      rcases S with _ | ⟨v, S⟩ <;> cases goes
    · cases caught : item.isCatch with
      | false => exact (Move.throwDiscard caught).realize
      | true =>
        obtain ⟨sym, handler, e, height, rfl⟩ := Item.exists_of_isCatch caught
        rcases S with _ | ⟨v, S⟩
        · rw [act_instruction] at goes
          cases goes
        · rcases extended : s.store.extend e [sym] [v] with e' | ⟨inner, store⟩
          · simp [Store.extend] at extended
          · exact (Move.caught extended).realize
  all_goals exact Move.pass.realize

/-- A step that does not end the context follows a rule. -/
theorem move_of_act {m : Machine} (goes : (m.act protocol globals role s).isStop = false) :
    Move protocol globals role m s (m.act protocol globals role s) := by
  rw [m.eq_of] at goes ⊢
  generalize m.control.toList = items at goes ⊢
  rcases items with _ | ⟨c | i, K⟩
  · cases goes
  · exact move_of_command goes
  · exact move_of_instruction goes

/-- Under any limits, a step that does not end the context follows a rule. -/
theorem move_of_advance {setting : Setting} {m : Machine}
    (goes : (m.advance setting role s).isStop = false) :
    Move setting.protocol setting.globals role m s (m.advance setting role s) := by
  have uncut : (m.advance setting role s).isCut = false := by
    revert goes
    cases m.advance setting role s with
    | stop result m s => exact fun ended => absurd ended.symm Bool.false_ne_true
    | _ => exact fun _ => rfl
  have same := advance_eq_act_of_not_limit uncut
  rw [show m.advance setting role s = _ from same] at goes ⊢
  exact move_of_act goes

end Complete

end Machine

end ControlStash
