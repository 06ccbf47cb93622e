import ControlStash.Proofs.Likeness
import ControlStash.Proofs.Solo

/-!
# Machines in lockstep

Machines are alike if one differs from the other only in the trees that it works on. Such machines
take the same steps, however unlike the trees are inside: what a step does depends on the root of
the command it expands, and the commands below it are passed on. `Machine.advance_alike` says so of
one step under any limits, provided that the roots are of one kind and that the stash holds what the
step takes.

The number of steps taken is no part of the likeness. So this serves programs that take the same
number of steps, and also programs of which one takes steps in between.
-/

namespace ControlStash

/-! ## Related stacks -/

/-- Two stacks are as high as each other, with related elements at the same heights. -/
def Stack.Related {α β : Type} (r : α → β → Prop) (s : Stack α) (t : Stack β) : Prop :=
  List.Forall₂ r s.toList t.toList

namespace Stack.Related

variable {α β : Type} {r : α → β → Prop} {s : Stack α} {t : Stack β}

theorem size_eq (related : s.Related r t) : s.size = t.size := by
  rw [s.size_eq, t.size_eq]
  exact related.length_eq

theorem push {a : α} {b : β} (related : s.Related r t) (top : r a b) :
    (s.push a).Related r (t.push b) :=
  .cons top related

theorem pushAll {as : List α} {bs : List β} (related : s.Related r t)
    (tops : List.Forall₂ r as bs) : (s.pushAll as).Related r (t.pushAll bs) :=
  List.rel_append tops related

theorem drop (related : s.Related r t) (n : Nat) : (s.drop n).Related r (t.drop n) :=
  List.forall₂_drop n related

theorem cutTo (related : s.Related r t) (height : Nat) :
    (s.cutTo height).Related r (t.cutTo height) := by
  unfold Stack.cutTo
  rw [← related.size_eq]
  exact related.drop _

theorem pop? (related : s.Related r t) :
    (s.pop? = none ∧ t.pop? = none) ∨
      ∃ a b s' t', s.pop? = some (a, s') ∧ t.pop? = some (b, t') ∧ r a b ∧ s'.Related r t' := by
  obtain ⟨l, n, hn⟩ := s
  obtain ⟨k, m, hm⟩ := t
  unfold Related at related
  dsimp only at related
  cases related with
  | nil => exact .inl ⟨rfl, rfl⟩
  | cons top rest => exact .inr ⟨_, _, _, _, rfl, rfl, top, rest⟩

theorem exists_pop? (related : s.Related r t) (enough : 1 ≤ s.size) :
    ∃ a b s' t', s.pop? = some (a, s') ∧ t.pop? = some (b, t') ∧ r a b ∧ s'.Related r t' := by
  refine related.pop?.resolve_left fun ⟨nothing, _⟩ => ?_
  rw [s.size_eq, Stack.pop?_eq_none_iff.mp nothing] at enough
  cases enough

theorem exists_popMany? {n : Nat} (related : s.Related r t) (enough : n ≤ s.size) :
    ∃ as bs s' t', s.popMany? n = some (as, s') ∧ t.popMany? n = some (bs, t') ∧ as.length = n ∧
      List.Forall₂ r as bs ∧ s'.Related r t' ∧ s'.size = s.size - n := by
  have enough' : n ≤ t.size := related.size_eq ▸ enough
  refine ⟨_, _, _, _, if_pos enough, if_pos enough', ?_, ?_, related.drop n, rfl⟩
  · simp [enough]
  · exact List.rel_reverse (List.forall₂_take n related)

end Stack.Related

theorem Value.Alike.of_isScalar {R : Command → Command → Prop} {v : Value}
    (scalar : v.isScalar = true) : v.Alike R v := by
  refine .same ?_
  cases v <;> first | rfl | cases scalar

/-! ## Commands that may stand for each other -/

/-- A relation on trees that goes through every kind of node, and keeps the names that a body
declares. -/
structure Command.Congruence (R : Command → Command → Prop) : Prop where
  closed : ∀ {c d}, c.Alike R d → c.tag = d.tag → R c d
  locals : ∀ {c d}, R c d → c.locals = d.locals

/-- The trees that a rule may rewrite anywhere are such a relation, if the rule keeps the names that
a node declares. -/
theorem Rewritten.congruence {rule : Command → Command → Prop}
    (keeps : ∀ d e, rule d e → ∀ known, d.addLocals known = e.addLocals known) :
    Command.Congruence (Rewritten rule) :=
  ⟨.keep, fun {c} _ rewritten => rewritten.addLocals keeps c []⟩

/-! ## Control items -/

/-- Whether an instruction holds no command. -/
def Instruction.isBare : Instruction → Bool
  | .branch _ _ => false
  | .loop _ _ _ => false
  | .catch _ _ _ _ => false
  | _ => true

/-- Two instructions are the same but for the commands they hold and the spelling of a loop. -/
inductive Instruction.Alike (R : Command → Command → Prop) : Instruction → Instruction → Prop
  | branch {a a' alt alt'} : R a a' → Option.Rel R alt alt' →
    Alike R (.branch a alt) (.branch a' alt')
  | loop {form form' a a' b b'} : R a a' → R b b' → Alike R (.loop form a b) (.loop form' a' b')
  | catch {sym a a' env height} : R a a' →
    Alike R (.catch sym a env height) (.catch sym a' env height)
  | same {i} : i.isBare = true → Alike R i i

/-- Two items are alike. -/
inductive Item.Alike (R : Command → Command → Prop) : Item → Item → Prop
  | command {c d} : R c d → Alike R (.command c) (.command d)
  | instruction {i j} : i.Alike R j → Alike R (.instruction i) (.instruction j)

variable {R : Command → Command → Prop}

theorem Item.Alike.bare {i : Instruction} (bare : i.isBare = true) :
    (Item.instruction i).Alike R (.instruction i) :=
  .instruction (.same bare)

/-- A call in return position finds the same frame to reuse. -/
theorem tailFrame?_eq_of_alike {K K' : List Item} (alike : List.Forall₂ (Item.Alike R) K K') :
    tailFrame? K = tailFrame? K' := by
  induction alike with
  | nil => rfl
  | cons head _ ih =>
    cases head with
    | command => simp only [tailFrame?, ih]
    | @instruction i _ same =>
      cases same with
      | branch => simp only [tailFrame?, ih]
      | loop => simp only [tailFrame?, ih]
      | «catch» => rfl
      | same =>
        cases i
        case mark | «catch» => rfl
        all_goals simp only [tailFrame?, ih]

namespace Command

theorem operands_alike {cs cs' : List Command} (all : List.Forall₂ R cs cs') :
    List.Forall₂ (Item.Alike R) (cs.map .command) (cs'.map .command) := by
  induction all with
  | nil => exact .nil
  | cons head _ ih => exact .cons (.command head) ih

theorem operandPlan_alike {callee callee' : Command} {args args' : List Command}
    {last : Instruction} (head : R callee callee') (all : List.Forall₂ R args args')
    (bare : last.isBare = true) :
    List.Forall₂ (Item.Alike R) (operandPlan callee args last) (operandPlan callee' args' last) :=
  .cons (.command head) (List.rel_append (operands_alike all) (.cons (.bare bare) .nil))

namespace Congruence

variable {c d : Command} {env : Env} {height : Nat}

theorem lit (congruence : Congruence R) (l : Literal) : R (.lit l) (.lit l) :=
  congruence.closed .lit rfl

theorem sequencePlan (congruence : Congruence R) {cs cs' : List Command}
    (all : List.Forall₂ R cs cs') :
    List.Forall₂ (Item.Alike R) (sequencePlan cs) (sequencePlan cs') := by
  induction all with
  | nil => exact .cons (.command (congruence.lit .undefined)) .nil
  | cons head rest ih =>
    cases rest with
    | nil => exact .cons (.command head) .nil
    | cons => exact .cons (.command head) (.cons (.bare rfl) ih)

/-- Commands of one kind have plans alike. -/
theorem plan (congruence : Congruence R) (alike : c.Alike R d) :
    List.Forall₂ (Item.Alike R) (c.plan env height) (d.plan env height) := by
  have undefined := congruence.lit .undefined
  cases alike with
  | lit | name | lambda | block | unrecognized => exact .nil
  | unary a => exact .cons (.command a) (.cons (.bare rfl) .nil)
  | binary a b => exact .cons (.command a) (.cons (.command b) (.cons (.bare rfl) .nil))
  | function body =>
    refine .cons (.command (congruence.closed (.declare ?_) rfl)) .nil
    exact congruence.closed (.lambda body) rfl
  | @logical op _ _ _ _ a b =>
    cases op with
    | and =>
      have chosen := congruence.closed (.conditional a b (congruence.lit (.bool false))) rfl
      exact .cons (.command chosen) .nil
    | or =>
      have chosen := congruence.closed (.conditional a (congruence.lit (.bool true)) b) rfl
      exact .cons (.command chosen) .nil
  | conditional a b c =>
    exact .cons (.command a) (.cons (.instruction (.branch b (.some c))) .nil)
  | branch a b alt => exact .cons (.command a) (.cons (.instruction (.branch b alt)) .nil)
  | call callee args =>
    simp only [Command.plan, args.length_eq]
    exact operandPlan_alike callee args rfl
  | go callee args =>
    simp only [Command.plan, args.length_eq]
    exact operandPlan_alike callee args rfl
  | assign a => exact .cons (.command a) (.cons (.bare rfl) .nil)
  | arrayOf elements =>
    simp only [Command.plan, elements.length_eq]
    exact List.rel_append (operands_alike elements) (.cons (.bare rfl) .nil)
  | lengthOf a =>
    have callee : R (.name "array_length") (.name "array_length") := congruence.closed .name rfl
    exact .cons (.command (congruence.closed (.call callee (.cons a .nil)) rfl)) .nil
  | index a b => exact .cons (.command a) (.cons (.command b) (.cons (.bare rfl) .nil))
  | indexAssign a b c =>
    exact .cons (.command a) (.cons (.command b) (.cons (.command c) (.cons (.bare rfl) .nil)))
  | seq all => exact congruence.sequencePlan all
  | declare a =>
    exact .cons (.command a)
      (.cons (.bare rfl) (.cons (.bare rfl) (.cons (.command undefined) .nil)))
  | ret a => exact .cons (.command a) (.cons (.bare rfl) .nil)
  | loop a b =>
    exact .cons (.command a) (.cons (.instruction (.loop a b)) (.cons (.command undefined) .nil))
  | attempt a b => exact .cons (.command a) (.cons (.instruction (.catch b)) .nil)
  | throw a => exact .cons (.command a) (.cons (.bare rfl) .nil)

end Congruence

end Command

/-! ## Machines -/

/-- What contexts share is alike if the stores are, and otherwise the same. -/
structure Shared.Alike (R : Command → Command → Prop) (s s' : Shared) : Prop where
  store : s.store.Alike R s'.store
  output : s.output = s'.output
  group : s.group = s'.group
  groupCalls : s.groupCalls = s'.groupCalls

/-- Two machines have stacks alike, and are in the same environment. -/
structure Machine.Alike (R : Command → Command → Prop) (m m' : Machine) : Prop where
  control : m.control.Related (Item.Alike R) m'.control
  stash : m.stash.Related (Value.Alike R) m'.stash
  env : m.env = m'.env

/-- Goroutines are started on commands alike or on values alike. -/
inductive Task.Alike (R : Command → Command → Prop) : Task → Task → Prop
  | body {c d env} : R c d → Alike R (.body c env) (.body d env)
  | builtin {b args args'} : List.Forall₂ (Value.Alike R) args args' →
    Alike R (.builtin b args) (.builtin b args')

/-- Two steps end in the same way, on machines alike. -/
inductive Outcome.Alike (R : Command → Command → Prop) : Outcome → Outcome → Prop
  | next {m m' s s'} : m.Alike R m' → s.Alike R s' → Alike R (.next m s) (.next m' s')
  | asleep {m m' s s'} : m.Alike R m' → s.Alike R s' → Alike R (.asleep m s) (.asleep m' s')
  | launch {task task' m m' s s'} : task.Alike R task' → m.Alike R m' → s.Alike R s' →
    Alike R (.launch task m s) (.launch task' m' s')
  | stop {result result' m m' s s'} : Coincide (Value.Alike R) result result' → s.Alike R s' →
    Alike R (.stop result m s) (.stop result' m' s')

/-- Two replies are alike. What a built-in function gives is never a closure. -/
inductive Native.Reply.Alike (R : Command → Command → Prop) : Reply → Reply → Prop
  | value {v s s'} : v.isClosure = false → s.Alike R s' → Alike R (.value v s) (.value v s')
  | fault {e s s'} : s.Alike R s' → Alike R (.fault e s) (.fault e s')
  | asleep {s s'} : s.Alike R s' → Alike R (.asleep s) (.asleep s')

section

variable {s s' : Shared}

theorem Shared.Alike.withStore {store store' : Store} (shared : s.Alike R s')
    (stores : store.Alike R store') :
    ({ s with store } : Shared).Alike R { s' with store := store' } :=
  ⟨stores, shared.output, shared.group, shared.groupCalls⟩

namespace Native

variable {args args' : List Value}

theorem wait_alike (role : Role) (shared : s.Alike R s') :
    (wait role s).Alike R (wait role s') := by
  unfold wait
  rw [← shared.group, ← shared.groupCalls]
  rcases s.group.wait role with ⟨verdict, group⟩
  have waited : ∀ calls, Shared.Alike R { s with group, groupCalls := calls }
      { s' with group, groupCalls := calls } := fun _ => ⟨shared.store, shared.output, rfl, rfl⟩
  cases verdict with
  | released => exact .value rfl (waited _)
  | deadlocked counter => exact .fault (waited _)
  | asleep => exact .asleep (waited _)

theorem mismatch_alike (expected : Nat) (shared : s.Alike R s')
    (all : List.Forall₂ (Value.Alike R) args args') :
    (Reply.fault (.arityMismatch expected args.length) s).Alike R
      (.fault (.arityMismatch expected args'.length) s') := by
  rw [all.length_eq]
  exact .fault shared

theorem call_of_two (role : Role) (s : Shared) (native : Native) (v w : Value) (rest : List Value) :
    native.call role s (v :: w :: rest) =
      .fault (.arityMismatch native.arity (v :: w :: rest).length) s := by
  cases native <;> cases v <;> rfl

/-- A built-in function cannot tell values alike apart. -/
theorem call_alike (role : Role) (native : Native) (shared : s.Alike R s')
    (all : List.Forall₂ (Value.Alike R) args args') :
    (native.call role s args).Alike R (native.call role s' args') := by
  have mismatch := mismatch_alike native.arity shared all
  cases all with
  | nil =>
    cases native with
    | waitGroupWait => exact wait_alike role shared
    | _ => exact mismatch
  | @cons v _ _ _ values rest =>
    cases rest with
    | cons =>
      rw [call_of_two, call_of_two]
      exact mismatch
    | nil =>
      cases native with
      | print =>
        unfold call
        dsimp only
        rw [shared.store.display_eq values, shared.output]
        exact .value rfl ⟨shared.store, rfl, shared.group, shared.groupCalls⟩
      | arrayLength =>
        cases values with
        | closure => exact .fault shared
        | same =>
          cases v
          case array =>
            unfold call
            dsimp only
            rw [shared.store.size_elements]
            exact .value rfl shared
          all_goals exact .fault shared
      | waitGroupAdd =>
        cases values with
        | closure => exact .fault shared
        | same =>
          cases v
          case int =>
            unfold call
            dsimp only
            rw [← shared.group, ← shared.groupCalls]
            split
            · exact .value rfl ⟨shared.store, shared.output, rfl, rfl⟩
            · exact .fault shared
          all_goals exact .fault shared
      | waitGroupWait => exact mismatch

theorem invoke_alike (role : Role) (b : Builtin) (shared : s.Alike R s')
    (all : List.Forall₂ (Value.Alike R) args args') :
    (invoke role s b args).Alike R (invoke role s' b args') := by
  unfold invoke
  cases ofName? b.name with
  | none => exact .fault shared
  | some native => exact call_alike role native shared all

end Native

end

/-! ## Steps -/

namespace Machine

variable {setting : Setting} {role : Role} {m m' : Machine} {s s' : Shared}

theorem Alike.push {v w : Value} (machines : m.Alike R m') (values : v.Alike R w) :
    (m.push v).Alike R (m'.push w) :=
  ⟨machines.control, machines.stash.push values, machines.env⟩

theorem Alike.withStash {stash stash' : Stack Value} (machines : m.Alike R m')
    (stashes : stash.Related (Value.Alike R) stash') :
    Machine.Alike R { m with stash } { m' with stash := stash' } :=
  ⟨machines.control, stashes, machines.env⟩

theorem fail_alike (e : Fault) (shared : s.Alike R s') : (m.fail s e).Alike R (m'.fail s' e) :=
  .stop .error shared

theorem schedule_alike {items items' : List Item} {env env' : Env} (limits : Limits)
    (machines : m.Alike R m') (shared : s.Alike R s') (envs : env = env')
    (all : List.Forall₂ (Item.Alike R) items items') :
    (m.schedule limits items env s).Alike R (m'.schedule limits items' env' s') := by
  subst envs
  unfold schedule
  rw [← all.length_eq, ← machines.control.size_eq]
  split
  · exact .next ⟨machines.control.pushAll all, machines.stash, rfl⟩ shared
  · exact fail_alike _ shared

/-- How a body is entered depends on the kinds of the items below. -/
theorem enter_alike {body body' : Command} (env : Env) (machines : m.Alike R m')
    (shared : s.Alike R s') (bodies : R body body') :
    (m.enter setting body env s).Alike R (m'.enter setting body' env s') := by
  have plain : (m.enterPlain setting.limits body env s).Alike R
      (m'.enterPlain setting.limits body' env s') := by
    unfold enterPlain
    rw [← machines.env]
    exact schedule_alike _ machines shared rfl
      (.cons (.command bodies) (.cons (.bare rfl) (.cons (.bare rfl) .nil)))
  have marked := schedule_alike setting.limits machines shared (rfl : env = env)
    (.cons (.command bodies) (.cons (.bare (i := .mark) rfl) .nil))
  have control : List.Forall₂ (Item.Alike R) m.control.toList m'.control.toList := machines.control
  unfold enter
  generalize m.control.toList = K, m'.control.toList = K' at control ⊢
  cases setting.protocol with
  | plain => exact plain
  | economical =>
    cases control with
    | nil => exact marked
    | cons top below =>
      cases top with
      | command => exact plain
      | @instruction i _ same =>
        cases same with
        | same =>
          cases i
          case restore => exact marked
          case reset =>
            dsimp only
            rw [← tailFrame?_eq_of_alike below]
            split
            · next above _ =>
              exact schedule_alike _ ⟨machines.control.drop _, machines.stash, machines.env⟩ shared
                rfl (.cons (.command bodies) .nil)
            · exact plain
          all_goals exact plain
        | _ => exact plain

/-- A call finds arguments alike on the stash, and under them functions alike. -/
theorem Alike.exists_operands {arity : Nat} (machines : m.Alike R m')
    (enough : arity + 1 ≤ m.stash.size) :
    ∃ args args' rest rest' callee callee' below below',
      m.stash.popMany? arity = some (args, rest) ∧ m'.stash.popMany? arity = some (args', rest') ∧
      rest.pop? = some (callee, below) ∧ rest'.pop? = some (callee', below') ∧
      List.Forall₂ (Value.Alike R) args args' ∧ callee.Alike R callee' ∧
      Machine.Alike R { m with stash := below } { m' with stash := below' } := by
  obtain ⟨args, args', rest, rest', popped, popped', -, all, rests, left⟩ :=
    machines.stash.exists_popMany? (n := arity) (by omega)
  obtain ⟨callee, callee', below, below', top, top', callees, belows⟩ :=
    rests.exists_pop? (by omega)
  exact ⟨args, args', rest, rest', callee, callee', below, below', popped, popped', top, top', all,
    callees, machines.withStash belows⟩

theorem call_alike {arity : Nat} (machines : m.Alike R m') (shared : s.Alike R s')
    (enough : arity + 1 ≤ m.stash.size) :
    (m.call setting role arity s).Alike R (m'.call setting role arity s') := by
  obtain ⟨args, args', rest, rest', callee, callee', below, below', popped, popped', top, top', all,
    callees, machines⟩ := machines.exists_operands enough
  unfold call
  simp only [popped, popped', top, top']
  cases callees with
  | @closure stamp params body body' env bodies =>
    rcases shared.store.extend env params all with
      ⟨e, failed, failed'⟩ | ⟨inner, store, store', made, made', stores⟩
    · simp only [failed, failed']
      exact fail_alike _ shared
    · simp only [made, made']
      exact enter_alike inner machines (shared.withStore stores) bodies
  | same plain =>
    cases callee
    case closure => cases plain
    case builtin b =>
      have replied := Native.invoke_alike role b shared all
      dsimp only
      generalize Native.invoke role s b args = x, Native.invoke role s' b args' = y at replied ⊢
      cases replied with
      | value plain shared => exact .next (machines.push (.same plain)) shared
      | fault shared => exact fail_alike _ shared
      | asleep shared => exact .asleep (machines.push (.same rfl)) shared
    all_goals exact fail_alike _ shared

theorem go_alike {globals : Env} {arity : Nat} (machines : m.Alike R m') (shared : s.Alike R s')
    (enough : arity + 1 ≤ m.stash.size) :
    (m.go globals arity s).Alike R (m'.go globals arity s') := by
  obtain ⟨args, args', rest, rest', callee, callee', below, below', popped, popped', top, top', all,
    callees, machines⟩ := machines.exists_operands enough
  have started := machines.push (.same (v := .undefined) rfl)
  unfold go
  simp only [popped, popped', top, top']
  cases callees with
  | @closure stamp params body body' env bodies =>
    rcases shared.store.extend globals params all with
      ⟨e, failed, failed'⟩ | ⟨inner, store, store', made, made', stores⟩
    · simp only [failed, failed']
      exact fail_alike _ shared
    · simp only [made, made']
      exact .launch (.body bodies) started (shared.withStore stores)
  | same plain =>
    cases callee
    case closure => cases plain
    case builtin b =>
      dsimp only
      rw [← all.length_eq]
      split
      · exact .launch (.builtin all) started shared
      · exact fail_alike _ shared
    all_goals exact fail_alike _ shared

theorem reset_alike (machines : m.Alike R m') (shared : s.Alike R s') :
    (m.reset s).Alike R (m'.reset s') := by
  unfold reset
  rcases machines.control.pop? with
    ⟨none, none'⟩ | ⟨item, item', control, control', popped, popped', items, controls⟩
  · simp only [none, none']
    exact .next machines shared
  · simp only [popped, popped']
    have discard : Outcome.Alike R
        (.next { m with control := control.push (.instruction .reset) } s)
        (.next { m' with control := control'.push (.instruction .reset) } s') :=
      .next ⟨controls.push (.bare rfl), machines.stash, machines.env⟩ shared
    cases items with
    | command => exact discard
    | @instruction i _ same =>
      cases same with
      | same =>
        cases i
        case mark => exact .next ⟨controls, machines.stash, machines.env⟩ shared
        all_goals exact discard
      | _ => exact discard

theorem throw_alike (limits : Limits) (machines : m.Alike R m') (shared : s.Alike R s')
    (enough : 1 ≤ m.stash.size) : (m.throw limits s).Alike R (m'.throw limits s') := by
  obtain ⟨v, w, rest, rest', top, top', values, rests⟩ := machines.stash.exists_pop? enough
  unfold throw
  rcases machines.control.pop? with
    ⟨none, none'⟩ | ⟨item, item', control, control', popped, popped', items, controls⟩
  · simp only [none, none', top, top', shared.store.display_eq values]
    exact fail_alike _ shared
  · simp only [popped, popped', top, top']
    have below : Machine.Alike R { m with control } { m' with control := control' } :=
      ⟨controls, machines.stash, machines.env⟩
    have discard := schedule_alike limits below shared machines.env
      (.cons (.bare (i := .throw) rfl) .nil)
    cases items with
    | command => exact discard
    | @instruction i _ same =>
      cases same with
      | same bare =>
        cases i
        case «catch» => cases bare
        all_goals exact discard
      | @«catch» sym handler handler' env height handlers =>
        have tops : List.Forall₂ (Item.Alike R) [.command handler, .instruction (.restore env)]
            [.command handler', .instruction (.restore env)] :=
          .cons (.command handlers) (.cons (.bare rfl) .nil)
        dsimp only
        rw [← controls.size_eq, ← tops.length_eq]
        split
        · rcases shared.store.extend env [sym] (.cons values .nil) with
            ⟨e, failed, failed'⟩ | ⟨inner, store, store', made, made', stores⟩
          · simp only [failed, failed']
            exact fail_alike _ shared
          · simp only [made, made']
            exact .next ⟨controls.pushAll tops, rests.cutTo height, rfl⟩ (shared.withStore stores)
        · exact fail_alike _ shared
      | _ => exact discard

/-- An access comes to the same place. -/
theorem access_eq_of_alike {store store' : Store} {v w i j : Value} (stores : store.Alike R store')
    (values : v.Alike R w) (indices : i.Alike R j) : access store v i = access store' w j := by
  have position : ∀ length, Machine.position i length = Machine.position j length := by
    intro length
    cases indices <;> rfl
  cases values with
  | closure => rfl
  | same =>
    cases v
    case array ref =>
      unfold access
      dsimp only
      rw [stores.size_elements, position]
    all_goals rfl

/-- Instructions alike do the same, if the stash holds the values that they take. -/
theorem execute_alike {i j : Instruction} (items : i.Alike R j) (machines : m.Alike R m')
    (shared : s.Alike R s') (enough : i.taken ≤ m.stash.size) :
    (m.execute setting role i s).Alike R (m'.execute setting role j s') := by
  cases items with
  | branch cons alt =>
    obtain ⟨v, w, rest, rest', top, top', values, rests⟩ := machines.stash.exists_pop? enough
    simp only [execute, top, top']
    cases values with
    | closure => exact fail_alike _ shared
    | same plain =>
      cases v
      case bool b =>
        cases b with
        | true =>
          exact schedule_alike _ (machines.withStash rests) shared machines.env
            (.cons (.command cons) .nil)
        | false =>
          cases alt with
          | none => exact .next (machines.withStash (rests.push (.same rfl))) shared
          | some alt =>
            exact schedule_alike _ (machines.withStash rests) shared machines.env
              (.cons (.command alt) .nil)
      all_goals exact fail_alike _ shared
  | loop pred body =>
    obtain ⟨v, w, rest, rest', top, top', values, rests⟩ := machines.stash.exists_pop? enough
    simp only [execute, top, top']
    cases values with
    | closure => exact fail_alike _ shared
    | same plain =>
      cases v
      case bool b =>
        cases b with
        | true =>
          exact schedule_alike _ (machines.withStash rests) shared machines.env
            (.cons (.command body) (.cons (.bare rfl) (.cons (.command pred)
              (.cons (.instruction (.loop pred body)) .nil))))
        | false => exact .next (machines.withStash rests) shared
      all_goals exact fail_alike _ shared
  | «catch» => exact .next machines shared
  | same bare =>
    cases i
    case unary op =>
      obtain ⟨v, w, rest, rest', top, top', values, rests⟩ := machines.stash.exists_pop? enough
      simp only [execute, top, top', op.apply_alike values]
      generalize given : op.apply w = x
      cases x with
      | error e => exact fail_alike e shared
      | ok v =>
        have scalar := UnaryOp.isScalar_apply given
        exact .next (machines.withStash (rests.push (.of_isScalar scalar))) shared
    case binary op =>
      obtain ⟨as, bs, rest, rest', top, top', two, values, rests, -⟩ :=
        machines.stash.exists_popMany? (n := 2) enough
      obtain ⟨a, b, rfl⟩ := List.length_eq_two.mp two
      simp only [List.forall₂_cons_left_iff, List.forall₂_nil_left_iff] at values
      obtain ⟨_, _, first, ⟨_, _, second, rfl, rfl⟩, rfl⟩ := values
      simp only [execute, top, top', op.apply_alike shared.store first second]
      generalize given : op.apply s'.store _ _ = x
      cases x with
      | error e => exact fail_alike e shared
      | ok v =>
        have scalar := BinaryOp.isScalar_apply given
        exact .next (machines.withStash (rests.push (.of_isScalar scalar))) shared
    case pop =>
      obtain ⟨v, w, rest, rest', top, top', values, rests⟩ := machines.stash.exists_pop? enough
      simp only [execute, top, top']
      exact .next (machines.withStash rests) shared
    case assign sym =>
      obtain ⟨v, w, rest, rest', top, top', values, rests⟩ := machines.stash.exists_pop? enough
      have assigned := shared.store.assign m.env sym values
      simp only [execute, top, top', ← machines.env]
      generalize s.store.assign m.env sym v = x, s'.store.assign m.env sym w = y at assigned ⊢
      cases assigned with
      | ok stores => exact .next machines (shared.withStore stores)
      | error => exact fail_alike _ shared
    case call arity => exact call_alike machines shared enough
    case restore env => exact .next ⟨machines.control, machines.stash, rfl⟩ shared
    case makeArray arity =>
      obtain ⟨as, bs, rest, rest', top, top', -, values, rests, -⟩ :=
        machines.stash.exists_popMany? (n := arity) enough
      obtain ⟨refs, stores⟩ := shared.store.newArray
        (show List.Forall₂ (Value.Alike R) as.toArray.toList bs.toArray.toList from values)
      simp only [execute, top, top', refs]
      exact .next (machines.withStash (rests.push (.same rfl))) (shared.withStore stores)
    case index =>
      obtain ⟨as, bs, rest, rest', top, top', two, values, rests, -⟩ :=
        machines.stash.exists_popMany? (n := 2) enough
      obtain ⟨a, i, rfl⟩ := List.length_eq_two.mp two
      simp only [List.forall₂_cons_left_iff, List.forall₂_nil_left_iff] at values
      obtain ⟨_, _, first, ⟨_, _, second, rfl, rfl⟩, rfl⟩ := values
      simp only [execute, top, top', access_eq_of_alike shared.store first second]
      generalize access s'.store _ _ = x
      cases x with
      | error e => exact fail_alike e shared
      | ok place =>
        have found := shared.store.element? place.1 place.2
        dsimp only
        rw [shared.store.size_elements]
        generalize s.store.element? place.1 place.2 = x, s'.store.element? place.1 place.2 = y
          at found ⊢
        cases found with
        | none => exact fail_alike _ shared
        | some values => exact .next (machines.withStash (rests.push values)) shared
    case indexAssign =>
      obtain ⟨as, bs, rest, rest', top, top', three, values, rests, -⟩ :=
        machines.stash.exists_popMany? (n := 3) enough
      obtain ⟨a, i, v, rfl⟩ := List.length_eq_three.mp three
      simp only [List.forall₂_cons_left_iff, List.forall₂_nil_left_iff] at values
      obtain ⟨_, _, first, ⟨_, _, second, ⟨_, _, third, rfl, rfl⟩, rfl⟩, rfl⟩ := values
      simp only [execute, top, top', access_eq_of_alike shared.store first second]
      generalize access s'.store _ _ = x
      cases x with
      | error e => exact fail_alike e shared
      | ok place =>
        dsimp only
        rw [shared.store.size_elements]
        split
        · exact .next (machines.withStash (rests.push third))
            (shared.withStore (shared.store.setElement _ _ third))
        · exact fail_alike _ shared
    case mark => exact .next machines shared
    case reset => exact reset_alike machines shared
    case throw => exact throw_alike setting.limits machines shared enough
    case go arity => exact go_alike machines shared enough
    all_goals cases bare

theorem blockPlan_alike {body body' : Command} (protocol : CallProtocol) (machines : m.Alike R m')
    (bodies : R body body') :
    List.Forall₂ (Item.Alike R) (m.blockPlan protocol body) (m'.blockPlan protocol body') := by
  have control : List.Forall₂ (Item.Alike R) m.control.toList m'.control.toList := machines.control
  have restored : List.Forall₂ (Item.Alike R) [.command body, .instruction (.restore m.env)]
      [.command body', .instruction (.restore m.env)] :=
    .cons (.command bodies) (.cons (.bare rfl) .nil)
  unfold blockPlan
  rw [← machines.env]
  generalize m.control.toList = K, m'.control.toList = K' at control ⊢
  cases protocol with
  | plain => exact restored
  | economical =>
    cases control with
    | nil => exact .cons (.command bodies) .nil
    | cons => exact restored

/-- Commands of one kind are expanded alike. -/
theorem expand_alike {c d : Command} (congruence : Command.Congruence R) (commands : c.Alike R d)
    (machines : m.Alike R m') (shared : s.Alike R s') :
    (m.expand setting c s).Alike R (m'.expand setting d s') := by
  have planned : (m.schedule setting.limits (c.plan m.env m.stash.size) m.env s).Alike R
      (m'.schedule setting.limits (d.plan m'.env m'.stash.size) m'.env s') := by
    rw [← machines.stash.size_eq, ← machines.env]
    exact schedule_alike _ machines shared rfl (congruence.plan commands)
  cases commands with
  | @lit l => exact .next (machines.push (.of_isScalar (by cases l <;> rfl))) shared
  | @name sym =>
    have found := shared.store.lookup m.env sym
    unfold expand
    dsimp only
    rw [← machines.env]
    generalize s.store.lookup m.env sym = x, s'.store.lookup m.env sym = y at found ⊢
    cases found with
    | ok values => exact .next (machines.push values) shared
    | error => exact fail_alike _ shared
  | @lambda params _ _ bodies =>
    obtain ⟨closures, stores⟩ := shared.store.newClosure params m.env bodies
    unfold expand
    dsimp only
    rw [← machines.env]
    exact .next (machines.push closures) (shared.withStore stores)
  | @block body body' bodies =>
    have items := blockPlan_alike setting.protocol machines bodies
    have fresh : List.Forall₂ (Value.Alike R) (body.locals.map fun _ => Value.unassigned)
        (body.locals.map fun _ => Value.unassigned) :=
      List.forall₂_same.mpr fun v member => by
        obtain ⟨_, -, rfl⟩ := List.mem_map.mp member
        exact .same rfl
    unfold expand
    dsimp only
    rw [← congruence.locals bodies, ← items.length_eq, ← machines.control.size_eq, ← machines.env]
    split
    · rcases shared.store.extend m.env body.locals fresh with
        ⟨e, failed, failed'⟩ | ⟨inner, store, store', made, made', stores⟩
      · simp only [failed, failed']
        exact fail_alike _ shared
      · simp only [made, made']
        exact .next ⟨machines.control.pushAll items, machines.stash, rfl⟩ (shared.withStore stores)
    · exact fail_alike _ shared
  | unrecognized => exact fail_alike _ shared
  | _ => exact planned

/-- Machines with nothing left to do come to results alike. -/
theorem finish_alike (machines : m.Alike R m') :
    Coincide (Value.Alike R) m.finish m'.finish := by
  have stash : List.Forall₂ (Value.Alike R) m.stash.toList m'.stash.toList := machines.stash
  unfold finish
  rw [← machines.stash.size_eq]
  generalize m.stash.toList = S, m'.stash.toList = S' at stash ⊢
  cases stash with
  | nil => exact .error
  | cons head rest =>
    cases rest with
    | nil => exact .ok head
    | cons => exact .error

/-- Two items have steps alike: instructions alike, or commands with roots of one kind. -/
inductive Level (R : Command → Command → Prop) : Item → Item → Prop
  | command {c d} : c.Alike R d → Level R (.command c) (.command d)
  | instruction {i j} : i.Alike R j → Level R (.instruction i) (.instruction j)

/-- Machines alike take steps alike, unless the step limit keeps them from it. -/
theorem advance_alike {item item' : Item} {control control' : Stack Item}
    (congruence : Command.Congruence R) (machines : m.Alike R m') (shared : s.Alike R s')
    (top : m.control.pop? = some (item, control)) (top' : m'.control.pop? = some (item', control'))
    (level : Level R item item') (enough : item.taken ≤ m.stash.size)
    (within : m.steps < setting.limits.steps) (within' : m'.steps < setting.limits.steps) :
    (m.advance setting role s).Alike R (m'.advance setting role s') := by
  have below : control.Related (Item.Alike R) control' := by
    rcases machines.control.pop? with ⟨nothing, -⟩ | ⟨_, _, _, _, popped, popped', -, below⟩
    · rw [nothing] at top
      cases top
    · rw [popped] at top
      rw [popped'] at top'
      cases top
      cases top'
      exact below
  have machines : Machine.Alike R { m with control, steps := m.steps + 1 }
      { m' with control := control', steps := m'.steps + 1 } :=
    ⟨below, machines.stash, machines.env⟩
  simp only [advance, top, top', if_neg (Nat.not_le.mpr within), if_neg (Nat.not_le.mpr within')]
  cases level with
  | command commands => exact expand_alike congruence commands machines shared
  | instruction items => exact execute_alike items machines shared enough

end Machine

/-! ## Programs -/

/-- A store without closures is alike to itself. -/
theorem Store.Holds.alike {store : Store} (plain : store.Holds fun v => v.isClosure = false) :
    store.Alike R store := by
  refine ⟨List.forall₂_same.mpr fun frame bound => ?_,
    List.forall₂_same.mpr fun array held => ?_, rfl⟩
  · exact List.forall₂_same.mpr fun b member =>
      ⟨rfl, .same (plain.bound frame (Array.mem_toList_iff.mp bound) b member)⟩
  · exact List.forall₂_same.mpr fun v member =>
      .same (plain.held array (Array.mem_toList_iff.mp held) v (Array.mem_toList_iff.mp member))

/-- Two reports show results and stores alike, and the same printed lines. -/
structure Report.Alike (R : Command → Command → Prop) (r r' : Report) : Prop where
  result : Coincide (Value.Alike R) r.result r'.result
  store : r.store.Alike R r'.store
  output : r.output = r'.output

/-- The values that two runs come to are printed the same. -/
theorem Report.Alike.display_eq {r r' : Report} (alike : r.Alike R r') :
    ∀ v w, r.result = .ok v → r'.result = .ok w → r.store.display v = r'.store.display w := by
  intro v w first second
  have results := alike.result
  rw [first, second] at results
  cases results with
  | ok values => exact alike.store.display_eq values

namespace Program

variable {p q : Program}

/-- Programs that declare the same names start in the same environment and store. -/
theorem globals_eq (congruence : Command.Congruence R) (bodies : R p.body q.body) :
    p.globals = q.globals := by
  unfold globals
  rw [congruence.locals bodies]

theorem settingUnder_eq (congruence : Command.Congruence R) (bodies : R p.body q.body) :
    p.settingUnder = q.settingUnder := by
  unfold settingUnder setting
  rw [globals_eq congruence bodies]

theorem machine_alike (congruence : Command.Congruence R) (bodies : R p.body q.body) :
    p.machine.Alike R q.machine := by
  unfold machine
  rw [globals_eq congruence bodies]
  exact ⟨.cons (.command bodies) .nil, .nil, rfl⟩

theorem shared_alike (congruence : Command.Congruence R) (bodies : R p.body q.body) :
    p.shared.Alike R q.shared := by
  unfold shared
  rw [globals_eq congruence bodies]
  have plain : q.globals.2.Holds fun v => v.isClosure = false :=
    q.globals_hold (fun _ => rfl) rfl
  exact ⟨plain.alike, rfl, rfl, rfl⟩

end Program

end ControlStash
