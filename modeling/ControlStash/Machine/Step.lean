import ControlStash.Command.Locals
import ControlStash.Machine.Native
import ControlStash.Operator

/-!
# Steps of a machine

One step takes the top item off the control stack. A command is replaced by its expansion; an
instruction takes its operands from the stash and does its work.

A call puts a mark under the body of the function, and under the mark an item that restores the
caller's environment. A return discards items down to the mark. Programs run under the economical
protocol: the restore is left out if the next item restores an environment anyway or there is none, and
a call in return position reuses the mark of the running function. A `catch` item remembers the
environment and the stash height of its place, and a throw discards items down to it.
-/

namespace ControlStash.Machine

/-- What a block schedules: its body, and the restore of the environment around it. -/
def blockPlan (protocol : CallProtocol) (body : Command) (m : Machine) : List Item :=
  match protocol, m.control.toList with
  | .economical, [] => [.command body]
  | _, _ => [.command body, .instruction (.restore m.env)]

/-- Replaces a command by its expansion. -/
def expand (setting : Setting) (c : Command) (m : Machine) (s : Shared) : Outcome :=
  match c with
  | .lit value => .next (m.push (.ofLiteral value)) s
  | .name sym =>
    match s.store.lookup m.env sym with
    | .ok v => .next (m.push v) s
    | .error e => m.fail s (.ofScope e)
  | .lambda params body =>
    let (closure, store) := s.store.newClosure params body m.env
    .next (m.push (.closure closure)) { s with store }
  | .block body =>
    let names := body.locals
    let items := m.blockPlan setting.protocol body
    if items.length + m.control.size ≤ setting.limits.depth then
      match s.store.extend m.env names (names.map fun _ => .unassigned) with
      | .ok (env, store) =>
        .next { m with control := m.control.pushAll items, env := env } { s with store }
      | .error e => m.fail s (.ofScope e)
    else m.fail s (.controlStackOverflow setting.limits.depth)
  | .unrecognized => m.fail s (.unknownInstruction c.tag)
  | c => m.schedule setting.limits (c.plan m.env m.stash.size) m.env s

/-- Enters the body of a closure with a mark and a restore of its own. -/
def enterPlain (limits : Limits) (body : Command) (env : Env) (m : Machine) (s : Shared) :
    Outcome :=
  m.schedule limits
    [.command body, .instruction .mark, .instruction (.restore m.env)] env s

/-- Enters the body of a closure whose parameters are bound in `env`. -/
def enter (setting : Setting) (body : Command) (env : Env) (m : Machine) (s : Shared) : Outcome :=
  match setting.protocol, m.control.toList with
  | .plain, _ => m.enterPlain setting.limits body env s
  | .economical, [] => m.schedule setting.limits [.command body, .instruction .mark] env s
  | .economical, .instruction (.restore _) :: _ =>
    m.schedule setting.limits [.command body, .instruction .mark] env s
  | .economical, .instruction .reset :: items =>
    match tailFrame? items with
    | some above =>
      { m with control := m.control.drop (above + 1) }.schedule setting.limits [.command body] env s
    | none => m.enterPlain setting.limits body env s
  | .economical, _ => m.enterPlain setting.limits body env s

/-- Calls the value under the arguments on the stash. -/
def call (setting : Setting) (role : Role) (arity : Nat) (m : Machine) (s : Shared) : Outcome :=
  match m.stash.popMany? arity with
  | none => m.underflow s
  | some (args, stash) =>
    match stash.pop? with
    | none => m.underflow s
    | some (callee, stash) =>
      let m := { m with stash }
      match callee with
      | .builtin b =>
        match Native.invoke role s b args with
        | .value v s => .next (m.push v) s
        | .fault e s => m.fail s e
        | .asleep s => .asleep (m.push .undefined) s
      | .closure c =>
        match s.store.extend c.env c.params args with
        | .ok (env, store) => m.enter setting c.body env { s with store }
        | .error e => m.fail s (.ofScope e)
      | v => m.fail s (.typeError (.callee v.type))

/-- Asks for a goroutine on the value under the arguments on the stash. A closure's body runs in the
outermost scope extended by its parameters. -/
def go (globals : Env) (arity : Nat) (m : Machine) (s : Shared) : Outcome :=
  match m.stash.popMany? arity with
  | none => m.underflow s
  | some (args, stash) =>
    match stash.pop? with
    | none => m.underflow s
    | some (callee, stash) =>
      let m := { m with stash }
      match callee with
      | .closure c =>
        match s.store.extend globals c.params args with
        | .ok (env, store) => .launch (.body c.body env) (m.push .undefined) { s with store }
        | .error e => m.fail s (.ofScope e)
      | .builtin b =>
        if args.length = b.arity then .launch (.builtin b args) (m.push .undefined) s
        else m.fail s (.arityMismatch b.arity args.length)
      | v => m.fail s (.typeError (.goroutine v.type))

/-- Discards one item, or the mark that ends a return. -/
def reset (m : Machine) (s : Shared) : Outcome :=
  match m.control.pop? with
  | none => .next m s
  | some (.instruction .mark, control) => .next { m with control } s
  | some (_, control) => .next { m with control := control.push (.instruction .reset) } s

/-- Discards one item, or starts the handler of a catch. -/
def throw (limits : Limits) (m : Machine) (s : Shared) : Outcome :=
  match m.control.pop? with
  | none =>
    match m.stash.pop? with
    | none => m.underflow s
    | some (v, _) => m.fail s (.uncaughtThrow (s.store.display v))
  | some (.instruction (.catch sym handler env height), control) =>
    match m.stash.pop? with
    | none => m.underflow s
    | some (v, stash) =>
      let items : List Item := [.command handler, .instruction (.restore env)]
      if items.length + control.size ≤ limits.depth then
        match s.store.extend env [sym] [v] with
        | .ok (inner, store) =>
          .next { m with control := control.pushAll items, stash := stash.cutTo height, env := inner }
            { s with store }
        | .error e => m.fail s (.ofScope e)
      else m.fail s (.controlStackOverflow limits.depth)
  | some (_, control) => { m with control }.schedule limits [.instruction .throw] m.env s

/-- The position that an index value stands for in an array of the given length. -/
def position (index : Value) (length : Nat) : Except Fault Nat :=
  match index with
  | .int n =>
    if 0 ≤ n ∧ n.toInt < length then .ok n.toInt.toNat
    else .error (.indexOutOfRange n length)
  | v => .error (.typeError (.position v.type))

/-- The array and the position that an access names. -/
def access (store : Store) (array index : Value) : Except Fault (ArrayRef × Nat) :=
  match array with
  | .array ref => (position index (store.elements ref).size).map (ref, ·)
  | v => .error (.typeError (.indexed v.type))

/-- Executes an instruction. -/
def execute (setting : Setting) (role : Role) (i : Instruction) (m : Machine) (s : Shared) :
    Outcome :=
  match i with
  | .unary op =>
    match m.stash.pop? with
    | some (v, stash) =>
      match op.apply v with
      | .ok w => .next { m with stash := stash.push w } s
      | .error e => m.fail s e
    | none => m.underflow s
  | .binary op =>
    match m.stash.popMany? 2 with
    | some ([a, b], stash) =>
      match op.apply s.store a b with
      | .ok v => .next { m with stash := stash.push v } s
      | .error e => m.fail s e
    | _ => m.underflow s
  | .pop =>
    match m.stash.pop? with
    | some (_, stash) => .next { m with stash } s
    | none => m.underflow s
  | .assign sym =>
    match m.stash.pop? with
    | some (v, _) =>
      match s.store.assign m.env sym v with
      | .ok store => .next m { s with store }
      | .error e => m.fail s (.ofScope e)
    | none => m.underflow s
  | .call arity => m.call setting role arity s
  | .branch cons alt =>
    match m.stash.pop? with
    | some (.bool true, stash) =>
      { m with stash }.schedule setting.limits [.command cons] m.env s
    | some (.bool false, stash) =>
      match alt with
      | some alt => { m with stash }.schedule setting.limits [.command alt] m.env s
      | none => .next { m with stash := stash.push .undefined } s
    | some (v, _) => m.fail s (.typeError (.condition v.type))
    | none => m.underflow s
  | .loop form pred body =>
    match m.stash.pop? with
    | some (.bool true, stash) =>
      { m with stash }.schedule setting.limits
        [.command body, .instruction .pop, .command pred, .instruction (.loop form pred body)]
        m.env s
    | some (.bool false, stash) => .next { m with stash } s
    | some (v, _) => m.fail s (.typeError (.loopCondition v.type))
    | none => m.underflow s
  | .restore env => .next { m with env } s
  | .makeArray arity =>
    match m.stash.popMany? arity with
    | some (elements, stash) =>
      let (ref, store) := s.store.newArray elements.toArray
      .next { m with stash := stash.push (.array ref) } { s with store }
    | none => m.underflow s
  | .index =>
    match m.stash.popMany? 2 with
    | some ([array, index], stash) =>
      match access s.store array index with
      | .ok (ref, n) =>
        match s.store.element? ref n with
        | some v => .next { m with stash := stash.push v } s
        | none => m.fail s (.indexOutOfRange (Int64.ofNat n) (s.store.elements ref).size)
      | .error e => m.fail s e
    | _ => m.underflow s
  | .indexAssign =>
    match m.stash.popMany? 3 with
    | some ([array, index, v], stash) =>
      match access s.store array index with
      | .ok (ref, n) =>
        if n < (s.store.elements ref).size then
          .next { m with stash := stash.push v } { s with store := s.store.setElement ref n v }
        else m.fail s (.indexOutOfRange (Int64.ofNat n) (s.store.elements ref).size)
      | .error e => m.fail s e
    | _ => m.underflow s
  | .mark => .next m s
  | .reset => m.reset s
  | .throw => m.throw setting.limits s
  | .catch _ _ _ _ => .next m s
  | .go arity => m.go setting.globals arity s

/-- One step of a context: takes the top item and does its work, or ends if there is none or the step
limit is reached. The step that the limit forbids is not counted. -/
def advance (setting : Setting) (role : Role) (m : Machine) (s : Shared) : Outcome :=
  match m.control.pop? with
  | none => .stop m.finish m s
  | some (item, control) =>
    if setting.limits.steps ≤ m.steps then
      { m with control }.fail s (.stepLimitExceeded setting.limits.steps)
    else
      let m := { m with control, steps := m.steps + 1 }
      match item with
      | .command c => m.expand setting c s
      | .instruction i => m.execute setting role i s

end ControlStash.Machine
