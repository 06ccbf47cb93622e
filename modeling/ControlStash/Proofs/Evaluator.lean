import ControlStash.Proofs.Solo

/-!
# The evaluator

What a command means, without a machine. `Command.evaluate` follows the tree of a command in an
environment and says how it completes: with a value, by a return or a throw that leaves it, or with
a fault. Operands are evaluated from left to right and the callee of a call before its arguments;
the first operand that completes otherwise than with a value completes the whole command
(`Evaluation.andThen`).

The evaluator works on the same store, printed lines and wait group as a machine. It knows of no
other context, so it says nothing about goroutines. Calls and loops may go on for ever, so it is
given the depth to which it may follow them, and gives no answer beyond it.
-/

namespace ControlStash

/-- How an evaluation completes. -/
inductive Completion (α : Type) where
  | value (a : α)
  /-- A `return` leaves the function around the command. -/
  | returned (v : Value)
  /-- A `throw` leaves the nearest `try` around the command. -/
  | thrown (v : Value)
  | failed (e : Fault)

/-- A completion and what is shared after it, if the evaluation has come to an end. -/
abbrev Evaluation (α : Type) := Option (Completion α × Shared)

namespace Evaluation

variable {α β : Type}

/-- Completes with a value. -/
def give (a : α) (s : Shared) : Evaluation α :=
  some (.value a, s)

/-- Completes with a fault. -/
def fail (e : Fault) (s : Shared) : Evaluation α :=
  some (.failed e, s)

/-- Completes with a value or with a fault. -/
def ofExcept (r : Except Fault α) (s : Shared) : Evaluation α :=
  match r with
  | .ok a => give a s
  | .error e => fail e s

/-- Goes on with the value of an evaluation; any other completion is that of the whole. -/
def andThen (r : Evaluation α) (next : α → Shared → Evaluation β) : Evaluation β :=
  match r with
  | none => none
  | some (.value a, s) => next a s
  | some (.returned v, s) => some (.returned v, s)
  | some (.thrown v, s) => some (.thrown v, s)
  | some (.failed e, s) => some (.failed e, s)

/-- What the body of a function gives to the caller: a return is the value of the call. -/
def asCall (r : Evaluation Value) : Evaluation Value :=
  match r with
  | some (.returned v, s) => some (.value v, s)
  | r => r

/-- What a `try` gives: a thrown value goes to the handler. -/
def orHandle (r : Evaluation Value) (handler : Value → Shared → Evaluation Value) :
    Evaluation Value :=
  match r with
  | some (.thrown v, s) => handler v s
  | r => r

/-- Evaluates commands in order and gives their values. -/
def inOrder (evaluate : Command → Shared → Evaluation Value) :
    List Command → Shared → Evaluation (List Value)
  | [], s => give [] s
  | c :: cs, s =>
    (evaluate c s).andThen fun v s => (inOrder evaluate cs s).andThen fun vs s => give (v :: vs) s

/-- Evaluates statements in order and gives the value of the last. -/
def lastOf (evaluate : Command → Shared → Evaluation Value) :
    List Command → Shared → Evaluation Value
  | [], s => give .undefined s
  | [stmt], s => evaluate stmt s
  | stmt :: stmts, s => (evaluate stmt s).andThen fun _ s => lastOf evaluate stmts s

/-- Goes on by a condition. -/
def choose (mismatch : ValueType → TypeMismatch) (v : Value) (s : Shared)
    (yes no : Shared → Evaluation α) : Evaluation α :=
  match v with
  | .bool true => yes s
  | .bool false => no s
  | v => fail (.typeError (mismatch v.type)) s

/-- Evaluates a body as long as a predicate gives true, at most a number of rounds. -/
def iterate (pred body : Shared → Evaluation Value) : (rounds : Nat) → Shared → Evaluation Value
  | 0, _ => none
  | rounds + 1, s =>
    (pred s).andThen fun v s =>
      choose .loopCondition v s
        (fun s => (body s).andThen fun _ s => iterate pred body rounds s)
        (fun s => give .undefined s)

/-- Gives a name a value. -/
def assignTo (env : Env) (sym : String) (v : Value) (s : Shared) : Evaluation Value :=
  match s.store.assign env sym v with
  | .ok store => give v { s with store }
  | .error e => fail (.ofScope e) s

/-- Makes a closure. -/
def close (params : List String) (body : Command) (env : Env) (s : Shared) : Evaluation Value :=
  let (closure, store) := s.store.newClosure params body env
  give (.closure closure) { s with store }

/-- Binds names to values in a new scope and goes on in it. -/
def inScope (env : Env) (names : List String) (values : List Value) (s : Shared)
    (next : Env → Shared → Evaluation Value) : Evaluation Value :=
  match s.store.extend env names values with
  | .ok (inner, store) => next inner { s with store }
  | .error e => fail (.ofScope e) s

/-- The reply of a built-in function. One that puts its caller to sleep has no value: there is
nobody to wake it. -/
def ofReply : Native.Reply → Evaluation Value
  | .value v s => give v s
  | .fault e s => fail e s
  | .asleep s => fail (.deadlock s.group.counter) s

/-- Calls a value. The body of a closure is evaluated in the environment of the closure, extended
by its parameters. -/
def apply (evaluate : Env → Command → Shared → Evaluation Value) (callee : Value)
    (args : List Value)
    (s : Shared) : Evaluation Value :=
  match callee with
  | .closure c => inScope c.env c.params args s fun inner s => (evaluate inner c.body s).asCall
  | .builtin b => ofReply (Native.invoke .main s b args)
  | v => fail (.typeError (.callee v.type)) s

/-- The element of an array at a position. -/
def element (array position : Value) (s : Shared) : Evaluation Value :=
  match Machine.access s.store array position with
  | .ok (ref, n) => give ((s.store.element? ref n).getD .undefined) s
  | .error e => fail e s

/-- Replaces the element of an array at a position. -/
def setElement (array position v : Value) (s : Shared) : Evaluation Value :=
  match Machine.access s.store array position with
  | .ok (ref, n) => give v { s with store := s.store.setElement ref n v }
  | .error e => fail e s

end Evaluation

namespace Command

open Evaluation

/-- Evaluates a command in an environment, following calls and loops to a given depth. -/
def evaluate : (depth : Nat) → Env → Command → Shared → Evaluation Value
  | 0, _, _, _ => none
  | depth + 1, env, c, s =>
    match c with
    | .lit l => give (.ofLiteral l) s
    | .name sym => ofExcept ((s.store.lookup env sym).mapError .ofScope) s
    | .lambda params body => close params body env s
    | .unary op a => (evaluate depth env a s).andThen fun v s => ofExcept (op.apply v) s
    | .binary op a b =>
      (evaluate depth env a s).andThen fun v s =>
        (evaluate depth env b s).andThen fun w s => ofExcept (op.apply s.store v w) s
    | .logical .and a b =>
      (evaluate depth env a s).andThen fun v s =>
        choose .condition v s (evaluate depth env b) (give (.bool false))
    | .logical .or a b =>
      (evaluate depth env a s).andThen fun v s =>
        choose .condition v s (give (.bool true)) (evaluate depth env b)
    | .conditional a b c =>
      (evaluate depth env a s).andThen fun v s =>
        choose .condition v s (evaluate depth env b) (evaluate depth env c)
    | .branch a b alt =>
      (evaluate depth env a s).andThen fun v s =>
        choose .condition v s (evaluate depth env b) fun s =>
          match alt with
          | some c => evaluate depth env c s
          | none => give .undefined s
    | .call callee args =>
      (evaluate depth env callee s).andThen fun f s =>
        (inOrder (evaluate depth env) args s).andThen fun vs s => apply (evaluate depth) f vs s
    | .lengthOf a =>
      (evaluate depth env (.name "array_length") s).andThen fun f s =>
        (evaluate depth env a s).andThen fun v s => apply (evaluate depth) f [v] s
    | .assign sym a => (evaluate depth env a s).andThen fun v s => assignTo env sym v s
    | .declare _ sym a =>
      (evaluate depth env a s).andThen fun v s =>
        (assignTo env sym v s).andThen fun _ s => give .undefined s
    | .function sym params body =>
      (close (params.map (·.name)) body env s).andThen fun v s =>
        (assignTo env sym v s).andThen fun _ s => give .undefined s
    | .arrayOf elements =>
      (inOrder (evaluate depth env) elements s).andThen fun vs s =>
        let (ref, store) := s.store.newArray vs.toArray
        give (.array ref) { s with store }
    | .index a i =>
      (evaluate depth env a s).andThen fun v s =>
        (evaluate depth env i s).andThen fun w s => element v w s
    | .indexAssign a i e =>
      (evaluate depth env a s).andThen fun v s =>
        (evaluate depth env i s).andThen fun w s =>
          (evaluate depth env e s).andThen fun x s => setElement v w x s
    | .seq stmts => lastOf (evaluate depth env) stmts s
    | .block body =>
      inScope env body.locals (body.locals.map fun _ => .unassigned) s fun inner s =>
        evaluate depth inner body s
    | .ret a => (evaluate depth env a s).andThen fun v s => some (.returned v, s)
    | .loop _ pred body => iterate (evaluate depth env pred) (evaluate depth env body) depth s
    | .attempt body sym handler =>
      (evaluate depth env body s).orHandle fun v s =>
        inScope env [sym] [v] s fun inner s => evaluate depth inner handler s
    | .throw a => (evaluate depth env a s).andThen fun v s => some (.thrown v, s)
    | .go _ _ => fail (.unknownInstruction c.tag) s
    | .unrecognized => fail (.unknownInstruction c.tag) s

end Command

/-! ## Values -/

namespace Evaluation

variable {α β : Type}

/-- A value comes of values only. -/
theorem andThen_eq_value {r : Evaluation α} {next : α → Shared → Evaluation β} {b : β} {s' : Shared}
    (gives : r.andThen next = some (.value b, s')) :
    ∃ a s, r = some (.value a, s) ∧ next a s = some (.value b, s') := by
  rcases r with _ | ⟨a | v | v | e, s⟩
  · cases gives
  · exact ⟨a, s, rfl, gives⟩
  · cases gives
  · cases gives
  · cases gives

/-- There is a value for each operand. -/
theorem length_of_inOrder {evaluate : Command → Shared → Evaluation Value} {cs : List Command}
    {vs : List Value} {s s' : Shared} (gives : inOrder evaluate cs s = some (.value vs, s')) :
    vs.length = cs.length := by
  induction cs generalizing vs s with
  | nil =>
    cases gives
    rfl
  | cons c cs ih =>
    obtain ⟨v, s₁, -, gives⟩ := andThen_eq_value gives
    obtain ⟨ws, s₂, rest, gives⟩ := andThen_eq_value gives
    cases gives
    rw [List.length_cons, List.length_cons, ih rest]

end Evaluation

/-! ## Returns -/

namespace Evaluation

variable {α β : Type}

/-- An evaluation is not left by a return. -/
def NoReturn (r : Evaluation α) : Prop :=
  ∀ v s, r ≠ some (.returned v, s)

theorem noReturn_none : NoReturn (none : Evaluation α) := by
  intro v s eq
  cases eq

theorem noReturn_give (a : α) (s : Shared) : (give a s).NoReturn := by
  intro v s eq
  cases eq

theorem noReturn_thrown (v : Value) (s : Shared) :
    NoReturn (some (.thrown v, s) : Evaluation α) := by
  intro v s eq
  cases eq

theorem noReturn_fail (e : Fault) (s : Shared) : (fail e s : Evaluation α).NoReturn := by
  intro v s eq
  cases eq

theorem noReturn_ofExcept (r : Except Fault α) (s : Shared) : (ofExcept r s).NoReturn := by
  cases r with
  | ok a => exact noReturn_give a s
  | error e => exact noReturn_fail e s

theorem NoReturn.andThen {r : Evaluation α} {next : α → Shared → Evaluation β} (first : r.NoReturn)
    (later : ∀ a s, (next a s).NoReturn) : (r.andThen next).NoReturn := by
  rcases r with _ | ⟨_ | _ | _ | e, s⟩
  · exact noReturn_none
  · exact later _ s
  · exact absurd rfl (first _ s)
  · exact noReturn_thrown _ s
  · exact noReturn_fail e s

theorem noReturn_choose {mismatch : ValueType → TypeMismatch} {v : Value} {s : Shared}
    {yes no : Shared → Evaluation α} (onYes : ∀ s, (yes s).NoReturn) (onNo : ∀ s, (no s).NoReturn) :
    (choose mismatch v s yes no).NoReturn := by
  unfold choose
  split
  · exact onYes s
  · exact onNo s
  · exact noReturn_fail _ s

theorem noReturn_inOrder {evaluate : Command → Shared → Evaluation Value} {cs : List Command}
    (each : ∀ c ∈ cs, ∀ s, (evaluate c s).NoReturn) (s : Shared) :
    (inOrder evaluate cs s).NoReturn := by
  induction cs generalizing s with
  | nil => exact noReturn_give _ s
  | cons c cs ih =>
    rw [List.forall_mem_cons] at each
    exact (each.1 s).andThen fun v s => (ih each.2 s).andThen fun vs s => noReturn_give _ s

theorem noReturn_lastOf {evaluate : Command → Shared → Evaluation Value} {stmts : List Command}
    (each : ∀ c ∈ stmts, ∀ s, (evaluate c s).NoReturn) (s : Shared) :
    (lastOf evaluate stmts s).NoReturn := by
  fun_induction lastOf evaluate stmts s with
  | case1 s => exact noReturn_give _ s
  | case2 stmt s => exact each stmt List.mem_cons_self s
  | case3 stmt stmts s _ ih =>
    rw [List.forall_mem_cons] at each
    exact (each.1 s).andThen fun v s => ih s each.2

theorem noReturn_iterate {pred body : Shared → Evaluation Value} (predNone : ∀ s, (pred s).NoReturn)
    (bodyNone : ∀ s, (body s).NoReturn) (rounds : Nat) (s : Shared) :
    (iterate pred body rounds s).NoReturn := by
  induction rounds generalizing s with
  | zero => exact noReturn_none
  | succ rounds ih =>
    exact (predNone s).andThen fun v s => noReturn_choose
      (fun s => (bodyNone s).andThen fun _ s => ih s) (fun s => noReturn_give _ s)

theorem noReturn_assignTo (env : Env) (sym : String) (v : Value) (s : Shared) :
    (assignTo env sym v s).NoReturn := by
  unfold assignTo
  split
  · exact noReturn_give _ _
  · exact noReturn_fail _ s

theorem noReturn_element (array position : Value) (s : Shared) :
    (element array position s).NoReturn := by
  unfold element
  split
  · exact noReturn_give _ s
  · exact noReturn_fail _ s

theorem noReturn_setElement (array position v : Value) (s : Shared) :
    (setElement array position v s).NoReturn := by
  unfold setElement
  split
  · exact noReturn_give _ _
  · exact noReturn_fail _ s

theorem noReturn_inScope {env : Env} {names : List String} {values : List Value} {s : Shared}
    {next : Env → Shared → Evaluation Value} (later : ∀ inner s, (next inner s).NoReturn) :
    (inScope env names values s next).NoReturn := by
  unfold inScope
  split
  · exact later _ _
  · exact noReturn_fail _ s

/-- No return leaves a call. -/
theorem noReturn_apply (evaluate : Env → Command → Shared → Evaluation Value) (callee : Value)
    (args : List Value) (s : Shared) : (apply evaluate callee args s).NoReturn := by
  unfold apply
  split
  · refine noReturn_inScope fun inner s => ?_
    rcases evaluate inner _ s with _ | ⟨v | v | v | e, s⟩
    · exact noReturn_none
    · exact noReturn_give v s
    · exact noReturn_give v s
    · exact noReturn_thrown v s
    · exact noReturn_fail e s
  · next b =>
    rcases Native.invoke .main s b args with ⟨v, s⟩ | ⟨e, s⟩ | s
    · exact noReturn_give v s
    · exact noReturn_fail e s
    · exact noReturn_fail _ s
  · exact noReturn_fail _ s

theorem NoReturn.orHandle {r : Evaluation Value} {handler : Value → Shared → Evaluation Value}
    (body : r.NoReturn) (later : ∀ v s, (handler v s).NoReturn) :
    (r.orHandle handler).NoReturn := by
  rcases r with _ | ⟨_ | _ | _ | e, s⟩
  · exact noReturn_none
  · exact noReturn_give _ s
  · exact absurd rfl (body _ s)
  · exact later _ s
  · exact noReturn_fail e s

end Evaluation

namespace Command

open Evaluation

theorem escapes_of_escapesAny {c : Command} {cs : List Command} (none : escapesAny cs = false)
    (member : c ∈ cs) : c.escapes = false := by
  cases leaves : c.escapes with
  | false => rfl
  | true =>
    rw [escapes_of_mem member leaves] at none
    cases none

/-- A command is left by a return only if it has one. -/
theorem noReturn_evaluate (depth : Nat) (env : Env) (c : Command) (s : Shared)
    (none : c.escapes = false) : (c.evaluate depth env s).NoReturn := by
  induction depth generalizing env c s with
  | zero => exact noReturn_none
  | succ depth ih =>
    cases c
    case lit | lambda => exact noReturn_give _ _
    case go | unrecognized => exact noReturn_fail _ s
    case ret => cases none
    case name => exact noReturn_ofExcept _ s
    case function =>
      exact (noReturn_give _ _).andThen fun v s =>
        (noReturn_assignTo env _ v s).andThen fun _ s => noReturn_give _ s
    all_goals simp only [escapes, Bool.or_eq_false_iff] at none
    case unary =>
      exact (ih env _ s none).andThen fun v s => noReturn_ofExcept _ s
    case binary =>
      exact (ih env _ s none.1).andThen fun v s =>
        (ih env _ s none.2).andThen fun w s => noReturn_ofExcept _ s
    case logical op a b =>
      cases op
      · exact (ih env _ s none.1).andThen fun v s =>
          noReturn_choose (fun s => ih env _ s none.2) (noReturn_give _)
      · exact (ih env _ s none.1).andThen fun v s =>
          noReturn_choose (noReturn_give _) (fun s => ih env _ s none.2)
    case conditional =>
      exact (ih env _ s none.1.1).andThen fun v s =>
        noReturn_choose (fun s => ih env _ s none.1.2) (fun s => ih env _ s none.2)
    case branch a b alt =>
      refine (ih env _ s none.1.1).andThen fun v s =>
        noReturn_choose (fun s => ih env _ s none.1.2) fun s => ?_
      cases alt with
      | none => exact noReturn_give _ s
      | some c => exact ih env c s none.2
    case call callee args =>
      have operands : ∀ c ∈ args, ∀ s, (c.evaluate depth env s).NoReturn := fun c member s =>
        ih env c s (escapes_of_escapesAny none.2 member)
      exact (ih env _ s none.1).andThen fun f s =>
        (noReturn_inOrder operands s).andThen fun vs s => noReturn_apply _ f vs s
    case lengthOf =>
      exact (ih env _ s rfl).andThen fun f s =>
        (ih env _ s none).andThen fun v s => noReturn_apply _ f [v] s
    case assign =>
      exact (ih env _ s none).andThen fun v s => noReturn_assignTo env _ v s
    case declare =>
      exact (ih env _ s none).andThen fun v s =>
        (noReturn_assignTo env _ v s).andThen fun _ s => noReturn_give _ s
    case arrayOf elements =>
      have operands : ∀ c ∈ elements, ∀ s, (c.evaluate depth env s).NoReturn := fun c member s =>
        ih env c s (escapes_of_escapesAny none member)
      exact (noReturn_inOrder operands s).andThen fun vs s => noReturn_give _ _
    case index =>
      exact (ih env _ s none.1).andThen fun v s =>
        (ih env _ s none.2).andThen fun w s => noReturn_element v w s
    case indexAssign =>
      exact (ih env _ s none.1.1).andThen fun v s =>
        (ih env _ s none.1.2).andThen fun w s =>
          (ih env _ s none.2).andThen fun x s => noReturn_setElement v w x s
    case seq stmts =>
      exact noReturn_lastOf (fun c member s => ih env c s (escapes_of_escapesAny none member)) s
    case block => exact noReturn_inScope fun inner s => ih inner _ s none
    case loop =>
      exact noReturn_iterate (fun s => ih env _ s none.1) (fun s => ih env _ s none.2) depth s
    case attempt =>
      exact (ih env _ s none.1).orHandle fun v s =>
        noReturn_inScope fun inner s => ih inner _ s none.2
    case throw => exact (ih env _ s none).andThen fun v s => noReturn_thrown v s

theorem noReturn_inOrder {depth : Nat} {env : Env} {cs : List Command}
    (none : escapesAny cs = false)
    (s : Shared) : (inOrder (evaluate depth env) cs s).NoReturn :=
  Evaluation.noReturn_inOrder
    (fun c member s => noReturn_evaluate depth env c s (escapes_of_escapesAny none member)) s

end Command

/-- The result of a program whose body completes: a return that leaves the outermost scope gives its
value, and a throw that leaves it is a fault. -/
def Completion.result (s : Shared) : Completion Value → Except Fault Value
  | .value v => .ok v
  | .returned v => .ok v
  | .thrown v => .error (.uncaughtThrow (s.store.display v))
  | .failed e => .error e

/-- Evaluates a program to a given depth. -/
def Program.evaluate (p : Program) (depth : Nat) : Option (Except Fault Value × Shared) :=
  (p.body.evaluate depth p.globals.1 p.shared).map fun (completion, s) => (completion.result s, s)

end ControlStash
