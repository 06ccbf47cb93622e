import ControlStash.Proofs.Sharing
import ControlStash.Proofs.TailCall

/-!
# Names of built-in functions

The built-in functions are bound in the outermost frame, where every program finds them and any
program may bind their names anew. The length of an array is spelled out as a call of one of them,
by its name, and this name is looked up in the environment of the node.

* A program that spares the name of a built-in function neither binds it nor assigns to it. Then no
  context of its run ever reads it as anything else (`lookup_reserved`): `reservation` is the
  discipline that says so of all frames and of all environments that a context can come to.
* Of any other program one can only say that the length of an array is what a call of the value of
  the name gives (`lengthOf_calls_bound`). A program that declares a function of the name gets the
  value of this function (`lengthOf_calls_bound_captured`).
-/

namespace ControlStash

open Machine (of)

/-! ## Programs that spare a name -/

namespace Command

/-- Whether a node neither binds a name nor assigns to it. -/
def spares (sym : String) : Command → Bool
  | .function x params _ => x != sym && !(params.map (·.name)).contains sym
  | .lambda params _ => !params.contains sym
  | .assign x _ => x != sym
  | .declare _ x _ => x != sym
  | .attempt _ x _ => x != sym
  | _ => true

/-- No node of the tree binds a name or assigns to it. -/
def Spares (sym : String) (c : Command) : Prop :=
  c.everywhere (spares sym) = true

instance (sym : String) (c : Command) : Decidable (c.Spares sym) :=
  inferInstanceAs (Decidable (_ = _))

theorem heritable_spares (sym : String) : Heritable (spares sym) :=
  ⟨fun _ => rfl, fun _ _ _ spared => Bool.and_eq_true_iff.mp spared, fun _ _ _ => rfl,
    fun _ _ _ => rfl, fun _ _ => ⟨rfl, rfl⟩⟩

variable {sym : String} {c : Command}

theorem spares_body (spared : (Command.block c).Spares sym) : c.Spares sym := by
  simp only [Spares, everywhere, Bool.and_eq_true] at spared
  exact spared.2

/-- A command that declares a name does not spare it. -/
theorem Spares.not_scans {path : List Nat} {x : String} (spared : c.Spares sym)
    (scans : Scans c path x) : x ≠ sym := by
  induction scans with
  | declare => exact bne_iff_ne.mp (root_of_everywhere spared)
  | function => exact bne_iff_ne.mp (Bool.and_eq_true_iff.mp (root_of_everywhere spared)).1
  | @seq stmts i c path x found scans ih =>
    simp only [Spares, everywhere, Bool.and_eq_true, everywhereAll_iff] at spared
    exact ih (spared.2 c (List.mem_of_getElem? found))

theorem Spares.not_mem_locals (spared : c.Spares sym) : sym ∉ c.locals := by
  intro member
  obtain ⟨path, scans⟩ := mem_locals.mp member
  exact spared.not_scans scans rfl

end Command

/-! ## Reserved names -/

/-- The outermost frame, which binds the built-in functions. -/
def FrameRef.outermost : FrameRef := ⟨0⟩

/-- An environment goes back to the outermost frame. -/
def Env.Rooted (env : Env) : Prop :=
  FrameRef.outermost ∈ env.frames

/-- The name of a built-in function is bound to it in the outermost frame, and in no other. -/
structure Store.Reserves (native : Native) (store : Store) : Prop where
  bound : store.inFrame? .outermost native.name = some native.value
  once : ∀ ref, ref ≠ .outermost → store.inFrame? ref native.name = none

/-- A call of a value binds nothing to a name, and goes on in a rooted environment. -/
def Value.Spares (sym : String) : Value → Prop
  | .closure c => sym ∉ c.params ∧ c.env.Rooted
  | _ => True

/-- An item neither binds a name nor assigns to it, and goes back to rooted environments only. -/
def Item.Spares (sym : String) : Item → Prop
  | .instruction (.assign x) => x ≠ sym
  | .instruction (.restore env) => env.Rooted
  | .instruction (.catch x _ env _) => x ≠ sym ∧ env.Rooted
  | _ => True

/-- What a machine holds spares a name, and its environment is rooted. -/
structure Machine.Spares (sym : String) (m : Machine) : Prop where
  rooted : m.env.Rooted
  items : ∀ item ∈ m.control.toList, item.Spares sym
  values : ∀ v ∈ m.stash.toList, v.Spares sym

/-- The discipline of a run that spares the name of a built-in function. -/
def reservation (native : Native) : Discipline where
  store store := store.Holds (Value.Holds (Command.spares native.name)) ∧
    store.Holds (Value.Spares native.name) ∧ store.Reserves native
  machine m := m.Holds (Command.spares native.name) ∧ m.Spares native.name
  task
    | .body c env => c.Spares native.name ∧ env.Rooted
    | .builtin _ _ => True
  fault _ := True

theorem Value.spares_of_isScalar {sym : String} {v : Value} (scalar : v.isScalar = true) :
    v.Spares sym := by
  cases v <;> trivial

namespace Store

variable {native : Native} {store store' : Store} {env inner : Env} {sym x : String} {v : Value}

/-- A frame that does not bind a name is not there for it. -/
theorem inFrame?_pushFrame_of_unbound {frame : Frame} (unbound : frame.find? x = none) (env : Env)
    (ref : FrameRef) : (store.pushFrame frame env).2.inFrame? ref x = store.inFrame? ref x := by
  rcases Nat.lt_trichotomy ref.index store.frames.size with old | new | beyond
  · exact inFrame?_pushFrame frame env old
  · simp [inFrame?, pushFrame, new, unbound]
  · have nowhere : (store.frames.push frame)[ref.index]? = none := by
      simpa using Nat.succ_le_of_lt beyond
    simp [inFrame?, pushFrame, nowhere, Nat.le_of_lt beyond]

theorem Reserves.congr (reserves : store.Reserves native)
    (same : ∀ ref, store'.inFrame? ref native.name = store.inFrame? ref native.name) :
    store'.Reserves native :=
  ⟨(same _).trans reserves.bound, fun ref other => (same ref).trans (reserves.once ref other)⟩

theorem Reserves.of_frames_eq (reserves : store.Reserves native)
    (same : store'.frames = store.frames) : store'.Reserves native :=
  reserves.congr fun ref => by rw [inFrame?, inFrame?, same]

/-- A new frame keeps a name reserved that it does not bind, and goes in front of an environment. -/
theorem Reserves.extend {names : List String} {values : List Value}
    (reserves : store.Reserves native) (rooted : env.Rooted) (spared : native.name ∉ names)
    (extended : store.extend env names values = .ok (inner, store')) :
    inner.Rooted ∧ store'.Reserves native := by
  rw [extend_eq] at extended
  split at extended
  · cases extended
    have unbound := Frame.find?_ofBindings_zip_of_not_mem spared values
    exact ⟨List.mem_cons_of_mem _ rooted,
      reserves.congr (inFrame?_pushFrame_of_unbound unbound env)⟩
  · cases extended

theorem Reserves.assign (reserves : store.Reserves native) (spared : x ≠ native.name)
    (assigned : store.assign env x v = .ok store') : store'.Reserves native := by
  rw [assign_eq] at assigned
  split at assigned
  · next ref first =>
    cases assigned
    refine reserves.congr fun other => ?_
    rw [inFrame?_setInFrame (bound_of_firstBinder? first), if_neg]
    exact fun same => spared same.2.symm
  · cases assigned

/-- A reserved name is read as the built-in function wherever it is looked up. -/
theorem Reserves.lookup (reserves : store.Reserves native) (rooted : env.Rooted) :
    store.lookup env native.name = .ok native.value := by
  have resolved : ∀ refs, FrameRef.outermost ∈ refs →
      store.resolve? native.name refs = some (.outermost, native.value) := by
    intro refs member
    induction refs with
    | nil => cases member
    | cons ref refs ih =>
      rw [resolve?]
      by_cases here : ref = .outermost
      · rw [here, reserves.bound]
      · rw [reserves.once ref here]
        exact ih ((List.mem_cons.mp member).resolve_left (Ne.symm here))
  rw [Store.lookup_of_resolve? (resolved _ rooted)]
  rfl

end Store

namespace Command

variable {sym : String} {env : Env}

theorem spares_sequencePlan (stmts : List Command) :
    ∀ item ∈ sequencePlan stmts, item.Spares sym := by
  fun_induction sequencePlan stmts with
  | case1 => simp [Item.Spares]
  | case2 stmt => simp [Item.Spares]
  | case3 stmt stmts _ ih =>
    exact List.forall_mem_cons.mpr ⟨trivial, List.forall_mem_cons.mpr ⟨trivial, ih⟩⟩

theorem spares_operands (cs : List Command) {last : Instruction}
    (spared : (Item.instruction last).Spares sym) :
    ∀ item ∈ cs.map Item.command ++ [.instruction last], item.Spares sym := by
  intro item member
  rcases List.mem_append.mp member with operand | rest
  · obtain ⟨c, -, rfl⟩ := List.mem_map.mp operand
    trivial
  · rw [List.mem_singleton.mp rest]
    exact spared

/-- The items of a plan spare a name that the command spares. -/
theorem spares_plan {c : Command} (spared : c.Spares sym) (rooted : env.Rooted) (height : Nat) :
    ∀ item ∈ c.plan env height, item.Spares sym := by
  have root := root_of_everywhere spared
  cases c
  case seq stmts => exact spares_sequencePlan stmts
  case call callee args => exact spares_operands (callee :: args) trivial
  case go callee args => exact spares_operands (callee :: args) trivial
  case arrayOf elements => exact spares_operands elements trivial
  case logical op a b => cases op <;> simp [plan, Item.Spares]
  case assign x a => simpa [plan, Item.Spares, spares] using root
  case declare form x a => simpa [plan, Item.Spares, spares] using root
  case attempt body x handler => simpa [plan, Item.Spares, spares, rooted] using root
  all_goals simp [plan, Item.Spares]

end Command

section Reservation

variable {native : Native} {protocol : CallProtocol} {globals : Env} {role : Role} {m : Machine}
  {s : Shared} {o : Outcome}

/-- A move keeps a name reserved that the commands spare. -/
theorem Move.reserves (outer : globals.Rooted) (machine : (reservation native).machine m)
    (store : (reservation native).store s.store) (move : Move protocol globals role m s o) :
    (reservation native).Outcome o := by
  obtain ⟨holds, rooted, items, values⟩ := machine
  have ⟨held, spared, reserved⟩ := store
  have after : o.Holds (Command.spares native.name) :=
    move.holds (Command.heritable_spares _) holds held
  obtain ⟨nodes, -⟩ := holds
  have scalar : ∀ v : Value, v.isScalar = true → v.Spares native.name :=
    fun v => Value.spares_of_isScalar
  cases move
  all_goals
    simp only [Machine.toList_control_of, Machine.toList_stash_of, List.forall_mem_cons,
      List.forall_mem_append, List.mem_reverse] at items values nodes
  case lit l K S env k =>
    have literal := scalar (.ofLiteral l) (by cases l <;> rfl)
    exact ⟨⟨after.1, rooted, items.2, List.forall_mem_cons.mpr ⟨literal, values⟩⟩, store⟩
  case name found =>
    exact ⟨⟨after.1, rooted, items.2, List.forall_mem_cons.mpr ⟨spared.lookup found, values⟩⟩,
      store⟩
  case lambda params body K S env k =>
    have free : (!params.contains native.name) = true := Command.root_of_everywhere nodes.1
    have closure : native.name ∉ params := by simpa using free
    exact ⟨⟨after.1, rooted, items.2, List.forall_mem_cons.mpr ⟨⟨closure, rooted⟩, values⟩⟩,
      after.2, spared.newClosure params body env, reserved.of_frames_eq rfl⟩
  case plan c K S env k planned =>
    have plan := Command.spares_plan nodes.1 rooted S.length
    exact ⟨⟨after.1, rooted, List.forall_mem_append.mpr ⟨plan, items.2⟩, values⟩, store⟩
  case block body inner store' K S env k extended =>
    have locals := Command.Spares.not_mem_locals (Command.spares_body nodes.1)
    obtain ⟨inside, kept⟩ := reserved.extend rooted locals extended
    refine ⟨⟨after.1, inside, List.forall_mem_cons.mpr ⟨trivial, fun item member => ?_⟩, values⟩,
      after.2, spared.extend (fun v member => ?_) extended, kept⟩
    · rcases Machine.mem_underBlock member with old | rfl
      · exact items.2 item old
      · exact rooted
    · obtain ⟨_, _, rfl⟩ := List.mem_map.mp member
      trivial
  case unary applied =>
    have result := scalar _ (UnaryOp.isScalar_apply applied)
    exact ⟨⟨after.1, rooted, items.2, List.forall_mem_cons.mpr ⟨result, values.2⟩⟩, store⟩
  case binary applied =>
    have result := scalar _ (BinaryOp.isScalar_apply applied)
    exact ⟨⟨after.1, rooted, items.2, List.forall_mem_cons.mpr ⟨result, values.2.2⟩⟩, store⟩
  case pop | loopDone => exact ⟨⟨after.1, rooted, items.2, values.2⟩, store⟩
  case assign assigned =>
    exact ⟨⟨after.1, rooted, items.2, List.forall_mem_cons.mpr values⟩, after.2,
      spared.assign values.1 assigned, reserved.assign items.1 assigned⟩
  case native arity b args v s' K S env k length reply =>
    have result := scalar _ (Native.isScalar_of_invoke reply)
    have same := Native.store_invoke role s b args
    rw [reply] at same
    refine ⟨⟨after.1, rooted, items.2, List.forall_mem_cons.mpr ⟨result, values.2.2⟩⟩, ?_⟩
    rw [show s'.store = s.store from same]
    exact store
  case sleep arity b args s' K S env k length reply =>
    have same := Native.store_invoke role s b args
    rw [reply] at same
    refine ⟨⟨after.1, rooted, items.2, List.forall_mem_cons.mpr ⟨trivial, values.2.2⟩⟩, ?_⟩
    rw [show s'.store = s.store from same]
    exact store
  case call arity c args inner store' K S env k length extended =>
    obtain ⟨params, closure⟩ := values.2.1
    obtain ⟨inside, kept⟩ := reserved.extend closure params extended
    refine ⟨⟨after.1, inside, List.forall_mem_cons.mpr ⟨trivial, fun item member => ?_⟩,
      values.2.2⟩, after.2, spared.extend values.1 extended, kept⟩
    rcases Machine.mem_underBody member with old | rfl | rfl
    · exact items.2 item old
    · trivial
    · exact rooted
  case branchTrue | branchFalse =>
    exact ⟨⟨after.1, rooted, List.forall_mem_cons.mpr ⟨trivial, items.2⟩, values.2⟩, store⟩
  case branchNone =>
    exact ⟨⟨after.1, rooted, items.2, List.forall_mem_cons.mpr ⟨trivial, values.2⟩⟩, store⟩
  case loopAgain =>
    refine ⟨⟨after.1, rooted, ?_, values.2⟩, store⟩
    simp only [Machine.toList_control_of, List.forall_mem_cons]
    exact ⟨trivial, trivial, trivial, items⟩
  case restore => exact ⟨⟨after.1, items.1, items.2, values⟩, store⟩
  case mark | pass => exact ⟨⟨after.1, rooted, items.2, values⟩, store⟩
  case makeArray arity K S env k elements length =>
    refine ⟨⟨after.1, rooted, items.2, List.forall_mem_cons.mpr ⟨trivial, values.2⟩⟩, after.2,
      spared.newArray fun v member => ?_, reserved.of_frames_eq rfl⟩
    exact values.1 v (List.mem_toArray.mp member)
  case index element =>
    exact ⟨⟨after.1, rooted, items.2,
      List.forall_mem_cons.mpr ⟨spared.held.element? element, values.2.2⟩⟩, store⟩
  case indexAssign =>
    exact ⟨⟨after.1, rooted, items.2, List.forall_mem_cons.mpr ⟨values.1, values.2.2.2⟩⟩, after.2,
      spared.setElement values.1, reserved.of_frames_eq rfl⟩
  case resetEmpty => exact ⟨⟨after.1, rooted, items.2, values⟩, store⟩
  case resetMark => exact ⟨⟨after.1, rooted, items.2.2, values⟩, store⟩
  case resetDiscard | throwDiscard =>
    exact ⟨⟨after.1, rooted, List.forall_mem_cons.mpr ⟨trivial, items.2.2⟩, values⟩, store⟩
  case caught sym handler e height inner store' v K S env k extended =>
    obtain ⟨-, ⟨other, outside⟩, below⟩ := items
    obtain ⟨inside, kept⟩ := reserved.extend outside (by simpa using other.symm) extended
    refine ⟨⟨after.1, inside, ?_, fun w member => values.2 w (List.mem_of_mem_drop member)⟩,
      after.2, spared.extend (List.forall_mem_singleton.mpr values.1) extended, kept⟩
    simp only [Machine.toList_control_of, List.forall_mem_cons]
    exact ⟨trivial, outside, below⟩
  case launch extended =>
    obtain ⟨params, -⟩ := values.2.1
    obtain ⟨inside, kept⟩ := reserved.extend outer params extended
    exact ⟨⟨after.1, inside⟩, ⟨after.2.1, rooted, items.2,
      List.forall_mem_cons.mpr ⟨trivial, values.2.2⟩⟩, after.2.2, spared.extend values.1 extended,
      kept⟩
  case launchNative =>
    exact ⟨trivial, ⟨after.2.1, rooted, items.2, List.forall_mem_cons.mpr ⟨trivial, values.2.2⟩⟩,
      store⟩

/-- Every step of a machine keeps a reserved name. -/
theorem kept_reservation {setting : Setting} (outer : setting.globals.Rooted) :
    (reservation native).Kept setting := by
  refine ⟨fun _ _ => trivial, fun c env task => ⟨⟨?_, ?_⟩, task.2, ?_, ?_⟩,
    fun role m s machine store => ?_⟩
  · exact List.forall_mem_cons.mpr ⟨task.1, List.forall_mem_singleton.mpr trivial⟩
  · exact fun _ member => absurd member List.not_mem_nil
  · exact List.forall_mem_cons.mpr ⟨trivial, List.forall_mem_singleton.mpr trivial⟩
  · exact fun _ member => absurd member List.not_mem_nil
  rcases Machine.advance_cases setting role m s with move | ⟨result, m', s', stops, -, kept⟩
  · exact move.reserves outer machine store
  · rw [stops]
    refine ⟨by cases result <;> trivial, ?_⟩
    rcases kept with same | ⟨c, args, inner, callee, taken, extended⟩
    · show (reservation native).store s'.store
      rw [same]
      exact store
    · have ⟨params, closure⟩ := machine.2.values _ callee
      exact ⟨store.1.extend (fun v member => machine.1.values v (taken v member)) extended,
        store.2.1.extend (fun v member => machine.2.values v (taken v member)) extended,
        (store.2.2.extend closure params extended).2⟩

/-- Every built-in function is bound in the outermost frame, once. -/
theorem reserves_bindings : ((default : Store).root Native.bindings).2.Reserves native := by
  refine ⟨by cases native <;> rfl, fun ref other => ?_⟩
  rcases ref with ⟨_ | index⟩
  · exact absurd rfl other
  · simp [Store.inFrame?, Store.root, Store.pushFrame, default]

theorem rooted_globals (program : Program) : program.globals.1.Rooted :=
  List.mem_cons_of_mem _ List.mem_cons_self

theorem reservation_initial {program : Program} (spared : program.body.Spares native.name) :
    (reservation native).World program.initial := by
  have unbound : (Frame.ofBindings (program.body.locals.map (·, Value.unassigned))).find?
      native.name = none := by
    rw [Frame.find?_eq_none_iff, Frame.mem_names_ofBindings, List.map_map]
    simpa using spared.not_mem_locals
  have reserved : program.globals.2.Reserves native :=
    reserves_bindings.congr (Store.inFrame?_pushFrame_of_unbound unbound _)
  refine ⟨⟨Program.holds_start spared, rooted_globals program, ?_, ?_⟩, ⟨program.holds_globals,
    program.globals_hold (fun _ => trivial) trivial, reserved⟩, ?_, ?_⟩
  · exact List.forall_mem_singleton.mpr trivial
  · exact fun _ member => absurd member List.not_mem_nil
  · exact fun _ member => absurd member (Array.not_mem_empty _)
  · exact fun _ member => absurd member (Array.not_mem_empty _)

/-- If a program spares the name of a built-in function, then the name is reserved in every
reachable world. -/
theorem reservation_reachable {program : Program} {limits : Limits} {w : World}
    (spared : program.body.Spares native.name)
    (reachable : World.Reachable (program.setting limits) program.initial w) :
    (reservation native).World w :=
  (kept_reservation (rooted_globals program)).reachable (reservation_initial spared) reachable

/-- In a program that spares the name of a built-in function, every context reads the name as this
function, whatever it is doing and whatever the others do. -/
theorem lookup_reserved {program : Program} {limits : Limits} {w : World} {context : Context}
    (spared : program.body.Spares native.name)
    (reachable : World.Reachable (program.setting limits) program.initial w)
    (held : w.held? context = some m) :
    w.commons.shared.store.lookup m.env native.name = .ok native.value := by
  have reserved := reservation_reachable spared reachable
  exact reserved.commons.store.2.2.lookup (reserved.held? held).2.rooted

end Reservation

/-! ## The length of an array -/

section Length

variable {setting : Setting} {role : Role} {context : Context} {m n n' : Machine} {s : Shared}
  {w w' : World} {e : Command} {K : List Item} {S : List Value} {env : Env} {k : Nat}
  {strict : Bool} {read read' : Value → Prop}

namespace Machine

theorem Goes.of_plan {c : Command} (planned : c.isPlanned = true)
    (goes : (of (.command c :: K) S env k).Goes setting role s n) :
    n = of (c.plan env S.length ++ K) S env (k + 1) := by
  obtain ⟨o, move, going⟩ := goes
  have same := move.act_eq.symm.trans (Move.plan planned).act_eq
  rw [same] at going
  exact (Option.some.inj going).symm

theorem Goes.of_name {sym : String}
    (goes : (of (.command (.name sym) :: K) S env k).Goes setting role s n) :
    ∃ v, s.store.lookup env sym = .ok v ∧ n = of K (v :: S) env (k + 1) := by
  obtain ⟨o, move, going⟩ := goes
  cases found : s.store.lookup env sym with
  | ok v =>
    have same := move.act_eq.symm.trans (Move.name found).act_eq
    rw [same] at going
    exact ⟨v, rfl, (Option.some.inj going).symm⟩
  | error e =>
    have failed := move.act_eq
    rw [act_command] at failed
    simp only [expand, env_of, found] at failed
    rw [← failed] at going
    cases going

/-- How far a context has come with the length of what `e` comes to since it was at `m`. The node
is spelled out as a call, the call schedules its operands, the name of the callee is read, and then
the call waits for the array on top of the callee. -/
inductive Measures (strict : Bool) (e : Command) (K : List Item) (m : Machine)
    (read : Value → Prop) : Machine → Prop
  | node : Measures strict e K m read m
  | call : Measures strict e K m read (of (.command (.callNamed "array_length" [e]) :: K)
      m.stash.toList m.env (m.steps + 1))
  | name : Measures strict e K m read (of (.command (.name "array_length") :: .command e ::
      .instruction (.call 1) :: K) m.stash.toList m.env (m.steps + 2))
  | operand {callee : Value} {n : Machine} : read callee → m.steps + 2 < n.steps →
    Standing strict (.instruction (.call 1) :: K) (callee :: m.stash.toList) n →
    Measures strict e K m read n

theorem Measures.mono (imp : ∀ callee, read callee → read' callee)
    (measures : Measures strict e K m read n) : Measures strict e K m read' n := by
  cases measures with
  | node => exact .node
  | call => exact .call
  | name => exact .name
  | operand callee later stands => exact .operand (imp _ callee) later stands

/-- The call of a length node stays on the control stack once it is there, which takes two steps. -/
def Awaits (m : Machine) (K : List Item) (n : Machine) : Prop :=
  m.steps + 1 < n.steps → .instruction (.call 1) :: K <:+ n.control.toList

/-- A step goes on with a length node as long as the call stays. -/
theorem Measures.goes (control : m.control.toList = .command (.lengthOf e) :: K)
    (clear : strict = true → n.Holds Command.returnsClear)
    (measures : Measures strict e K m read n) (goes : n.Goes setting role s n')
    (reads : ∀ callee, s.store.lookup m.env "array_length" = .ok callee → read callee)
    (awaits : m.Awaits K n') : Measures strict e K m read n' := by
  cases measures with
  | node =>
    rw [m.eq_of, control] at goes
    rw [goes.of_plan rfl]
    exact .call
  | call =>
    rw [goes.of_plan rfl]
    exact .name
  | name =>
    obtain ⟨callee, found, rfl⟩ := goes.of_name
    exact .operand (reads callee found) (Nat.lt_succ_self _) (standing_command e)
  | operand callee later stands =>
    obtain ⟨o, move, going⟩ := goes
    have later' := Nat.lt_trans later (move.steps_lt going)
    exact .operand callee later'
      (stands.goes rfl clear ⟨o, move, going⟩ (awaits (Nat.lt_of_succ_lt later')))

end Machine

/-- A value is what the name of the built-in function was bound to, for the environment of a length
node, at some time between two worlds. -/
def World.Reads (setting : Setting) (context : Context) (m : Machine) (K : List Item)
    (w w' : World) (callee : Value) : Prop :=
  ∃ u, World.Stretch setting context (m.Awaits K) w u ∧
    World.Stretch setting context (m.Awaits K) u w' ∧
    u.commons.shared.store.lookup m.env "array_length" = .ok callee

/-- All along a stretch in which the call of a length node stays, a context goes on with the
node. -/
theorem World.Stretch.measures (control : m.control.toList = .command (.lengthOf e) :: K)
    (clear : strict = true → ∀ v n, World.Stretch setting context (m.Awaits K) w v →
      v.held? context = some n → n.Holds Command.returnsClear)
    (held : w.held? context = some m)
    (stretch : World.Stretch setting context (m.Awaits K) w w') :
    ∃ n, w'.held? context = some n ∧
      Machine.Measures strict e K m (World.Reads setting context m K w w') n := by
  induction stretch with
  | refl => exact ⟨m, held, .node⟩
  | @tail v v' before next ih =>
    obtain ⟨n, held, measures⟩ := ih
    have ⟨action, n', held', awaits⟩ := next
    have measures : Machine.Measures strict e K m (World.Reads setting context m K w v') n :=
      measures.mono fun callee ⟨u, upTo, onward, found⟩ => ⟨u, upTo, onward.tail next, found⟩
    refine ⟨n', held', ?_⟩
    rcases action.held? held held' with rfl | goes
    · exact measures
    · exact measures.goes control (fun tight => clear tight v n before held) goes
        (fun callee found => ⟨v, before, .single next, found⟩) awaits

/-- The built-in function answers with the number of elements of the array. -/
theorem Machine.advance_arrayLength {ref : ArrayRef}
    (control : m.control.toList = .instruction (.call 1) :: K)
    (stash : m.stash.toList = .array ref :: Native.arrayLength.value :: S)
    (within : m.steps < setting.limits.steps) :
    m.advance setting role s =
      .next (of K (.int (Int64.ofNat (s.store.elements ref).size) :: S) m.env (m.steps + 1)) s := by
  rw [m.eq_of, control, stash, advance_instruction within]
  rfl

/-- The length of an array is what a call of the value of a name gives. Let a context come to a
length node, in any reachable world, and let the call that the node is spelled out as stay on the
control stack, whatever is done above it and whatever the other contexts do. When the call is on
top, the value `v` of the operand is on the stash, and below it, under values `D` that a return may
have left there, the callee: what the name of the built-in function was bound to for the environment
of the node at some time meanwhile. If no return of the program stands in an operand position, there
are no values `D`, and if the program neither binds the name nor assigns to it, the callee is the
built-in function. Where there are none and the callee is the built-in function, the next step of
the context gives the number of elements of an array. -/
theorem lengthOf_calls_bound (program : Program) (limits : Limits)
    (reachable : World.Reachable (program.setting limits) program.initial w)
    (running : w.machine? context = some m)
    (control : m.control.toList = .command (.lengthOf e) :: K)
    (stretch : World.Stretch (program.setting limits) context (m.Awaits K) w w')
    (running' : w'.machine? context = some n)
    (ready : n.control.toList = .instruction (.call 1) :: K) (within : n.steps < limits.steps) :
    ∃ v D callee, n.stash.toList = v :: (D ++ callee :: m.stash.toList) ∧
      World.Reads (program.setting limits) context m K w w' callee ∧
      (program.body.RetSafe → D = []) ∧
      (program.body.Spares "array_length" → callee = Native.arrayLength.value) ∧
      ∀ ref, v = .array ref → D = [] → callee = Native.arrayLength.value →
        n.advance (program.setting limits) context.role w'.commons.shared =
          .next (of K (.int (Int64.ofNat (w'.commons.shared.store.elements ref).size) ::
            m.stash.toList) n.env (n.steps + 1)) w'.commons.shared := by
  have clear : decide program.body.RetSafe = true → ∀ v n,
      World.Stretch (program.setting limits) context (m.Awaits K) w v →
      v.held? context = some n → n.Holds Command.returnsClear := by
    intro tight v n before held
    have balanced : (balance true).World v :=
      balance_reachable (fun _ => of_decide_eq_true tight) (before.reachable reachable)
    exact (balanced.held? held).2 rfl
  obtain ⟨n', held', measures⟩ :=
    stretch.measures control clear (World.held?_of_machine? running)
  obtain rfl : n = n' := Option.some.inj ((World.held?_of_machine? running').symm.trans held')
  cases measures with
  | node => simp [control] at ready
  | call => cases ready
  | name => cases ready
  | @operand callee _ reads later stands =>
    obtain ⟨v, D, stash, empty⟩ := stands.exists_result ready
    refine ⟨v, D, callee, stash, reads, fun retSafe => empty (decide_eq_true retSafe),
      fun spared => ?_, fun ref array none same => ?_⟩
    · obtain ⟨u, upTo, -, found⟩ := reads
      have here : (reservation .arrayLength).World w := reservation_reachable spared reachable
      have there : (reservation .arrayLength).World u :=
        reservation_reachable spared (upTo.reachable reachable)
      have reserved := there.commons.store.2.2.lookup (here.machine? running).2.rooted
      exact Except.ok.inj (found.symm.trans reserved)
    · rw [array, none, same] at stash
      exact Machine.advance_arrayLength ready stash within

/-- An array of two numbers. -/
def twoNumbers : Command :=
  .arrayOf [.lit (.int 1), .lit (.int 2)]

/-- A function of the given name, and the length of an array of two numbers. -/
def lengthAfter (sym : String) : Program :=
  ⟨.seq [.function sym [⟨"a", none⟩] (.lit (.int 7)), .lengthOf twoNumbers]⟩

/-- The world after this program has taken some steps. -/
def lengthSteps (sym : String) (k : Nat) : World :=
  (lengthAfter sym).initial.acts ((lengthAfter sym).setting {}) .main k

theorem lengthOf_calls_bound_size :
    ∃ n, (lengthSteps "size" 15).machine? .main = some n ∧
      n.stash.toList = [.array ⟨0⟩, Native.arrayLength.value] ∧
      n.advance ((lengthAfter "size").setting {}) .main (lengthSteps "size" 15).commons.shared =
        .next (of [] [.int 2] n.env (n.steps + 1)) (lengthSteps "size" 15).commons.shared := by
  have reachable : World.Reachable ((lengthAfter "size").setting {}) (lengthAfter "size").initial
      (lengthSteps "size" 8) := by
    refine .acts .start fun j below => ?_
    interval_cases j <;> rfl
  have stretch : World.Stretch ((lengthAfter "size").setting {}) .main
      ((of [.command (.lengthOf twoNumbers)] [] ⟨[⟨1⟩, ⟨0⟩]⟩ 8).Awaits [])
      (lengthSteps "size" 8)
      ((lengthSteps "size" 8).acts ((lengthAfter "size").setting {}) .main 7) := by
    refine .acts fun j below => ?_
    interval_cases j
    · exact ⟨rfl, _, rfl, fun later => absurd later (by decide)⟩
    all_goals exact ⟨rfl, _, rfl, fun _ => List.suffix_iff_eq_drop.mpr rfl⟩
  obtain ⟨v, D, callee, stash, -, alone, native, gives⟩ :=
    lengthOf_calls_bound (lengthAfter "size") {} reachable rfl rfl stretch
      (n := of [.instruction (.call 1)] [.array ⟨0⟩, Native.arrayLength.value] ⟨[⟨1⟩, ⟨0⟩]⟩ 15)
      rfl rfl (by decide)
  obtain rfl := alone (by decide)
  obtain rfl := native (by decide)
  obtain ⟨rfl, -⟩ := List.cons.inj stash
  exact ⟨_, rfl, rfl, gives ⟨0⟩ rfl rfl rfl⟩

/-- A program that declares a function of the name gets the value of this function for the length of
an array: the operand is an array of two elements, the call of the node is made with the function
below it on the stash, and the run ends with seven. -/
theorem lengthOf_calls_bound_captured :
    World.Reachable ((lengthAfter "array_length").setting {}) (lengthAfter "array_length").initial
      (lengthSteps "array_length" 8) ∧
    (lengthSteps "array_length" 8).machine? .main =
      some (of [.command (.lengthOf twoNumbers)] [] ⟨[⟨1⟩, ⟨0⟩]⟩ 8) ∧
    (lengthSteps "array_length" 15).machine? .main =
      some (of [.instruction (.call 1)]
        [.array ⟨0⟩, .closure ⟨0, ["a"], .lit (.int 7), ⟨[⟨1⟩, ⟨0⟩]⟩⟩] ⟨[⟨1⟩, ⟨0⟩]⟩ 15) ∧
    ((lengthSteps "array_length" 15).commons.shared.store.elements ⟨0⟩).size = 2 ∧
    (lengthSteps "array_length" 18).machine? .main =
      some (of [] [.int 7] ⟨[⟨2⟩, ⟨1⟩, ⟨0⟩]⟩ 18) ∧
    ((lengthAfter "array_length").run {} false 60).map (·.result) = some (.ok (.int 7)) := by
  refine ⟨?_, rfl, rfl, rfl, rfl, rfl⟩
  refine .acts .start fun j below => ?_
  interval_cases j <;> rfl

end Length

end ControlStash
