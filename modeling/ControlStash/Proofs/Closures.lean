import ControlStash.Proofs.Tree

/-!
# The closures of a run

The commands that a machine can come to are those on its control stack and the bodies of the
closures it can get hold of: on its stash, bound in a frame or held by an array. If all of them pass
a heritable test, they do so after every move (`Move.holds`); so what a test finds in the program's
tree holds of everything the program ever runs.
-/

namespace ControlStash

/-! ## Values in the store -/

/-- All values that arrays hold are good. -/
def Store.ArraysHold (good : Value → Prop) (store : Store) : Prop :=
  ∀ array ∈ store.arrays, ∀ v ∈ array, good v

/-- All values that frames bind and arrays hold are good. -/
structure Store.Holds (good : Value → Prop) (store : Store) : Prop where
  bound : ∀ frame ∈ store.frames, ∀ b ∈ frame.bindings, good b.2
  held : store.ArraysHold good

namespace Frame

theorem mem_insertInto {sym : String} {v : Value} {bindings : List (String × Value)}
    {b : String × Value} (member : b ∈ insertInto sym v bindings) :
    b ∈ bindings ∨ b = (sym, v) := by
  induction bindings with
  | nil => exact .inr (List.mem_singleton.mp member)
  | cons a bindings ih =>
    simp only [insertInto] at member
    split at member
    · next same =>
      rcases List.mem_cons.mp member with rfl | later
      · exact .inr (by rw [same])
      · exact .inl (List.mem_cons_of_mem _ later)
    · rcases List.mem_cons.mp member with rfl | later
      · exact .inl List.mem_cons_self
      · exact (ih later).imp_left (List.mem_cons_of_mem _)

/-- A frame has only bindings that it was made of. -/
theorem mem_ofBindings {bindings : List (String × Value)} {b : String × Value}
    (member : b ∈ (ofBindings bindings).bindings) : b ∈ bindings := by
  have folded : ∀ (added : List (String × Value)) (frame : Frame),
      b ∈ (added.foldl (fun frame b => frame.insert b.1 b.2) frame).bindings →
        b ∈ frame.bindings ∨ b ∈ added := by
    intro added
    induction added with
    | nil => exact fun _ => .inl
    | cons a added ih =>
      intro frame member
      rcases ih _ member with known | later
      · rcases mem_insertInto known with old | rfl
        · exact .inl old
        · exact .inr List.mem_cons_self
      · exact .inr (List.mem_cons_of_mem _ later)
  exact (folded bindings ⟨[]⟩ member).resolve_left List.not_mem_nil

end Frame

namespace Store

variable {good : Value → Prop} {store store' : Store} {env env' : Env} {sym : String} {v : Value}

theorem resolve?_bound {refs : List FrameRef} {ref : FrameRef}
    (found : store.resolve? sym refs = some (ref, v)) :
    ∃ frame ∈ store.frames, (sym, v) ∈ frame.bindings := by
  induction refs with
  | nil => cases found
  | cons r refs ih =>
    simp only [resolve?] at found
    split at found
    · next w inFrame =>
      cases found
      unfold inFrame? at inFrame
      split at inFrame
      · next frame at_ =>
        obtain ⟨before, after, split, -⟩ := List.lookup_eq_some_iff.mp inFrame
        exact ⟨frame, Array.mem_of_getElem? at_, by rw [split]; simp⟩
      · cases inFrame
    · exact ih found

theorem Holds.lookup (holds : store.Holds good)
    (found : store.lookup env sym = .ok v) : good v := by
  unfold Store.lookup at found
  split at found
  · cases found
  · cases found
  · next resolved =>
    cases found
    obtain ⟨frame, member, bound⟩ := resolve?_bound resolved
    exact holds.bound frame member _ bound

theorem Holds.pushFrame {frame : Frame} (env : Env) (holds : store.Holds good)
    (values : ∀ b ∈ frame.bindings, good b.2) :
    (store.pushFrame frame env).2.Holds good := by
  refine ⟨fun f member => ?_, holds.held⟩
  rcases Array.mem_push.mp member with old | rfl
  · exact holds.bound f old
  · exact values

theorem Holds.extend {names : List String} {values : List Value} (holds : store.Holds good)
    (all : ∀ v ∈ values, good v) (extended : store.extend env names values = .ok (env', store')) :
    store'.Holds good := by
  unfold Store.extend at extended
  split at extended
  · cases extended
    refine holds.pushFrame env fun b member => ?_
    exact all _ (List.of_mem_zip (Frame.mem_ofBindings member)).2
  · cases extended

theorem Holds.setInFrame {ref : FrameRef} (holds : store.Holds good) (goodValue : good v) :
    (store.setInFrame ref sym v).Holds good := by
  refine ⟨fun frame member => ?_, holds.held⟩
  obtain ⟨i, bound, rfl⟩ := Array.mem_iff_getElem.mp member
  rw [Store.setInFrame] at bound
  simp only [Store.setInFrame, Array.getElem_modify]
  simp only [Array.size_modify] at bound
  split
  · intro b inserted
    rcases Frame.mem_insertInto inserted with old | rfl
    · exact holds.bound _ (Array.getElem_mem bound) b old
    · exact goodValue
  · exact holds.bound _ (Array.getElem_mem bound)

theorem Holds.assign (holds : store.Holds good) (goodValue : good v)
    (assigned : store.assign env sym v = .ok store') : store'.Holds good := by
  unfold Store.assign at assigned
  split at assigned
  · cases assigned
  · cases assigned
    exact holds.setInFrame goodValue

theorem ArraysHold.newArray {elements : Array Value} (held : store.ArraysHold good)
    (all : ∀ v ∈ elements, good v) : (store.newArray elements).2.ArraysHold good := by
  intro array member
  rcases Array.mem_push.mp member with old | rfl
  · exact held array old
  · exact all

theorem ArraysHold.elements {ref : ArrayRef} (held : store.ArraysHold good) :
    ∀ v ∈ store.elements ref, good v := by
  unfold Store.elements
  intro v member
  cases found : store.arrays[ref.index]? with
  | none =>
    rw [found] at member
    cases Array.not_mem_empty v member
  | some array =>
    rw [found] at member
    exact held array (Array.mem_of_getElem? found) v member

theorem ArraysHold.element? {ref : ArrayRef} {n : Nat} (held : store.ArraysHold good)
    (found : store.element? ref n = some v) : good v :=
  held.elements v (Array.mem_of_getElem? found)

theorem ArraysHold.setElement {ref : ArrayRef} {n : Nat} (held : store.ArraysHold good)
    (goodValue : good v) : (store.setElement ref n v).ArraysHold good := by
  intro array member
  obtain ⟨i, bound, rfl⟩ := Array.mem_iff_getElem.mp member
  simp only [Store.setElement, Array.size_modify] at bound
  simp only [Store.setElement, Array.getElem_modify]
  split
  · intro w set
    rcases Array.mem_or_eq_of_mem_setIfInBounds set with old | rfl
    · exact held _ (Array.getElem_mem bound) w old
    · exact goodValue
  · exact held _ (Array.getElem_mem bound)

theorem Holds.newArray {elements : Array Value} (holds : store.Holds good)
    (all : ∀ v ∈ elements, good v) : (store.newArray elements).2.Holds good :=
  ⟨holds.bound, holds.held.newArray all⟩

theorem Holds.setElement {ref : ArrayRef} {n : Nat} (holds : store.Holds good)
    (goodValue : good v) : (store.setElement ref n v).Holds good :=
  ⟨holds.bound, holds.held.setElement goodValue⟩

theorem Holds.newClosure (holds : store.Holds good) (params : List String) (body : Command)
    (env : Env) : (store.newClosure params body env).2.Holds good :=
  ⟨holds.bound, holds.held⟩

end Store

/-! ## What operators and built-in functions give -/

/-- Whether a value is a number, a truth value, a string or undefined. -/
def Value.isScalar : Value → Bool
  | .undefined => true
  | .int _ => true
  | .float _ => true
  | .bool _ => true
  | .string _ => true
  | _ => false

theorem UnaryOp.isScalar_apply {op : UnaryOp} {v w : Value} (applied : op.apply v = .ok w) :
    w.isScalar = true := by
  unfold UnaryOp.apply at applied
  split at applied <;> cases applied <;> rfl

theorem BinaryOp.isScalar_arithmetic {op : BinaryOp} {f : Int64 → Int64 → Int64}
    {g : Float → Float → Float} {a b v : Value} (applied : arithmetic op f g a b = .ok v) :
    v.isScalar = true := by
  unfold arithmetic at applied
  split at applied <;> cases applied <;> rfl

theorem BinaryOp.isScalar_map_compare {op : BinaryOp} {f : Comparison → Bool} {a b v : Value}
    (applied : (compare op a b).map (fun c => Value.bool (f c)) = .ok v) : v.isScalar = true := by
  cases compared : compare op a b with
  | error e => rw [compared] at applied; cases applied
  | ok c =>
    rw [compared] at applied
    cases applied
    rfl

theorem BinaryOp.isScalar_apply {store : Store} {op : BinaryOp} {a b v : Value}
    (applied : op.apply store a b = .ok v) : v.isScalar = true := by
  unfold apply at applied
  split at applied
  case h_1 | h_13 | h_14 => cases applied; rfl
  case h_2 | h_3 | h_4 | h_6 => exact isScalar_arithmetic applied
  case h_5 | h_7 => split at applied <;> cases applied; rfl
  case h_8 => cases applied
  case h_9 | h_10 | h_11 | h_12 => exact isScalar_map_compare applied

namespace Native

/-- What a reply leaves of the store. -/
def Reply.store : Reply → Store
  | .value _ s => s.store
  | .fault _ s => s.store
  | .asleep s => s.store

@[simp]
theorem store_ofVerdict (s : Shared) (verdict : WaitGroup.Verdict) :
    (Reply.ofVerdict s verdict).store = s.store := by
  cases verdict <;> rfl

/-- No built-in function works on the store. -/
theorem store_invoke (role : Role) (s : Shared) (b : Builtin) (args : List Value) :
    (invoke role s b args).store = s.store := by
  have answers := answers_invoke role s b args
  generalize invoke role s b args = reply at answers ⊢
  rcases answers with ⟨-, replies⟩ | -
  · cases replies
    case wait => exact store_ofVerdict _ _
    all_goals rfl
  · rfl

theorem isScalar_of_ofVerdict {s s' : Shared} {verdict : WaitGroup.Verdict} {v : Value}
    (reply : Reply.ofVerdict s verdict = .value v s') : v.isScalar = true := by
  cases verdict <;> cases reply
  rfl

theorem isScalar_of_invoke {role : Role} {s s' : Shared} {b : Builtin}
    {args : List Value} {v : Value}
    (reply : invoke role s b args = .value v s') : v.isScalar = true := by
  have answers := answers_invoke role s b args
  generalize invoke role s b args = given at reply answers
  rcases answers with ⟨-, replies⟩ | -
  · cases replies
    case wait => exact isScalar_of_ofVerdict reply
    all_goals cases reply
    all_goals rfl
  · cases reply

end Native

/-! ## Commands that pass a test -/

/-- The body of a closure passes a test on all its nodes. -/
def Value.Holds (p : Command → Bool) : Value → Prop
  | .closure c => c.body.everywhere p = true
  | _ => True

theorem Value.holds_of_isScalar {p : Command → Bool} {v : Value} (scalar : v.isScalar = true) :
    v.Holds p := by
  cases v <;> trivial

/-- The commands that an item holds pass a test on all their nodes. -/
def Item.Holds (p : Command → Bool) : Item → Prop
  | .command c => c.everywhere p = true
  | .instruction (.branch cons alt) =>
    cons.everywhere p = true ∧ ∀ c ∈ alt, c.everywhere p = true
  | .instruction (.loop _ pred body) => pred.everywhere p = true ∧ body.everywhere p = true
  | .instruction (.catch _ handler _ _) => handler.everywhere p = true
  | .instruction (.go _) => ∃ callee args, p (.go callee args) = true
  | _ => True

/-- The commands that a machine can come to by itself pass a test on all their nodes. -/
structure Machine.Holds (p : Command → Bool) (m : Machine) : Prop where
  items : ∀ item ∈ m.control.toList, item.Holds p
  values : ∀ v ∈ m.stash.toList, v.Holds p

/-- The body that a goroutine is started on passes a test on all its nodes. -/
def Task.Holds (p : Command → Bool) : Task → Prop
  | .body c _ => c.everywhere p = true
  | .builtin _ _ => True

/-- The commands that can be come to after a step pass a test on all their nodes. -/
def Outcome.Holds (p : Command → Bool) : Outcome → Prop
  | .next m s => m.Holds p ∧ s.store.Holds (Value.Holds p)
  | .asleep m s => m.Holds p ∧ s.store.Holds (Value.Holds p)
  | .launch task m s => task.Holds p ∧ m.Holds p ∧ s.store.Holds (Value.Holds p)
  | .stop _ _ s => s.store.Holds (Value.Holds p)

namespace Command

variable {p : Command → Bool}

theorem holds_sequencePlan {stmts : List Command} (heritable : Heritable p)
    (all : ∀ c ∈ stmts, c.everywhere p = true) : ∀ item ∈ sequencePlan stmts, item.Holds p := by
  fun_induction sequencePlan stmts with
  | case1 => simpa [Item.Holds, undefined, everywhere] using heritable.lit _
  | case2 stmt => simpa [Item.Holds] using all stmt
  | case3 stmt stmts _ ih =>
    intro item member
    rcases List.mem_cons.mp member with rfl | member
    · exact all stmt List.mem_cons_self
    rcases List.mem_cons.mp member with rfl | member
    · trivial
    · exact ih (fun c later => all c (List.mem_cons_of_mem _ later)) item member

theorem holds_operands {cs : List Command} {last : Instruction}
    (all : ∀ c ∈ cs, c.everywhere p = true) (holds : (Item.instruction last).Holds p) :
    ∀ item ∈ cs.map Item.command ++ [.instruction last], item.Holds p := by
  intro item member
  rcases List.mem_append.mp member with operand | rest
  · obtain ⟨c, mem, rfl⟩ := List.mem_map.mp operand
    exact all c mem
  · rw [List.mem_singleton.mp rest]
    exact holds

/-- The items of a plan hold only commands that pass the test. -/
theorem holds_plan {c : Command} (heritable : Heritable p)
    (passes : c.everywhere p = true) (env : Env)
    (height : Nat) : ∀ item ∈ c.plan env height, item.Holds p := by
  cases c
  case seq stmts =>
    simp only [everywhere, Bool.and_eq_true, everywhereAll_iff] at passes
    exact holds_sequencePlan heritable passes.2
  case logical op a b =>
    cases op <;>
      simp_all [plan, Item.Holds, everywhere, heritable.lit, heritable.and, heritable.or]
  case function sym params body =>
    simp only [everywhere, Bool.and_eq_true] at passes
    have made := heritable.function _ _ _ passes.1
    simp [plan, Item.Holds, everywhere, made.1, made.2, passes.2]
  case lengthOf a =>
    simp only [everywhere, Bool.and_eq_true] at passes
    have made := heritable.lengthOf a passes.1
    simp only [callNamed] at made
    simp [plan, Item.Holds, everywhere, everywhereAll, callNamed, made.1, made.2, passes.2]
  case call callee args =>
    simp only [everywhere, everywhereAll_iff, Bool.and_eq_true] at passes
    exact holds_operands (List.forall_mem_cons.mpr ⟨passes.1.2, passes.2⟩) trivial
  case go callee args =>
    simp only [everywhere, everywhereAll_iff, Bool.and_eq_true] at passes
    exact holds_operands (List.forall_mem_cons.mpr ⟨passes.1.2, passes.2⟩) ⟨_, _, passes.1.1⟩
  case arrayOf elements =>
    simp only [everywhere, everywhereAll_iff, Bool.and_eq_true] at passes
    exact holds_operands passes.2 trivial
  all_goals
    simp only [everywhere, everywhereOption_iff, Bool.and_eq_true] at passes
    simp_all [plan, Item.Holds, everywhere, undefined, heritable.lit]

end Command

namespace Machine

variable {protocol : CallProtocol} {env : Env} {K : List Item} {item : Item}

/-- A block puts nothing under its body but a restore. -/
theorem mem_underBlock (member : item ∈ underBlock protocol env K) :
    item ∈ K ∨ item = .instruction (.restore env) := by
  unfold underBlock at member
  split at member
  · exact .inl member
  · exact (List.mem_cons.mp member).symm

/-- A call puts nothing under the body but a mark and a restore. -/
theorem mem_underBody (member : item ∈ underBody protocol env K) :
    item ∈ K ∨ item = .instruction .mark ∨ item = .instruction (.restore env) := by
  have pushed : ∀ K' : List Item,
      item ∈ Item.instruction .mark :: .instruction (.restore env) :: K' →
        item ∈ K' ∨ item = .instruction .mark ∨ item = .instruction (.restore env) := by
    intro K' member
    rcases List.mem_cons.mp member with eq | member
    · exact .inr (.inl eq)
    · exact (List.mem_cons.mp member).symm.imp_right .inr
  unfold underBody at member
  split at member
  · exact pushed _ member
  · exact .inr (.inl (List.mem_singleton.mp member))
  · rcases List.mem_cons.mp member with eq | old
    · exact .inr (.inl eq)
    · exact .inl old
  · split at member
    · exact .inl (List.mem_cons_of_mem _ (List.mem_of_mem_drop member))
    · exact pushed _ member
  · exact pushed _ member

end Machine

/-! ## Moves -/

namespace Move

open Machine (of)

variable {p : Command → Bool} {protocol : CallProtocol} {globals : Env} {role : Role} {m : Machine}
  {s : Shared} {o : Outcome}

/-- After a move all commands still pass a heritable test that they passed before. -/
theorem holds (heritable : Command.Heritable p) (machine : m.Holds p)
    (store : s.store.Holds (Value.Holds p)) (move : Move protocol globals role m s o) :
    o.Holds p := by
  obtain ⟨items, values⟩ := machine
  cases move
  all_goals
    simp only [Machine.toList_control_of, Machine.toList_stash_of, List.forall_mem_cons,
      List.forall_mem_append, List.mem_reverse] at items values
  case lit l K S env k =>
    have scalar : (Value.ofLiteral l).isScalar = true := by cases l <;> rfl
    exact ⟨⟨items.2, List.forall_mem_cons.mpr ⟨Value.holds_of_isScalar scalar, values⟩⟩, store⟩
  case name found =>
    exact ⟨⟨items.2, List.forall_mem_cons.mpr ⟨store.lookup found, values⟩⟩, store⟩
  case lambda params body K S env k =>
    have passes := items.1
    simp only [Item.Holds, Command.everywhere, Bool.and_eq_true] at passes
    exact ⟨⟨items.2, List.forall_mem_cons.mpr ⟨passes.2, values⟩⟩, store.newClosure params body env⟩
  case plan c K S env k planned =>
    have plan := Command.holds_plan heritable items.1 env S.length
    exact ⟨⟨List.forall_mem_append.mpr ⟨plan, items.2⟩, values⟩, store⟩
  case block body inner store' K S env k extended =>
    have passes := items.1
    simp only [Item.Holds, Command.everywhere, Bool.and_eq_true] at passes
    refine ⟨⟨List.forall_mem_cons.mpr ⟨passes.2, fun item member => ?_⟩, values⟩,
      store.extend (fun v member => ?_) extended⟩
    · rcases Machine.mem_underBlock member with old | rfl
      · exact items.2 item old
      · trivial
    · obtain ⟨_, _, rfl⟩ := List.mem_map.mp member
      trivial
  case unary applied =>
    have scalar := UnaryOp.isScalar_apply applied
    exact ⟨⟨items.2, List.forall_mem_cons.mpr ⟨Value.holds_of_isScalar scalar, values.2⟩⟩, store⟩
  case binary applied =>
    have scalar := BinaryOp.isScalar_apply applied
    exact ⟨⟨items.2, List.forall_mem_cons.mpr ⟨Value.holds_of_isScalar scalar, values.2.2⟩⟩, store⟩
  case pop | loopDone => exact ⟨⟨items.2, values.2⟩, store⟩
  case assign assigned =>
    exact ⟨⟨items.2, List.forall_mem_cons.mpr values⟩, store.assign values.1 assigned⟩
  case native arity b args v s' K S env k length reply =>
    have scalar := Native.isScalar_of_invoke reply
    have same := Native.store_invoke role s b args
    rw [reply] at same
    refine ⟨⟨items.2, List.forall_mem_cons.mpr ⟨Value.holds_of_isScalar scalar, values.2.2⟩⟩, ?_⟩
    rw [show s'.store = s.store from same]
    exact store
  case sleep arity b args s' K S env k length reply =>
    have same := Native.store_invoke role s b args
    rw [reply] at same
    refine ⟨⟨items.2, List.forall_mem_cons.mpr ⟨trivial, values.2.2⟩⟩, ?_⟩
    rw [show s'.store = s.store from same]
    exact store
  case call arity c args inner store' K S env k length extended =>
    refine ⟨⟨List.forall_mem_cons.mpr ⟨values.2.1, fun item member => ?_⟩, values.2.2⟩,
      store.extend values.1 extended⟩
    rcases Machine.mem_underBody member with old | rfl | rfl
    · exact items.2 item old
    · trivial
    · trivial
  case branchTrue =>
    exact ⟨⟨List.forall_mem_cons.mpr ⟨items.1.1, items.2⟩, values.2⟩, store⟩
  case branchFalse =>
    exact ⟨⟨List.forall_mem_cons.mpr ⟨items.1.2 _ rfl, items.2⟩, values.2⟩, store⟩
  case branchNone =>
    exact ⟨⟨items.2, List.forall_mem_cons.mpr ⟨trivial, values.2⟩⟩, store⟩
  case loopAgain =>
    refine ⟨⟨?_, values.2⟩, store⟩
    simp only [Machine.toList_control_of, List.forall_mem_cons]
    exact ⟨items.1.2, trivial, items.1.1, items⟩
  case restore | mark | pass => exact ⟨⟨items.2, values⟩, store⟩
  case makeArray arity K S env k elements length =>
    refine ⟨⟨items.2, List.forall_mem_cons.mpr ⟨trivial, values.2⟩⟩, store.newArray ?_⟩
    intro v member
    exact values.1 v (List.mem_toArray.mp member)
  case index element =>
    exact ⟨⟨items.2, List.forall_mem_cons.mpr ⟨store.held.element? element, values.2.2⟩⟩, store⟩
  case indexAssign =>
    exact ⟨⟨items.2, List.forall_mem_cons.mpr ⟨values.1, values.2.2.2⟩⟩, store.setElement values.1⟩
  case resetEmpty => exact ⟨⟨items.2, values⟩, store⟩
  case resetMark => exact ⟨⟨items.2.2, values⟩, store⟩
  case resetDiscard | throwDiscard =>
    exact ⟨⟨List.forall_mem_cons.mpr ⟨trivial, items.2.2⟩, values⟩, store⟩
  case caught sym handler e height inner store' v K S env k extended =>
    refine ⟨⟨?_, fun w member => values.2 w (List.mem_of_mem_drop member)⟩,
      store.extend (List.forall_mem_singleton.mpr values.1) extended⟩
    simp only [Machine.toList_control_of, List.forall_mem_cons]
    exact ⟨items.2.1, trivial, items.2.2⟩
  case launch extended =>
    exact ⟨values.2.1, ⟨items.2, List.forall_mem_cons.mpr ⟨trivial, values.2.2⟩⟩,
      store.extend values.1 extended⟩
  case launchNative =>
    exact ⟨trivial, ⟨items.2, List.forall_mem_cons.mpr ⟨trivial, values.2.2⟩⟩, store⟩

end Move

/-! ## Steps that end -/

/-- A step that ends the context ends it with a value of the stash, if with any. It leaves the store
as it is, unless it has bound values of the stash to the parameters of a closure of the stash that
then finds no room on the control stack. -/
def Outcome.Leaves (store : Store) (values : List Value) : Outcome → Prop
  | .stop result _ s =>
    (∀ v, result = .ok v → v ∈ values) ∧
      (s.store = store ∨ ∃ c args inner, .closure c ∈ values ∧ (∀ v ∈ args, v ∈ values) ∧
        store.extend c.env c.params args = .ok (inner, s.store))
  | _ => True

namespace Machine

variable {setting : Setting} {role : Role} {m : Machine} {s s' : Shared} {store : Store}
  {values : List Value}

theorem fail_leaves (e : Fault) (same : s'.store = store) : (m.fail s' e).Leaves store values :=
  ⟨nofun, .inl same⟩

theorem schedule_leaves {limits : Limits} {items : List Item} {env : Env} (same : s'.store = store) :
    (m.schedule limits items env s').Leaves store values := by
  unfold schedule
  split
  · trivial
  · exact fail_leaves _ same

theorem expand_leaves {c : Command} : (m.expand setting c s).Leaves s.store values := by
  cases c
  case lit | lambda => trivial
  case unrecognized => exact fail_leaves _ rfl
  case name sym =>
    unfold expand
    dsimp only
    split
    · trivial
    · exact fail_leaves _ rfl
  case block body =>
    unfold expand
    dsimp only
    split
    · split
      · trivial
      · exact fail_leaves _ rfl
    · exact fail_leaves _ rfl
  all_goals exact schedule_leaves rfl

/-- A call may have made the frame of its parameters before it finds no room for the body. -/
theorem call_leaves {arity : Nat} :
    (m.call setting role arity s).Leaves s.store m.stash.toList := by
  unfold call
  rcases operands_cases arity m.stash with
    ⟨few, popped | ⟨args, rest, popped, top⟩⟩ | ⟨args, callee, rest, -, contents, popped, top⟩
  · simp only [popped]
    exact fail_leaves _ rfl
  · simp only [popped, top]
    exact fail_leaves _ rfl
  · simp only [popped, top]
    cases callee
    case builtin b =>
      have same := Native.store_invoke role s b args
      dsimp only
      revert same
      rcases Native.invoke role s b args with ⟨v, s'⟩ | ⟨e, s'⟩ | s'
      · exact fun _ => trivial
      · exact fail_leaves e
      · exact fun _ => trivial
    case closure c =>
      dsimp only
      rcases extended : s.store.extend c.env c.params args with e | ⟨env, store'⟩
      · exact fail_leaves _ rfl
      · obtain ⟨items, below, -, eq⟩ := enter_eq_schedule setting.globals setting.protocol
          c.body env { m with stash := rest } { s with store := store' }
        have entered := eq setting.limits
        simp only [entered]
        unfold schedule
        split
        · trivial
        · rw [contents]
          exact ⟨nofun, .inr ⟨c, args, env, by simp, fun v member => by simp [member], extended⟩⟩
    all_goals exact fail_leaves _ rfl

theorem execute_leaves {i : Instruction} :
    (m.execute setting role i s).Leaves s.store m.stash.toList := by
  cases i
  case call arity => exact call_leaves
  all_goals
    simp only [execute, go, throw, reset]
    repeat' split
  all_goals first | trivial | exact fail_leaves _ rfl | exact schedule_leaves rfl

/-- What a step does that ends the context. -/
theorem advance_leaves (setting : Setting) (role : Role) (m : Machine) (s : Shared) :
    (m.advance setting role s).Leaves s.store m.stash.toList := by
  unfold advance
  split
  · refine ⟨fun v eq => ?_, .inl rfl⟩
    unfold finish at eq
    split at eq
    · next contents =>
      cases eq
      rw [contents]
      exact List.mem_singleton_self _
    · cases eq
  · dsimp only
    split
    · exact fail_leaves _ rfl
    · split
      · exact expand_leaves
      · exact execute_leaves

/-- A step is a move, or it ends the context. -/
theorem advance_cases (setting : Setting) (role : Role) (m : Machine) (s : Shared) :
    Move setting.protocol setting.globals role m s (m.advance setting role s) ∨
      ∃ result m' s', m.advance setting role s = .stop result m' s' ∧
        (Outcome.stop result m' s').Leaves s.store m.stash.toList := by
  cases ended : (m.advance setting role s).isStop with
  | false => exact .inl (move_of_advance ended)
  | true =>
    have leaves := advance_leaves setting role m s
    revert ended leaves
    cases m.advance setting role s with
    | stop result m' s' => exact fun _ leaves => .inr ⟨result, m', s', rfl, leaves⟩
    | _ => exact fun running => absurd running Bool.false_ne_true

/-- A step keeps a heritable test on all commands that can be come to. -/
theorem advance_holds {p : Command → Bool} (heritable : Command.Heritable p) (machine : m.Holds p)
    (store : s.store.Holds (Value.Holds p)) : (m.advance setting role s).Holds p := by
  rcases advance_cases setting role m s with move | ⟨result, m', s', stops, -, kept⟩
  · exact move.holds heritable machine store
  · rw [stops]
    rcases kept with same | ⟨c, args, inner, -, taken, extended⟩
    · show s'.store.Holds _
      rw [same]
      exact store
    · exact store.extend (fun v member => machine.values v (taken v member)) extended

end Machine

namespace Program

variable {p : Command → Bool}

/-- A program starts with nothing in its store but built-in functions and names without a value. -/
theorem globals_hold {good : Value → Prop} (program : Program) (natives : ∀ b, good (.builtin b))
    (unassigned : good .unassigned) : program.globals.2.Holds good := by
  have empty : (default : Store).Holds good :=
    ⟨fun _ member => absurd member (Array.not_mem_empty _),
      fun _ member => absurd member (Array.not_mem_empty _)⟩
  refine (empty.pushFrame ⟨[]⟩ fun b member => ?_).pushFrame _ fun b member => ?_
  · obtain ⟨native, -, rfl⟩ := List.mem_map.mp (Frame.mem_ofBindings member)
    exact natives _
  · obtain ⟨sym, -, rfl⟩ := List.mem_map.mp (Frame.mem_ofBindings member)
    exact unassigned

theorem holds_globals (program : Program) : program.globals.2.Holds (Value.Holds p) :=
  program.globals_hold (fun _ => trivial) trivial

theorem holds_start {program : Program} {env : Env} (passes : program.body.everywhere p = true) :
    (Machine.start [.command program.body] env).Holds p :=
  ⟨List.forall_mem_singleton.mpr passes, fun _ member => absurd member List.not_mem_nil⟩

end Program

end ControlStash
