import ControlStash.Proofs.Balance
import ControlStash.Proofs.Course
import ControlStash.Proofs.Scope
import ControlStash.Proofs.Stretch

/-!
# Names that have not been assigned

The frame of a block binds the names that the block declares before their declarations have been
executed; until then they are bound to a sentinel, `Value.unassigned`. It is a value like any other
for the frames, and this module shows that no program gets hold of it.

* `clearance` is the discipline that keeps the sentinel off the stash, out of arrays and out of the
  arguments of goroutines. A machine reads a name only where it is bound to something else, so every
  step keeps it.
* `Store.Initialises` is what a step does to the frames: a name that has been assigned in a frame
  stays assigned there, and the sentinel comes into the store only with the frame of a block
  (`Machine.advance_initialises`).

Both hold in all contexts and whatever the order of their actions. What a frame binds to the
sentinel it has bound to it since it was made, so a failing look-up of a name has found a frame in
which the name has never been assigned.
-/

namespace ControlStash

/-- A value is the sentinel, or an array that holds it at any depth. -/
inductive Store.Harbours (store : Store) : Value → Prop
  | sentinel : store.Harbours .unassigned
  | element {ref : ArrayRef} {v : Value} : v ∈ store.elements ref → store.Harbours v →
    store.Harbours (.array ref)

/-- If no array holds the sentinel, only the sentinel itself harbours it. -/
theorem Store.ArraysHold.not_harbours {store : Store} {v : Value}
    (held : store.ArraysHold (· ≠ .unassigned)) (assigned : v ≠ .unassigned) :
    ¬ store.Harbours v := by
  intro harbours
  induction harbours with
  | sentinel => exact assigned rfl
  | element member _ ih => exact ih (held.elements _ member)

/-! ## Values that machines work with -/

theorem Value.ne_unassigned_of_isScalar {v : Value} (scalar : v.isScalar = true) :
    v ≠ .unassigned := by
  rintro rfl
  cases scalar

/-- A name is read only where it has been assigned. -/
theorem Store.ne_unassigned_of_lookup {store : Store} {env : Env} {sym : String} {v : Value}
    (found : store.lookup env sym = .ok v) : v ≠ .unassigned := by
  unfold Store.lookup at found
  split at found
  · cases found
  · cases found
  · next refused read =>
    cases found
    rintro rfl
    exact refused rfl

/-- The requirement that nothing a context works with is the sentinel. -/
def clearance : Discipline where
  store := Store.ArraysHold (· ≠ .unassigned)
  machine m := ∀ v ∈ m.stash.toList, v ≠ .unassigned
  task
    | .body _ _ => True
    | .builtin _ args => ∀ v ∈ args, v ≠ .unassigned
  fault _ := True
  value v := v ≠ .unassigned

namespace Store

variable {store store' : Store} {env env' : Env} {sym : String} {v : Value}

theorem arrays_extend {names : List String} {values : List Value}
    (extended : store.extend env names values = .ok (env', store')) :
    store'.arrays = store.arrays := by
  unfold Store.extend at extended
  split at extended <;> cases extended
  rfl

theorem arrays_assign (assigned : store.assign env sym v = .ok store') :
    store'.arrays = store.arrays := by
  unfold Store.assign at assigned
  split at assigned <;> cases assigned
  rfl

end Store

section Clearance

variable {protocol : CallProtocol} {globals : Env} {role : Role} {m : Machine} {s : Shared}
  {o : Outcome}

/-- A move brings the sentinel neither onto the stash nor into an array. -/
theorem Move.clear (values : clearance.machine m) (arrays : clearance.store s.store)
    (move : Move protocol globals role m s o) : clearance.Outcome o := by
  have scalar : ∀ v : Value, v.isScalar = true → v ≠ .unassigned :=
    fun v => Value.ne_unassigned_of_isScalar
  have same : ∀ {store : Store}, store.arrays = s.store.arrays → clearance.store store := by
    intro store same array member
    rw [same] at member
    exact arrays array member
  unfold clearance at values
  cases move
  all_goals
    simp only [Machine.toList_stash_of, List.forall_mem_cons, List.forall_mem_append,
      List.mem_reverse] at values
  case lit l K S env k =>
    exact ⟨List.forall_mem_cons.mpr ⟨scalar _ (by cases l <;> rfl), values⟩, arrays⟩
  case name found =>
    exact ⟨List.forall_mem_cons.mpr ⟨Store.ne_unassigned_of_lookup found, values⟩, arrays⟩
  case lambda => exact ⟨List.forall_mem_cons.mpr ⟨nofun, values⟩, arrays⟩
  case plan | restore | mark | pass | resetEmpty | resetMark | resetDiscard | throwDiscard =>
    exact ⟨values, arrays⟩
  case block extended => exact ⟨values, same (Store.arrays_extend extended)⟩
  case unary applied =>
    exact ⟨List.forall_mem_cons.mpr ⟨scalar _ (UnaryOp.isScalar_apply applied), values.2⟩, arrays⟩
  case binary applied =>
    have result := scalar _ (BinaryOp.isScalar_apply applied)
    exact ⟨List.forall_mem_cons.mpr ⟨result, values.2.2⟩, arrays⟩
  case pop | loopDone => exact ⟨values.2, arrays⟩
  case assign assigned =>
    exact ⟨List.forall_mem_cons.mpr values, same (Store.arrays_assign assigned)⟩
  case native arity b args v s' K S env k length reply =>
    have kept := Native.store_invoke role s b args
    rw [reply] at kept
    exact ⟨List.forall_mem_cons.mpr ⟨scalar _ (Native.isScalar_of_invoke reply), values.2.2⟩,
      same (congrArg Store.arrays kept)⟩
  case sleep arity b args s' K S env k length reply =>
    have kept := Native.store_invoke role s b args
    rw [reply] at kept
    exact ⟨List.forall_mem_cons.mpr ⟨nofun, values.2.2⟩, same (congrArg Store.arrays kept)⟩
  case call extended => exact ⟨values.2.2, same (Store.arrays_extend extended)⟩
  case branchTrue | branchFalse | loopAgain => exact ⟨values.2, arrays⟩
  case branchNone => exact ⟨List.forall_mem_cons.mpr ⟨nofun, values.2⟩, arrays⟩
  case makeArray =>
    refine ⟨List.forall_mem_cons.mpr ⟨nofun, values.2⟩, arrays.newArray fun v member => ?_⟩
    exact values.1 v (List.mem_toArray.mp member)
  case index element =>
    exact ⟨List.forall_mem_cons.mpr ⟨arrays.element? element, values.2.2⟩, arrays⟩
  case indexAssign =>
    exact ⟨List.forall_mem_cons.mpr ⟨values.1, values.2.2.2⟩, arrays.setElement values.1⟩
  case caught extended =>
    exact ⟨fun w member => values.2 w (List.mem_of_mem_drop member),
      same (Store.arrays_extend extended)⟩
  case launch extended =>
    exact ⟨trivial, List.forall_mem_cons.mpr ⟨nofun, values.2.2⟩,
      same (Store.arrays_extend extended)⟩
  case launchNative =>
    exact ⟨values.1, List.forall_mem_cons.mpr ⟨nofun, values.2.2⟩, arrays⟩

/-- Every step keeps the sentinel away from what contexts work with. -/
theorem kept_clearance (setting : Setting) : clearance.Kept setting := by
  refine ⟨fun _ _ => trivial, fun _ _ _ v member => absurd member List.not_mem_nil,
    fun role m s values arrays => ?_⟩
  rcases Machine.advance_cases setting role m s with move | ⟨result, m', s', stops, returns, kept⟩
  · exact move.clear values arrays
  · rw [stops]
    have same : s'.store.arrays = s.store.arrays := by
      rcases kept with same | ⟨c, args, inner, -, -, extended⟩
      · rw [same]
      · exact Store.arrays_extend extended
    refine ⟨?_, fun array member => arrays array (same ▸ member)⟩
    cases result with
    | error e => trivial
    | ok v => exact values v (returns v rfl)

end Clearance

/-! ## Bindings -/

namespace Store

/-- The frame at a place binds a name to a value other than the sentinel. -/
def Assigned (store : Store) (ref : FrameRef) (sym : String) : Prop :=
  ∃ v, store.inFrame? ref sym = some v ∧ v ≠ .unassigned

/-- The frame at a place holds the sentinel under a name. -/
def Awaits (store : Store) (ref : FrameRef) (sym : String) : Prop :=
  ∃ frame, store.frames[ref.index]? = some frame ∧ (sym, .unassigned) ∈ frame.bindings

/-- What a step may do to the frames. What has been assigned stays so, and the sentinel comes in
only with a new frame, under names that are declared there. -/
structure Initialises (declared : List String) (store store' : Store) : Prop where
  lasting : ∀ ref sym, store.Assigned ref sym → store'.Assigned ref sym
  origin : ∀ ref sym, store'.Awaits ref sym →
    store.Awaits ref sym ∨ ref.index = store.frames.size ∧ sym ∈ declared

/-- Of a store with a new frame only this one can hold a sentinel that was not there. -/
theorem Awaits.of_push {store : Store} {frame : Frame} {ref : FrameRef} {sym : String}
    (awaits : { store with frames := store.frames.push frame }.Awaits ref sym) :
    store.Awaits ref sym ∨
      ref.index = store.frames.size ∧ (sym, .unassigned) ∈ frame.bindings := by
  obtain ⟨frame', found, member⟩ := awaits
  rw [Array.getElem?_push] at found
  split at found
  · next new =>
    cases found
    exact .inr ⟨new, member⟩
  · exact .inl ⟨frame', found, member⟩

namespace Initialises

variable {store store' : Store} {declared : List String} {env env' : Env} {sym : String}
  {v : Value}

theorem of_frames_eq (same : store'.frames = store.frames) :
    Initialises declared store store' := by
  constructor
  · rintro ref sym ⟨v, found, assigned⟩
    refine ⟨v, ?_, assigned⟩
    unfold inFrame? at *
    rw [same]
    exact found
  · rintro ref sym ⟨frame, found, member⟩
    rw [same] at found
    exact .inl ⟨frame, found, member⟩

theorem extend {names : List String} {values : List Value}
    (fresh : ∀ b ∈ names.zip values, b.2 = .unassigned → b.1 ∈ declared)
    (extended : store.extend env names values = .ok (env', store')) :
    Initialises declared store store' := by
  unfold Store.extend at extended
  split at extended
  · cases extended
    constructor
    · rintro ref sym ⟨v, found, assigned⟩
      refine ⟨v, ?_, assigned⟩
      unfold inFrame? at found ⊢
      split at found
      · next frame old =>
        obtain ⟨below, -⟩ := Array.getElem?_eq_some_iff.mp old
        rw [Array.getElem?_push, if_neg (Nat.ne_of_lt below), old]
        exact found
      · cases found
    · intro ref sym awaits
      exact awaits.of_push.imp_right fun new =>
        ⟨new.1, fresh _ (Frame.mem_ofBindings new.2) rfl⟩
  · cases extended

/-- A frame of values none of which is the sentinel brings none into the store. -/
theorem extend_values {names : List String} {values : List Value}
    (assigned : ∀ v ∈ values, v ≠ .unassigned)
    (extended : store.extend env names values = .ok (env', store')) :
    Initialises declared store store' :=
  extend (fun _ member unassigned => absurd unassigned (assigned _ (List.of_mem_zip member).2))
    extended

/-- An assignment replaces what the name was bound to in its frame. -/
theorem assign (assigned : v ≠ .unassigned) (stored : store.assign env sym v = .ok store') :
    Initialises declared store store' := by
  unfold Store.assign at stored
  split at stored
  · cases stored
  cases stored
  next target old resolved =>
  constructor
  · rintro ref x ⟨w, found, kept⟩
    unfold inFrame? at found
    split at found
    · next frame read =>
      unfold Assigned inFrame?
      rw [setInFrame, Array.getElem?_modify, read]
      by_cases here : target.index = ref.index
      · rw [if_pos here]
        by_cases named : x = sym
        · exact ⟨v, (frame.find?_insert sym x v).trans (if_pos named), assigned⟩
        · exact ⟨w, (frame.find?_insert sym x v).trans ((if_neg named).trans found), kept⟩
      · rw [if_neg here]
        exact ⟨w, found, kept⟩
    · cases found
  · rintro ref x ⟨frame, found, member⟩
    rw [setInFrame, Array.getElem?_modify] at found
    split at found
    · obtain ⟨before, read, rfl⟩ := Option.map_eq_some_iff.mp found
      rcases Frame.mem_insertInto member with kept | new
      · exact .inl ⟨before, read, kept⟩
      · exact absurd (congrArg Prod.snd new).symm assigned
    · exact .inl ⟨frame, found, member⟩

end Initialises

/-- A name is resolved to the sentinel only in a frame that holds it there, and where it has not
been assigned. -/
theorem not_assigned_of_resolve? {store : Store} {sym : String} {refs : List FrameRef}
    {ref : FrameRef} (resolved : store.resolve? sym refs = some (ref, .unassigned)) :
    ¬ store.Assigned ref sym := by
  rintro ⟨v, found, assigned⟩
  rw [inFrame?_of_resolve? resolved] at found
  cases found
  exact assigned rfl

end Store

namespace Machine

/-- The names that the next step of a machine declares: those of a block that is on top. -/
def declares (m : Machine) : List String :=
  match m.control.toList with
  | .command (.block body) :: _ => body.locals
  | _ => []

end Machine

/-- A move does to the frames what it may. -/
theorem Move.initialises {protocol : CallProtocol} {globals : Env} {role : Role} {m : Machine}
    {s : Shared} {o : Outcome} (values : ∀ v ∈ m.stash.toList, v ≠ .unassigned)
    (move : Move protocol globals role m s o) :
    Store.Initialises m.declares s.store o.shared.store := by
  cases move
  all_goals
    simp only [Machine.toList_stash_of, List.forall_mem_cons, List.forall_mem_append,
      List.mem_reverse] at values
  case block body inner store K S env k extended =>
    refine .extend (fun b member _ => ?_) extended
    exact (List.of_mem_zip member).1
  case assign assigned => exact .assign values.1 assigned
  case native arity b args v s' K S env k length reply =>
    have kept := Native.store_invoke role s b args
    rw [reply] at kept
    exact .of_frames_eq (congrArg Store.frames kept)
  case sleep arity b args s' K S env k length reply =>
    have kept := Native.store_invoke role s b args
    rw [reply] at kept
    exact .of_frames_eq (congrArg Store.frames kept)
  case call extended => exact .extend_values values.1 extended
  case caught extended => exact .extend_values (List.forall_mem_singleton.mpr values.1) extended
  case launch extended => exact .extend_values values.1 extended
  all_goals exact .of_frames_eq rfl

/-- What a step does to the frames, whether or not it ends the context. -/
theorem Machine.advance_initialises (setting : Setting) (role : Role) {m : Machine} (s : Shared)
    (values : ∀ v ∈ m.stash.toList, v ≠ .unassigned) :
    Store.Initialises m.declares s.store (m.advance setting role s).shared.store := by
  rcases advance_cases setting role m s with move | ⟨result, m', s', stops, -, kept⟩
  · exact move.initialises values
  · rw [stops]
    rcases kept with same | ⟨c, args, inner, -, taken, extended⟩
    · exact .of_frames_eq (congrArg Store.frames same)
    · exact .extend_values (fun v member => values v (taken v member)) extended

theorem Machine.mem_declares {m : Machine} {sym : String} (member : sym ∈ m.declares) :
    ∃ body K, m.control.toList = .command (.block body) :: K ∧ sym ∈ body.locals := by
  unfold declares at member
  split at member
  · next body K top => exact ⟨body, K, top, member⟩
  · cases member

/-- A look-up fails for want of an assignment where the name is resolved to the sentinel. -/
theorem Machine.unassigned_of_advance {setting : Setting} {role : Role} {m m' : Machine}
    {s s' : Shared} {sym : String} (balanced : Balanced false m.stash.size m.control.toList)
    (stops : m.advance setting role s = .stop (.error (.unassignedName sym)) m' s') :
    ∃ K ref, m.control.toList = .command (.name sym) :: K ∧
      s.store.resolve? sym m.env.frames = some (ref, .unassigned) := by
  have uncut : (m.advance setting role s).isCut = false := by
    rw [stops]
    rfl
  have enough : ∀ item K, m.control.toList = item :: K → item.taken ≤ m.stash.size := by
    intro item K control
    rw [control] at balanced
    exact balanced.taken_le
  have halts := Machine.halts_of_act enough ((advance_eq_act_of_not_limit uncut).symm.trans stops)
  generalize ended : Except.error (Fault.unassignedName sym) = result at halts
  generalize m'.steps = steps at halts
  cases halts with
  | done =>
    unfold finish at ended
    split at ended <;> cases ended
  | uncaught => cases ended
  | @fault item K S env k _ e _ fails =>
    cases ended
    rcases fails.name? rfl with ⟨error, eq, rfl, failed⟩ | ⟨v, rest, eq, -⟩ | ⟨b, eq, -⟩
    · refine ⟨K, ?_⟩
      rcases Store.error_of_lookup failed with rfl | rfl
      · cases eq
      · unfold Store.lookup at failed
        split at failed
        · cases failed
        · next ref resolved => exact ⟨ref, rfl, resolved⟩
        · cases failed
    · cases eq
    · cases eq

/-! ## Courses -/

/-- An action of an activity leaves the store as it is, or steps the machine. -/
theorem Activity.store_act (setting : Setting) (role : Role) (a : Activity) (c : Commons) :
    (a.act setting role c).2.shared.store = c.shared.store ∨
      ∃ m, a = .running m ∧ (a.act setting role c).2.shared.store =
        (m.advance setting role c.shared).shared.store := by
  cases a with
  | running m =>
    refine .inr ⟨m, rfl, ?_⟩
    unfold act
    dsimp only
    cases m.advance setting role c.shared <;> rfl
  | launching id task m => exact .inl rfl
  | registering id m => exact .inl rfl
  | waiting since m =>
    left
    unfold act
    dsimp only
    rcases c.shared.group.look role with ⟨verdict, group⟩
    cases verdict <;> rfl

/-- An action of a goroutine leaves the store as it is, or steps the machine. -/
theorem GoroutinePhase.store_act (setting : Setting) (id : Nat) (phase : GoroutinePhase)
    (c : Commons) :
    (phase.act setting id c).shared.store = c.shared.store ∨
      ∃ m, phase = .active (.running m) ∧ (phase.act setting id c).shared.store =
        (m.advance setting .goroutine c.shared).shared.store := by
  have replied : ∀ reply : Native.Reply, (ofReply reply).2.store = reply.store := by
    intro reply
    cases reply <;> rfl
  cases phase with
  | starting task =>
    left
    cases task with
    | body command env => rfl
    | builtin b args => exact (replied _).trans (Native.store_invoke _ _ _ _)
  | active a =>
    rcases a.store_act setting .goroutine c with same | ⟨m, rfl, stepped⟩
    · exact .inl same
    · exact .inr ⟨m, rfl, stepped⟩
  | waitingBuiltin since =>
    left
    unfold act
    dsimp only
    rcases c.shared.group.look .goroutine with ⟨verdict, group⟩
    exact (replied _).trans (Native.store_ofVerdict _ _)
  | ended failure => cases failure <;> exact .inl rfl
  | _ => exact .inl rfl

namespace World

variable {setting : Setting} {start w : World} {past : List (World × Action)}

/-- Only a step of a machine works on the store. -/
theorem store_proceed (setting : Setting) (w : World) (action : Action) :
    (w.proceed setting action).commons.shared.store = w.commons.shared.store ∨
      ∃ context m, action = .act context ∧ w.machine? context = some m ∧
        (w.proceed setting action).commons.shared.store =
          (m.advance setting context.role w.commons.shared).shared.store := by
  obtain ⟨main, c⟩ := w
  cases action with
  | act context =>
    cases context with
    | main =>
      cases main with
      | active a =>
        rcases a.store_act setting .main c with same | ⟨m, rfl, stepped⟩
        · exact .inl same
        · exact .inr ⟨.main, m, rfl, rfl, stepped⟩
      | joining result steps taken =>
        left
        cases taken with
        | nil =>
          unfold proceed act MainPhase.act
          dsimp only
          split <;> rfl
        | cons id taken => rfl
      | _ => exact .inl rfl
    | goroutine id =>
      unfold proceed act
      dsimp only
      split
      · next phase found =>
        rcases phase.store_act setting id c with same | ⟨m, rfl, stepped⟩
        · exact .inl same
        · refine .inr ⟨.goroutine id, m, rfl, ?_, stepped⟩
          simp only [machine?, found]
      · exact .inl rfl
  | refuse reason context =>
    have refusal := World.refusal reason ⟨main, c⟩ context
    left
    rw [proceed]
    generalize World.refuse reason context ⟨main, c⟩ = w' at refusal
    cases refusal <;> rfl
  | relist handles => exact .inl rfl

/-- A context is about to expand a block. -/
def Expands (w : World) (context : Context) (body : Command) : Prop :=
  ∃ m K, w.machine? context = some m ∧ m.control.toList = .command (.block body) :: K

/-- What an action does to the frames: the sentinel comes in with the frame of a block only. -/
theorem initialises_proceed (setting : Setting) (clear : clearance.World w) (action : Action) :
    (∀ ref sym, w.commons.shared.store.Assigned ref sym →
      (w.proceed setting action).commons.shared.store.Assigned ref sym) ∧
    ∀ ref sym, (w.proceed setting action).commons.shared.store.Awaits ref sym →
      w.commons.shared.store.Awaits ref sym ∨ ∃ context body, action = .act context ∧
        w.Expands context body ∧ ref.index = w.commons.shared.store.frames.size ∧
        sym ∈ body.locals := by
  rcases store_proceed setting w action with same | ⟨context, m, rfl, found, stepped⟩
  · rw [same]
    exact ⟨fun _ _ => id, fun _ _ => .inl⟩
  · have step := Machine.advance_initialises setting context.role w.commons.shared
      (clear.machine? found)
    rw [stepped]
    refine ⟨step.lasting, fun ref sym awaits => ?_⟩
    rcases step.origin ref sym awaits with before | ⟨new, declared⟩
    · exact .inl before
    · obtain ⟨body, K, top, member⟩ := Machine.mem_declares declared
      exact .inr ⟨context, body, rfl, ⟨m, K, found, top⟩, new, member⟩

/-- What has been assigned once stays assigned. -/
theorem Course.lasting (course : Course setting start past w) (clear : clearance.World start) :
    ∀ event ∈ past, ∀ ref sym, event.1.commons.shared.store.Assigned ref sym →
      w.commons.shared.store.Assigned ref sym := by
  induction course with
  | start => exact List.forall_mem_nil _
  | step action course _ ih =>
    have clear := course.obeys (kept_clearance setting) clear
    have step := (initialises_proceed setting clear action).1
    exact forall_mem_snoc (fun event member ref sym assigned =>
      step ref sym (ih event member ref sym assigned)) step

/-- A frame that holds the sentinel has had it from the start, or since it was made for a block. -/
theorem Course.origin (course : Course setting start past w) (clear : clearance.World start)
    {ref : FrameRef} {sym : String} (awaits : w.commons.shared.store.Awaits ref sym) :
    start.commons.shared.store.Awaits ref sym ∨
      ∃ v context body, (v, .act context) ∈ past ∧ v.Expands context body ∧
        ref.index = v.commons.shared.store.frames.size ∧ sym ∈ body.locals ∧
        (v.act setting context).commons.shared.store.Awaits ref sym := by
  induction course with
  | start => exact .inl awaits
  | @step past w action course _ ih =>
    have clear := course.obeys (kept_clearance setting) clear
    have step := (initialises_proceed setting clear action).2
    rcases step ref sym awaits with before | ⟨context, body, rfl, expands, new, member⟩
    · refine (ih before).imp_right ?_
      rintro ⟨v, context, body, event, made⟩
      exact ⟨v, context, body, List.mem_append_left _ event, made⟩
    · exact .inr ⟨w, context, body, by simp, expands, new, member, awaits⟩

/-! ## Runs of programs -/

/-- A task that a context is about to launch, or that a goroutine is about to begin. -/
inductive Tasked (w : World) : Task → Prop
  | byMain {id task m} : w.main = .active (.launching id task m) → Tasked w task
  | byGoroutine {k id task m} : w.commons.phase? k = some (.active (.launching id task m)) →
    Tasked w task
  | started {id task} : w.commons.phase? id = some (.starting task) → Tasked w task

theorem Tasked.obeys {d : Discipline} {task : Task} (tasked : w.Tasked task) (obeys : d.World w) :
    d.task task := by
  cases tasked with
  | byMain active =>
    have main := obeys.main
    rw [active] at main
    exact main.1
  | byGoroutine active => exact (obeys.commons.phase? active).1
  | started starting => exact obeys.commons.phase? starting

/-- Nothing that programs work with harbours the sentinel. What an operation, a call or a throw
takes lies on a stash, and a goroutine on a built-in function takes the arguments of its task. -/
structure Sealed (setting : Setting) (w : World) : Prop where
  stash : ∀ context m, w.held? context = some m → ∀ v ∈ m.stash.toList,
    ¬ w.commons.shared.store.Harbours v
  element : ∀ ref, ∀ v ∈ w.commons.shared.store.elements ref, ¬ w.commons.shared.store.Harbours v
  argument : ∀ b args, w.Tasked (.builtin b args) → ∀ v ∈ args,
    ¬ w.commons.shared.store.Harbours v
  /-- The value that a context ends with. -/
  value : ∀ context m v m' s', w.machine? context = some m →
    m.advance setting context.role w.commons.shared = .stop (.ok v) m' s' → ¬ s'.store.Harbours v
  /-- The value that the run ends with. -/
  result : ∀ v steps, w.result? = some (.ok v, steps) → ¬ w.commons.shared.store.Harbours v

theorem sealed_of_clear (clear : clearance.World w) : w.Sealed setting := by
  have arrays : w.commons.shared.store.ArraysHold (· ≠ .unassigned) := clear.commons.store
  refine ⟨fun context m held v member => ?_, fun ref v member => ?_,
    fun b args tasked v member => ?_, fun context m v m' s' running stops => ?_,
    fun v steps ended => ?_⟩
  · exact arrays.not_harbours (clear.held? held v member)
  · exact arrays.not_harbours (arrays.elements v member)
  · exact arrays.not_harbours (tasked.obeys clear v member)
  · have step := (kept_clearance setting).step context.role m _ (clear.machine? running) arrays
    rw [stops] at step
    exact Store.ArraysHold.not_harbours step.2 step.1
  · exact arrays.not_harbours (clear.value_of_result? ended)

end World

namespace Program

theorem clear_initial (p : Program) : clearance.World p.initial :=
  ⟨fun _ member => absurd member List.not_mem_nil,
    fun _ member => absurd member (Array.not_mem_empty _),
    fun _ member => absurd member (Array.not_mem_empty _),
    fun _ member => absurd member (Array.not_mem_empty _)⟩

/-- At the start only the outermost scope of the program holds the sentinel. -/
theorem awaits_globals {p : Program} {ref : FrameRef} {sym : String}
    (awaits : p.globals.2.Awaits ref sym) :
    p.globals.1.frames.head? = some ref ∧ sym ∈ p.body.locals := by
  rcases Store.Awaits.of_push awaits with before | ⟨new, member⟩
  · rcases Store.Awaits.of_push before with ⟨frame, found, -⟩ | ⟨-, member⟩
    · cases found
    · obtain ⟨native, -, eq⟩ := List.mem_map.mp (Frame.mem_ofBindings member)
      cases eq
  · obtain ⟨declared, among, eq⟩ := List.mem_map.mp (Frame.mem_ofBindings member)
    cases eq
    obtain rfl : ref = ⟨1⟩ := congrArg FrameRef.mk new
    exact ⟨rfl, among⟩

end Program

/-- The sentinel of names that have not been assigned never escapes, in whatever order the contexts
of a program act. Nothing that programs work with harbours it. Only the frame of the outermost scope
and the frames of blocks hold it, each under names that are declared there. A name that has been
assigned in a frame stays assigned in it; so a look-up that fails for want of an assignment has
found a frame in which the name has never been assigned. -/
theorem sentinel_never_escapes (p : Program) {setting : Setting} {w : World}
    {past : List (World × Action)} (course : World.Course setting p.initial past w) :
    w.Sealed setting ∧
    (∀ ref sym, w.commons.shared.store.Awaits ref sym →
      p.globals.1.frames.head? = some ref ∧ sym ∈ p.body.locals ∨
      ∃ v context body, (v, .act context) ∈ past ∧ v.Expands context body ∧
        ref.index = v.commons.shared.store.frames.size ∧ sym ∈ body.locals ∧
        (v.act setting context).commons.shared.store.Awaits ref sym) ∧
    (∀ event ∈ past, ∀ ref sym, event.1.commons.shared.store.Assigned ref sym →
      w.commons.shared.store.Assigned ref sym) ∧
    ∀ context m sym m' s', w.machine? context = some m →
      m.advance setting context.role w.commons.shared =
        .stop (.error (.unassignedName sym)) m' s' →
      ∃ K ref, m.control.toList = .command (.name sym) :: K ∧
        w.commons.shared.store.resolve? sym m.env.frames = some (ref, .unassigned) ∧
        ∀ event ∈ past, ¬ event.1.commons.shared.store.Assigned ref sym := by
  have clear := course.obeys (kept_clearance setting) p.clear_initial
  have balanced := course.obeys (kept_balance false setting) (balance_initial p (by simp))
  have lasting := course.lasting p.clear_initial
  refine ⟨World.sealed_of_clear clear, fun ref sym awaits => ?_, lasting,
    fun context m sym m' s' running stops => ?_⟩
  · exact (course.origin p.clear_initial awaits).imp_left Program.awaits_globals
  · obtain ⟨K, ref, top, resolved⟩ :=
      Machine.unassigned_of_advance (balanced.machine? running).1 stops
    exact ⟨K, ref, top, resolved, fun event member assigned =>
      Store.not_assigned_of_resolve? resolved (lasting event member ref sym assigned)⟩

/-- A block that assigns its name, and a name that is looked up before its declaration. -/
def earlyUse : Program :=
  ⟨.seq [.block (.seq [.declare .letForm "x" (.lit (.int 1)), .name "x"]), .name "y",
    .declare .letForm "y" (.lit (.int 2))]⟩

/-- After twelve steps the frame of the block has its name assigned, and the look-up that comes next
fails at a frame in which the name has not been assigned at any time. -/
theorem sentinel_never_escapes_earlyUse :
    (earlyUse.initial.run (earlyUse.setting {}) false 12 ⟨0, World.turnLength⟩
      #[]).1.commons.shared.store.inFrame? ⟨2⟩ "x" = some (.int 1) ∧
    (earlyUse.initial.run (earlyUse.setting {}) false 16 ⟨0, World.turnLength⟩ #[]).1.result? =
      some (.error (.unassignedName "y"), 13) ∧
    ∀ event ∈ earlyUse.initial.turns (earlyUse.setting {}) 12 ⟨0, World.turnLength⟩,
      ¬ event.1.commons.shared.store.Assigned ⟨1⟩ "y" := by
  have none : World.Course (earlyUse.setting {}) earlyUse.initial [] earlyUse.initial := .start
  have course := none.run false 12 ⟨0, World.turnLength⟩ #[]
  obtain ⟨K, ref, -, resolved, never⟩ :=
    (sentinel_never_escapes earlyUse course).2.2.2 .main _ "y" _ _ rfl rfl
  obtain rfl : ⟨1⟩ = ref := (Prod.mk.inj (Option.some.inj resolved)).1
  exact ⟨rfl, rfl, never⟩

end ControlStash
