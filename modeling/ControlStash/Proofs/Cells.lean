import ControlStash.Proofs.Bisimilar
import ControlStash.Proofs.Footing
import ControlStash.Proofs.Ownership
import ControlStash.Proofs.Sites

/-!
# Arrays and their cells

Arrays are shared by all contexts, and an access checks its position before it uses it.
`Machine.Touches` says all that a step does to the arrays: nothing, or it makes one, or it sets a
cell of one. So no array ever goes away or changes its length (`Store.KeepsArrays`), and each has
the length with which a step has made it (`World.Course.makes`). A position that has been found good
stays good whatever other contexts do (`Machine.access_of_keepsArrays`).

The references that contexts and the store hold are to arrays that are there (`World.Refers`). With
an integer as index an access succeeds just where the integer is a position of the array. It then
reads the cell and changes nothing, or it sets the cell and changes nothing else.
-/

namespace ControlStash

/-! ## Cells -/

namespace Store

variable {store store' store'' : Store} {ref ref' : ArrayRef} {n n' : Nat} {v : Value}
  {elements : Array Value}

theorem elements_congr (same : store'.arrays = store.arrays) (ref : ArrayRef) :
    store'.elements ref = store.elements ref := by
  unfold Store.elements
  rw [same]

theorem elements_newArray :
    (store.newArray elements).2.elements ref =
      if ref.index = store.arrays.size then elements else store.elements ref := by
  unfold Store.elements newArray
  dsimp only
  rw [Array.getElem?_push]
  split <;> rfl

theorem elements_setElement :
    (store.setElement ref n v).elements ref' =
      if ref = ref' then (store.elements ref').setIfInBounds n v else store.elements ref' := by
  have place : ref.index = ref'.index ↔ ref = ref' := by
    cases ref
    cases ref'
    simp
  unfold Store.elements setElement
  dsimp only
  rw [Array.getElem?_modify]
  simp only [place]
  split
  · cases store.arrays[ref'.index]? <;> simp
  · rfl

/-- One store has the arrays of another, of the same lengths, and maybe more of them. -/
structure KeepsArrays (store store' : Store) : Prop where
  count : store.arrays.size ≤ store'.arrays.size
  length : ∀ ref, ref.index < store.arrays.size →
    (store'.elements ref).size = (store.elements ref).size

namespace KeepsArrays

theorem of_arrays_eq (same : store'.arrays = store.arrays) : store.KeepsArrays store' :=
  ⟨Nat.le_of_eq (congrArg Array.size same.symm), fun ref _ => by rw [elements_congr same]⟩

theorem trans (first : store.KeepsArrays store') (next : store'.KeepsArrays store'') :
    store.KeepsArrays store'' :=
  ⟨Nat.le_trans first.count next.count, fun ref there =>
    (next.length ref (Nat.lt_of_lt_of_le there first.count)).trans (first.length ref there)⟩

theorem newArray (store : Store) (elements : Array Value) :
    store.KeepsArrays (store.newArray elements).2 := by
  refine ⟨?_, fun ref there => ?_⟩
  · simp [Store.newArray]
  · rw [elements_newArray, if_neg (Nat.ne_of_lt there)]

theorem setElement (store : Store) (ref : ArrayRef) (n : Nat) (v : Value) :
    store.KeepsArrays (store.setElement ref n v) := by
  refine ⟨?_, fun ref' there => ?_⟩
  · simp [Store.setElement]
  · rw [elements_setElement]
    split <;> simp

end KeepsArrays

/-- Two stores are the same but for one cell, which has a new value. -/
structure Sets (store store' : Store) (ref : ArrayRef) (n : Nat) (v : Value) : Prop where
  frames : store'.frames = store.frames
  stamps : store'.stamps = store.stamps
  count : store'.arrays.size = store.arrays.size
  cells : ∀ ref' n', store'.element? ref' n' =
    if ref = ref' ∧ n = n' then some v else store.element? ref' n'

theorem sets_setElement (there : n < (store.elements ref).size) :
    store.Sets (store.setElement ref n v) ref n v := by
  refine ⟨rfl, rfl, ?_, fun ref' n' => ?_⟩
  · simp [setElement]
  · unfold element?
    rw [elements_setElement]
    by_cases here : ref = ref'
    · subst here
      rw [if_pos rfl, Array.getElem?_setIfInBounds]
      simp only [true_and, if_pos there]
    · rw [if_neg here, if_neg fun both => here both.1]

end Store

/-! ## What a step does to the arrays -/

namespace Native

variable {role : Role} {s s' : Shared} {b : Builtin} {args : List Value}

theorem store_of_value {v : Value} (reply : invoke role s b args = .value v s') :
    s'.store = s.store := by
  have kept := store_invoke role s b args
  rw [reply] at kept
  exact kept

theorem store_of_asleep (reply : invoke role s b args = .asleep s') : s'.store = s.store := by
  have kept := store_invoke role s b args
  rw [reply] at kept
  exact kept

end Native

/-- What a step of a machine does to the arrays: nothing, or it makes one, or it sets a cell of one.
-/
inductive Machine.Touches (m : Machine) (store store' : Store) : Prop
  | none : store'.arrays = store.arrays → Touches m store store'
  | made {K : List Item} (elements : Array Value) :
    m.control.toList = .instruction (.makeArray elements.size) :: K →
    store'.arrays = (store.newArray elements).2.arrays → Touches m store store'
  | set {ref : ArrayRef} {n : Nat} {v : Value} {K : List Item} :
    m.control.toList = .instruction .indexAssign :: K →
    store'.arrays = (store.setElement ref n v).arrays → Touches m store store'

section Steps

variable {protocol : CallProtocol} {globals : Env} {setting : Setting} {role : Role} {m : Machine}
  {s : Shared} {o : Outcome} {store store' : Store}

theorem Move.touches (move : Move protocol globals role m s o) :
    m.Touches s.store o.shared.store := by
  cases move
  case makeArray length =>
    subst length
    exact .made (List.toArray _) rfl rfl
  case indexAssign => exact .set rfl rfl
  case block extended => exact .none (Store.arrays_extend extended)
  case call extended => exact .none (Store.arrays_extend extended)
  case caught extended => exact .none (Store.arrays_extend extended)
  case launch extended => exact .none (Store.arrays_extend extended)
  case assign assigned => exact .none (Store.arrays_assign assigned)
  case native reply => exact .none (congrArg Store.arrays (Native.store_of_value reply))
  case sleep reply => exact .none (congrArg Store.arrays (Native.store_of_asleep reply))
  all_goals exact .none rfl

theorem Machine.advance_touches (setting : Setting) (role : Role) (m : Machine) (s : Shared) :
    m.Touches s.store (m.advance setting role s).shared.store := by
  rcases advance_cases setting role m s with move | ⟨result, m', s', stops, -, kept⟩
  · exact move.touches
  · rw [stops]
    rcases kept with same | ⟨c, args, inner, -, -, extended⟩
    · exact .none (congrArg Store.arrays same)
    · exact .none (Store.arrays_extend extended)

/-- No step removes an array or changes the length of one. -/
theorem Machine.Touches.keeps (touches : m.Touches store store') : store.KeepsArrays store' := by
  cases touches with
  | none same => exact .of_arrays_eq same
  | made elements top made =>
    exact (Store.KeepsArrays.newArray store elements).trans (.of_arrays_eq made)
  | set top set => exact (Store.KeepsArrays.setElement store _ _ _).trans (.of_arrays_eq set)

/-- An array that was not there before a step has been made by it. -/
theorem Machine.Touches.made_of_new {ref : ArrayRef} (touches : m.Touches store store')
    (there : ref.index < store'.arrays.size) (new : store.arrays.size ≤ ref.index) :
    ref.index = store.arrays.size ∧
      ∃ K, m.control.toList = .instruction (.makeArray (store'.elements ref).size) :: K := by
  cases touches with
  | none same =>
    rw [same] at there
    exact absurd there (Nat.not_lt.mpr new)
  | @made K elements top made =>
    have last : ref.index = store.arrays.size := by
      rw [made, Store.newArray, Array.size_push] at there
      omega
    refine ⟨last, K, ?_⟩
    rw [Store.elements_congr made, Store.elements_newArray, if_pos last]
    exact top
  | set top set =>
    rw [set, Store.setElement, Array.size_modify] at there
    exact absurd there (Nat.not_lt.mpr new)

end Steps

/-! ## Courses -/

namespace World

variable {setting : Setting} {start w : World} {past : List (World × Action)} {ref : ArrayRef}

/-- The next action of a context makes the array at a place, with so many elements. -/
structure Makes (setting : Setting) (w : World) (context : Context) (ref : ArrayRef) (size : Nat) :
    Prop where
  instruction : ∃ m K, w.machine? context = some m ∧
    m.control.toList = .instruction (.makeArray size) :: K
  new : ref.index = w.commons.shared.store.arrays.size
  there : ref.index < (w.act setting context).commons.shared.store.arrays.size
  length : ((w.act setting context).commons.shared.store.elements ref).size = size

/-- No action removes an array or changes the length of one. -/
theorem keepsArrays_proceed (setting : Setting) (w : World) (action : Action) :
    w.commons.shared.store.KeepsArrays (w.proceed setting action).commons.shared.store := by
  rcases store_proceed setting w action with same | ⟨context, m, -, -, stepped⟩
  · rw [same]
    exact .of_arrays_eq rfl
  · rw [stepped]
    exact (m.advance_touches setting context.role w.commons.shared).keeps

/-- The arrays at the start of a course are there ever after, with the same lengths. -/
theorem Course.keepsArrays (course : Course setting start past w) :
    start.commons.shared.store.KeepsArrays w.commons.shared.store := by
  induction course with
  | start => exact .of_arrays_eq rfl
  | step action _ _ ih => exact ih.trans (keepsArrays_proceed setting _ action)

/-- An array has been there from the start, or has been made in the course with the length that it
has. -/
theorem Course.makes (course : Course setting start past w)
    (there : ref.index < w.commons.shared.store.arrays.size) :
    ref.index < start.commons.shared.store.arrays.size ∨
      ∃ v context, (v, .act context) ∈ past ∧
        v.Makes setting context ref (w.commons.shared.store.elements ref).size := by
  induction course with
  | start => exact .inl there
  | @step past w action course _ ih =>
    rcases Nat.lt_or_ge ref.index w.commons.shared.store.arrays.size with old | new
    · rw [(keepsArrays_proceed setting w action).length ref old]
      refine (ih old).imp_right ?_
      rintro ⟨v, context, event, makes⟩
      exact ⟨v, context, List.mem_append_left _ event, makes⟩
    · rcases store_proceed setting w action with same | ⟨context, m, rfl, found, stepped⟩
      · rw [same] at there
        exact absurd there (Nat.not_lt.mpr new)
      · have touches := m.advance_touches setting context.role w.commons.shared
        rw [← stepped] at touches
        obtain ⟨last, K, top⟩ := touches.made_of_new there new
        exact .inr ⟨w, context, by simp, ⟨m, K, found, top⟩, last, there, rfl⟩

end World

/-! ## References -/

/-- A value is none of a store's arrays, or it is one of the first `count` arrays. -/
def Value.Known (count : Nat) : Value → Prop
  | .array ref => ref.index < count
  | _ => True

namespace Value

variable {v : Value} {count count' : Nat}

theorem known_of_isScalar (scalar : v.isScalar = true) : v.Known count := by
  cases v with
  | array ref => cases scalar
  | _ => trivial

theorem Known.mono (known : v.Known count) (more : count ≤ count') : v.Known count' := by
  cases v with
  | array ref => exact Nat.lt_of_lt_of_le known more
  | _ => trivial

end Value

/-- All references to arrays that a store holds are to arrays of the store. -/
def Store.Refers (store : Store) : Prop :=
  store.Holds (Value.Known store.arrays.size)

namespace Store.Refers

variable {store store' : Store} {env env' : Env} {names : List String} {values : List Value}
  {sym : String} {v : Value}

theorem extend (refers : store.Refers) (known : ∀ v ∈ values, v.Known store.arrays.size)
    (extended : store.extend env names values = .ok (env', store')) : store'.Refers := by
  unfold Refers
  rw [arrays_extend extended]
  exact Holds.extend refers known extended

theorem assign (refers : store.Refers) (known : v.Known store.arrays.size)
    (assigned : store.assign env sym v = .ok store') : store'.Refers := by
  unfold Refers
  rw [arrays_assign assigned]
  exact Holds.assign refers known assigned

theorem newArray {elements : Array Value} (refers : store.Refers)
    (known : ∀ v ∈ elements, v.Known store.arrays.size) : (store.newArray elements).2.Refers := by
  have more : store.arrays.size ≤ (store.newArray elements).2.arrays.size :=
    (KeepsArrays.newArray store elements).count
  exact (Holds.newArray refers known).imp fun v known => known.mono more

theorem setElement {ref : ArrayRef} {n : Nat} (refers : store.Refers)
    (known : v.Known store.arrays.size) : (store.setElement ref n v).Refers := by
  unfold Refers
  rw [show (store.setElement ref n v).arrays.size = store.arrays.size by simp [Store.setElement]]
  exact Holds.setElement refers known

end Store.Refers

/-- A step leaves a context only with references to arrays that are there then. -/
def Outcome.Refers (o : Outcome) : Prop :=
  o.shared.store.Refers ∧
    ∀ m, o.machine? = some m → ∀ v ∈ m.stash.toList, v.Known o.shared.store.arrays.size

section References

variable {protocol : CallProtocol} {globals : Env} {role : Role} {m : Machine} {s : Shared}
  {o : Outcome}

theorem Outcome.Refers.of_machine? {m : Machine} (goes : o.machine? = some m)
    (refers : o.shared.store.Refers)
    (known : ∀ v ∈ m.stash.toList, v.Known o.shared.store.arrays.size) : o.Refers := by
  refine ⟨refers, fun m' goes' => ?_⟩
  rw [goes] at goes'
  cases goes'
  exact known

/-- A move leaves only references to arrays that are there: what it puts on the stash it has from
there, from a frame or from an array, unless it has made the array itself. -/
theorem Move.refers (refers : s.store.Refers)
    (known : ∀ v ∈ m.stash.toList, v.Known s.store.arrays.size)
    (move : Move protocol globals role m s o) : o.Refers := by
  have scalar : ∀ {v : Value} {count : Nat}, v.isScalar = true → v.Known count :=
    fun scalar => Value.known_of_isScalar scalar
  have stay : ∀ {store : Store} {S : List Value}, store.arrays = s.store.arrays →
      (∀ v ∈ S, v.Known s.store.arrays.size) → ∀ v ∈ S, v.Known store.arrays.size := by
    intro store S same known
    rw [same]
    exact known
  cases move
  all_goals
    simp only [Machine.toList_stash_of, List.forall_mem_cons, List.forall_mem_append,
      List.mem_reverse] at known
  case lit l K S env k =>
    exact .of_machine? rfl refers (List.forall_mem_cons.mpr ⟨scalar (by cases l <;> rfl), known⟩)
  case name found =>
    exact .of_machine? rfl refers
      (List.forall_mem_cons.mpr ⟨Store.Holds.lookup refers found, known⟩)
  case lambda params body K S env k =>
    exact .of_machine? rfl (Store.Holds.newClosure refers params body env)
      (List.forall_mem_cons.mpr ⟨trivial, known⟩)
  case plan | restore | mark | pass | resetEmpty | resetMark | resetDiscard | throwDiscard =>
    exact .of_machine? rfl refers known
  case block extended =>
    have unassigned : ∀ {names : List String} {count : Nat},
        ∀ v ∈ names.map fun _ => Value.unassigned, v.Known count := by
      intro names count v member
      obtain ⟨-, -, rfl⟩ := List.mem_map.mp member
      trivial
    exact .of_machine? rfl (refers.extend unassigned extended)
      (stay (Store.arrays_extend extended) known)
  case unary applied =>
    exact .of_machine? rfl refers
      (List.forall_mem_cons.mpr ⟨scalar (UnaryOp.isScalar_apply applied), known.2⟩)
  case binary applied =>
    exact .of_machine? rfl refers
      (List.forall_mem_cons.mpr ⟨scalar (BinaryOp.isScalar_apply applied), known.2.2⟩)
  case pop | loopDone | loopAgain | branchTrue | branchFalse =>
    exact .of_machine? rfl refers known.2
  case branchNone => exact .of_machine? rfl refers (List.forall_mem_cons.mpr ⟨trivial, known.2⟩)
  case assign assigned =>
    exact .of_machine? rfl (refers.assign known.1 assigned)
      (stay (Store.arrays_assign assigned) (List.forall_mem_cons.mpr known))
  case native reply =>
    have same := Native.store_of_value reply
    refine .of_machine? rfl ?_ (List.forall_mem_cons.mpr
      ⟨scalar (Native.isScalar_of_invoke reply), stay (congrArg Store.arrays same) known.2.2⟩)
    exact same ▸ refers
  case sleep reply =>
    have same := Native.store_of_asleep reply
    refine .of_machine? rfl ?_ (List.forall_mem_cons.mpr
      ⟨trivial, stay (congrArg Store.arrays same) known.2.2⟩)
    exact same ▸ refers
  case call extended =>
    exact .of_machine? rfl (refers.extend known.1 extended)
      (stay (Store.arrays_extend extended) known.2.2)
  case makeArray arity K S env k elements length =>
    have made := refers.newArray fun v member => known.1 v (List.mem_toArray.mp member)
    have more := (Store.KeepsArrays.newArray s.store elements.toArray).count
    refine .of_machine? rfl made (List.forall_mem_cons.mpr
      ⟨?_, fun v member => (known.2 v member).mono more⟩)
    show s.store.arrays.size < (s.store.arrays.push elements.toArray).size
    simp
  case index accessed element =>
    exact .of_machine? rfl refers
      (List.forall_mem_cons.mpr ⟨Store.ArraysHold.element? refers.held element, known.2.2⟩)
  case indexAssign array position v ref n K S env k accessed there =>
    have more := (Store.KeepsArrays.setElement s.store ref n v).count
    exact .of_machine? rfl (refers.setElement known.1) (List.forall_mem_cons.mpr
      ⟨known.1.mono more, fun v member => (known.2.2.2 v member).mono more⟩)
  case caught extended =>
    exact .of_machine? rfl (refers.extend (List.forall_mem_singleton.mpr known.1) extended)
      (stay (Store.arrays_extend extended) fun v member => known.2 v (List.mem_of_mem_drop member))
  case launch extended =>
    exact .of_machine? rfl (refers.extend known.1 extended)
      (stay (Store.arrays_extend extended) (List.forall_mem_cons.mpr ⟨trivial, known.2.2⟩))
  case launchNative =>
    exact .of_machine? rfl refers (List.forall_mem_cons.mpr ⟨trivial, known.2.2⟩)

/-- A step leaves only references to arrays that are there. -/
theorem Machine.advance_refers (setting : Setting) (role : Role) {m : Machine} {s : Shared}
    (refers : s.store.Refers) (known : ∀ v ∈ m.stash.toList, v.Known s.store.arrays.size) :
    (m.advance setting role s).Refers := by
  rcases advance_cases setting role m s with move | ⟨result, m', s', stops, -, kept⟩
  · exact move.refers refers known
  · rw [stops]
    refine ⟨?_, nofun⟩
    rcases kept with same | ⟨c, args, inner, -, taken, extended⟩
    · exact same ▸ refers
    · exact refers.extend (fun v member => known v (taken v member)) extended

end References

/-- The references that contexts and the store hold are to arrays that are there. -/
structure World.Refers (w : World) : Prop where
  store : w.commons.shared.store.Refers
  stash : ∀ context m, w.held? context = some m →
    ∀ v ∈ m.stash.toList, v.Known w.commons.shared.store.arrays.size

namespace World.Refers

variable {setting : Setting} {start w : World} {past : List (World × Action)}

theorem proceed (refers : w.Refers) (action : Action) : (w.proceed setting action).Refers := by
  have step : ∀ {context m}, w.machine? context = some m →
      (m.advance setting context.role w.commons.shared).Refers :=
    fun running =>
      Machine.advance_refers setting _ refers.store (refers.stash _ _ (held?_of_machine? running))
  refine ⟨?_, fun context m held => ?_⟩
  · rcases store_proceed setting w action with same | ⟨context, m, -, running, stepped⟩
    · rw [same]
      exact refers.store
    · rw [stepped]
      exact (step running).1
  · cases source_proceed held with
    | kept before =>
      have more := (keepsArrays_proceed setting w action).count
      exact fun v member => (refers.stash context m before v member).mono more
    | stepped running goes stepped =>
      rw [stepped]
      exact (step running).2 m goes
    | begun goroutine started =>
      subst started
      exact fun v member => absurd member List.not_mem_nil

theorem initial (p : Program) : p.initial.Refers := by
  refine ⟨p.globals_hold (fun _ => trivial) trivial, fun context m held => ?_⟩
  · cases context with
    | main =>
      cases held
      exact fun v member => absurd member List.not_mem_nil
    | goroutine id => cases held

theorem along (refers : start.Refers) (course : Course setting start past w) : w.Refers := by
  induction course with
  | start => exact refers
  | step action _ _ ih => exact ih.proceed action

end World.Refers

/-! ## Accesses -/

/-- An integer is a position of an array. -/
def Store.Has (store : Store) (ref : ArrayRef) (i : Int64) : Prop :=
  0 ≤ i.toInt ∧ i.toInt < (store.elements ref).size

namespace Machine

variable {setting : Setting} {role : Role} {m : Machine} {s : Shared} {store store' : Store}
  {array index : Value} {ref : ArrayRef} {i : Int64} {n : Nat} {K : List Item} {S : List Value}
  {v : Value}

theorem has_iff : store.Has ref i ↔ 0 ≤ i ∧ i.toInt < (store.elements ref).size := by
  rw [Store.Has, Int64.le_iff_toInt_le, Int64.toInt_zero]

theorem access_of_has (has : store.Has ref i) :
    access store (.array ref) (.int i) = .ok (ref, i.toInt.toNat) := by
  rw [access, position, if_pos (has_iff.mp has)]
  rfl

theorem access_of_not_has (outside : ¬ store.Has ref i) :
    access store (.array ref) (.int i) =
      .error (.indexOutOfRange i (store.elements ref).size) := by
  rw [access, position, if_neg fun inside => outside (has_iff.mpr inside)]
  rfl

/-- A position that has been checked once is checked for good: nothing that happens to the arrays
can take it away. -/
theorem access_of_keepsArrays (keeps : store.KeepsArrays store')
    (accessed : access store array index = .ok (ref, n)) :
    access store' array index = .ok (ref, n) := by
  have there := Store.lt_size_of_elements (Nat.zero_lt_of_lt (lt_of_access accessed))
  cases array with
  | array ref' =>
    have same : ref' = ref := by
      unfold access at accessed
      dsimp only at accessed
      cases positioned : position index (store.elements ref').size with
      | ok n' =>
        rw [positioned] at accessed
        cases accessed
        rfl
      | error e =>
        rw [positioned] at accessed
        cases accessed
    subst same
    rw [← accessed, access, access, keeps.length ref' there]
  | _ => cases accessed

/-- The next step reads the cell at an integer, and nothing changes; where there is no such cell it
fails, and nothing changes either. -/
structure Reads (setting : Setting) (role : Role) (m : Machine) (s : Shared) (ref : ArrayRef)
    (i : Int64) (K : List Item) (S : List Value) : Prop where
  inside : s.store.Has ref i → ∃ v, s.store.element? ref i.toInt.toNat = some v ∧
    m.advance setting role s = .next (of K (v :: S) m.env (m.steps + 1)) s
  outside : ¬ s.store.Has ref i → ∃ m', m.advance setting role s =
    .stop (.error (.indexOutOfRange i (s.store.elements ref).size)) m' s

/-- The next step sets the cell at an integer, and nothing else changes; where there is no such cell
it fails, and nothing changes at all. -/
structure Assigns (setting : Setting) (role : Role) (m : Machine) (s : Shared) (ref : ArrayRef)
    (i : Int64) (v : Value) (K : List Item) (S : List Value) : Prop where
  inside : s.store.Has ref i → ∃ store, s.store.Sets store ref i.toInt.toNat v ∧
    m.advance setting role s = .next (of K (v :: S) m.env (m.steps + 1)) { s with store }
  outside : ¬ s.store.Has ref i → ∃ m', m.advance setting role s =
    .stop (.error (.indexOutOfRange i (s.store.elements ref).size)) m' s

/-- Below the step limit an instruction on top is executed. -/
theorem advance_eq_execute {i : Instruction} (top : m.control.toList = .instruction i :: K)
    (within : m.steps < setting.limits.steps) :
    m.advance setting role s =
      (of K m.stash.toList m.env (m.steps + 1)).execute setting role i s := by
  conv_lhs => rw [m.eq_of, top]
  exact advance_instruction within

theorem reads_of_index (top : m.control.toList = .instruction .index :: K)
    (stash : m.stash.toList = .int i :: .array ref :: S) (within : m.steps < setting.limits.steps) :
    m.Reads setting role s ref i K S := by
  have executes : m.advance setting role s = _ := advance_eq_execute top within
  rw [stash] at executes
  constructor
  · intro has
    have accessed := access_of_has has
    obtain ⟨v, found⟩ : ∃ v, s.store.element? ref i.toInt.toNat = some v :=
      ⟨_, Array.getElem?_eq_getElem (lt_of_access accessed)⟩
    refine ⟨v, found, ?_⟩
    generalize i.toInt.toNat = n at accessed found
    rw [executes]
    simp [execute, of, accessed, found]
  · intro outside
    rw [executes]
    refine ⟨of K (.int i :: .array ref :: S) m.env (m.steps + 1), ?_⟩
    simp [execute, of, access_of_not_has outside, fail]

theorem assigns_of_indexAssign (top : m.control.toList = .instruction .indexAssign :: K)
    (stash : m.stash.toList = v :: .int i :: .array ref :: S)
    (within : m.steps < setting.limits.steps) : m.Assigns setting role s ref i v K S := by
  have executes : m.advance setting role s = _ := advance_eq_execute top within
  rw [stash] at executes
  constructor
  · intro has
    have accessed := access_of_has has
    have there := lt_of_access accessed
    refine ⟨_, Store.sets_setElement there, ?_⟩
    generalize i.toInt.toNat = n at accessed there
    rw [executes]
    simp [execute, of, accessed, there]
  · intro outside
    rw [executes]
    refine ⟨of K (v :: .int i :: .array ref :: S) m.env (m.steps + 1), ?_⟩
    simp [execute, of, access_of_not_has outside, fail]

end Machine

/-- What holds of the arrays in a world, and of every step that is about to read a cell or to set
one. -/
structure World.ArraysExact (setting : Setting) (past : List (World × Action)) (w : World) :
    Prop where
  /-- An array has the length with which it was made. -/
  made : ∀ ref, ref.index < w.commons.shared.store.arrays.size →
    ∃ v context, (v, .act context) ∈ past ∧
      v.Makes setting context ref (w.commons.shared.store.elements ref).size
  /-- It keeps this length, whatever happens later. -/
  kept : ∀ later v, World.Course setting w later v →
    w.commons.shared.store.KeepsArrays v.commons.shared.store
  /-- Contexts refer only to arrays that have been made. -/
  known : ∀ context m, w.machine? context = some m → ∀ ref, .array ref ∈ m.stash.toList →
    ref.index < w.commons.shared.store.arrays.size
  /-- A position that has been checked is still there when others have acted before it is used. -/
  checked : ∀ array index ref n,
    Machine.access w.commons.shared.store array index = .ok (ref, n) →
    ∀ later v, World.Course setting w later v →
      Machine.access v.commons.shared.store array index = .ok (ref, n) ∧
        n < (v.commons.shared.store.elements ref).size ∧
        ∃ value, v.commons.shared.store.element? ref n = some value
  reads : ∀ context m K i ref S, w.machine? context = some m → m.steps < setting.limits.steps →
    m.control.toList = .instruction .index :: K → m.stash.toList = .int i :: .array ref :: S →
    m.Reads setting context.role w.commons.shared ref i K S
  assigns : ∀ context m K i ref v S, w.machine? context = some m → m.steps < setting.limits.steps →
    m.control.toList = .instruction .indexAssign :: K →
    m.stash.toList = v :: .int i :: .array ref :: S →
    m.Assigns setting context.role w.commons.shared ref i v K S

/-- Arrays keep the length with which they were made, in whatever order the contexts of a program
act, and an access names a cell or fails: it succeeds just where the index is a position of the
array, it is no matter what others do between the check and the access, and it changes at most the
one cell. -/
theorem array_accesses_exact (p : Program) {setting : Setting} {w : World}
    {past : List (World × Action)} (course : World.Course setting p.initial past w) :
    w.ArraysExact setting past where
  made ref there := by
    rcases course.makes there with initial | made
    · exact absurd initial (Nat.not_lt_zero _)
    · exact made
  kept later v course := course.keepsArrays
  known context m running ref member :=
    ((World.Refers.initial p).along course).stash context m (World.held?_of_machine? running) _
      member
  checked array index ref n accessed later v course := by
    have again := Machine.access_of_keepsArrays course.keepsArrays accessed
    have there := Machine.lt_of_access again
    exact ⟨again, there, _, Array.getElem?_eq_getElem there⟩
  reads context m K i ref S _ within top stash := Machine.reads_of_index top stash within
  assigns context m K i ref v S _ within top stash :=
    Machine.assigns_of_indexAssign top stash within

/-- An array of two, of which the second cell is set. -/
def setCell : Program :=
  ⟨.indexAssign (.arrayOf [.lit (.int 1), .lit (.int 2)]) (.lit (.int 1)) (.lit (.int 5))⟩

namespace setCell

/-- The cell is about to be set. -/
def world : World :=
  (setCell.initial.run (setCell.setting {}) false 7 ⟨0, World.turnLength⟩ #[]).1

/-- The machine of the main context. -/
def machine : Machine :=
  .of [.instruction .indexAssign] [.int 5, .int 1, .array ⟨0⟩] ⟨[⟨1⟩, ⟨0⟩]⟩ 7

end setCell

theorem array_accesses_exact_setCell :
    (∃ v context, (v, .act context) ∈
        setCell.initial.turns (setCell.setting {}) 7 ⟨0, World.turnLength⟩ ∧
      v.Makes (setCell.setting {}) context ⟨0⟩ 2) ∧
    ∃ store, setCell.world.commons.shared.store.Sets store ⟨0⟩ 1 (.int 5) ∧
      setCell.machine.advance (setCell.setting {}) .main setCell.world.commons.shared =
        .next (.of [] [.int 5] ⟨[⟨1⟩, ⟨0⟩]⟩ 8) { setCell.world.commons.shared with store } := by
  have course : World.Course (setCell.setting {}) setCell.initial _ setCell.world :=
    World.Course.start.run false 7 ⟨0, World.turnLength⟩ #[]
  have exact := array_accesses_exact setCell course
  have has : setCell.world.commons.shared.store.Has ⟨0⟩ 1 := ⟨by decide, by decide⟩
  exact ⟨exact.made ⟨0⟩ (by decide),
    (exact.assigns .main setCell.machine [] 1 ⟨0⟩ (.int 5) [] rfl (by decide) rfl rfl).inside has⟩

end ControlStash
