import ControlStash.Proofs.Scope

/-!
# Environments that share frames

A store of frames is built by making outermost environments, by extending environments and by
assigning through them (`Store.Built`). The frames of an environment are always older the further out
they are, so that no chain of frames comes back to itself (`Store.Built.descends`).

What an operation does is said for every environment of the store at once, through the innermost
frame that binds a name (`Store.binder?`). An extension is seen by the new environment only. An
assignment is seen by all environments in which the name is bound by the frame that was written,
under that name, and by nobody else (`shared_frames`).
-/

namespace ControlStash

namespace Frame

/-- Of several bindings for a name the last one counts. -/
theorem find?_ofBindings (bindings : List (String × Value)) (x : String) :
    (ofBindings bindings).find? x = bindings.reverse.lookup x := by
  have folded : ∀ (added : List (String × Value)) (frame : Frame),
      (added.foldl (fun frame b => frame.insert b.1 b.2) frame).find? x =
        (added.reverse.lookup x).or (frame.find? x) := by
    intro added
    induction added with
    | nil => intro frame; rfl
    | cons b added ih =>
      intro frame
      obtain ⟨y, w⟩ := b
      rw [List.foldl_cons, ih, find?_insert, List.reverse_cons, List.lookup_append, Option.or_assoc]
      by_cases same : x = y <;> simp [List.lookup_cons, beq_eq_decide, same]
  rw [ofBindings, folded bindings ⟨[]⟩]
  exact Option.or_none

/-- Of several positions of a name among the names the last one counts. -/
theorem find?_ofBindings_zip {names : List String} {values : List Value} {x : String} {v : Value}
    {i : Nat} (here : names[i]? = some x) (last : ∀ j, i < j → names[j]? ≠ some x)
    (value : values[i]? = some v) : (ofBindings (names.zip values)).find? x = some v := by
  have pair : (names.zip values)[i]? = some (x, v) := List.getElem?_zip_eq_some.mpr ⟨here, value⟩
  have later : ((names.zip values).drop (i + 1)).reverse.lookup x = none := by
    rw [List.lookup_eq_none_iff]
    rintro ⟨y, w⟩ member
    obtain ⟨j, found⟩ := List.mem_iff_getElem?.mp (List.mem_reverse.mp member)
    rw [List.getElem?_drop] at found
    have named := (List.getElem?_zip_eq_some.mp found).1
    rw [bne_iff_ne]
    rintro rfl
    exact last _ (by omega) named
  rw [find?_ofBindings, ← List.take_append_drop (i + 1) (names.zip values),
    List.reverse_append, List.lookup_append, later, Option.none_or, List.take_add_one, pair]
  simp

theorem find?_ofBindings_zip_of_not_mem {names : List String} {x : String} (absent : x ∉ names)
    (values : List Value) : (ofBindings (names.zip values)).find? x = none := by
  rw [find?_eq_none_iff, mem_names_ofBindings]
  rintro member
  obtain ⟨⟨y, w⟩, pair, rfl⟩ := List.mem_map.mp member
  exact absent (List.of_mem_zip pair).1

end Frame

namespace Store

variable {store store' : Store} {env inner other : Env} {envs : List Env} {x y : String}
  {v : Value} {ref ref' : FrameRef} {refs : List FrameRef}

/-! ## Innermost frames -/

/-- What a name reads as that is bound to a value. -/
def reading (sym : String) : Value → Except ScopeError Value
  | .unassigned => .error (.unassigned sym)
  | v => .ok v

/-- The first of some frames that binds a name. -/
def firstBinder? (store : Store) (sym : String) (refs : List FrameRef) : Option FrameRef :=
  refs.find? fun ref => (store.inFrame? ref sym).isSome

/-- The innermost frame of an environment that binds a name. -/
def binder? (store : Store) (env : Env) (sym : String) : Option FrameRef :=
  store.firstBinder? sym env.frames

theorem firstBinder?_cons :
    store.firstBinder? x (ref :: refs) =
      if (store.inFrame? ref x).isSome then some ref else store.firstBinder? x refs := by
  rw [firstBinder?, List.find?_cons]
  split <;> simp [*, firstBinder?]

theorem bound_of_firstBinder? (first : store.firstBinder? x refs = some ref) :
    (store.inFrame? ref x).isSome := by
  simpa using List.find?_some first

theorem resolve?_eq (store : Store) (x : String) (refs : List FrameRef) :
    store.resolve? x refs = (store.firstBinder? x refs).bind fun ref =>
      (store.inFrame? ref x).map fun v => (ref, v) := by
  induction refs with
  | nil => rfl
  | cons ref refs ih =>
    rw [resolve?, firstBinder?_cons]
    cases bound : store.inFrame? ref x with
    | none => exact ih
    | some v => simp [bound]

theorem lookup_of_resolve? (resolved : store.resolve? x env.frames = some (ref, v)) :
    store.lookup env x = reading x v := by
  rw [lookup, resolved]
  cases v <;> rfl

theorem lookup_congr (same : store'.resolve? x env.frames = store.resolve? x env.frames) :
    store'.lookup env x = store.lookup env x := by
  rw [lookup, lookup, same]

theorem resolve?_congr
    (same : ∀ ref, ref ∈ refs → store'.inFrame? ref x = store.inFrame? ref x) :
    store'.resolve? x refs = store.resolve? x refs := by
  induction refs with
  | nil => rfl
  | cons ref refs ih =>
    obtain ⟨here, further⟩ := List.forall_mem_cons.mp same
    rw [resolve?, resolve?, here, ih further]

/-! ## A new frame -/

theorem inFrame?_pushFrame (frame : Frame) (env : Env) (old : ref.index < store.frames.size) :
    (store.pushFrame frame env).2.inFrame? ref x = store.inFrame? ref x := by
  rw [inFrame?, inFrame?]
  simp only [pushFrame, Array.getElem?_push]
  rw [if_neg (by omega)]

theorem inFrame?_pushFrame_new (frame : Frame) (env : Env) :
    (store.pushFrame frame env).2.inFrame? ⟨store.frames.size⟩ x = frame.find? x := by
  simp [inFrame?, pushFrame]

theorem resolve?_pushFrame (frame : Frame) (env : Env)
    (old : ∀ ref ∈ refs, ref.index < store.frames.size) :
    (store.pushFrame frame env).2.resolve? x refs = store.resolve? x refs :=
  resolve?_congr fun ref held => inFrame?_pushFrame frame env (old ref held)

/-- A name is sought in the new frame first. -/
theorem resolve?_pushFrame_front (store : Store) (frame : Frame) (env : Env) (x : String) :
    (store.pushFrame frame env).2.resolve? x (store.pushFrame frame env).1.frames =
      match frame.find? x with
      | some v => some (⟨store.frames.size⟩, v)
      | none => (store.pushFrame frame env).2.resolve? x env.frames := by
  rw [← inFrame?_pushFrame_new frame env]
  rfl

/-! ## Writing to a frame -/

theorem inFrame?_setInFrame (bound : (store.inFrame? ref x).isSome) :
    (store.setInFrame ref x v).inFrame? ref' y =
      if ref' = ref ∧ y = x then some v else store.inFrame? ref' y := by
  obtain ⟨place⟩ := ref
  obtain ⟨place'⟩ := ref'
  simp only [inFrame?, setInFrame, Array.getElem?_modify] at bound ⊢
  by_cases here : place = place'
  · subst here
    cases found : store.frames[place]? with
    | none => simp [found] at bound
    | some frame => simp [Frame.find?_insert]
  · rw [if_neg here, if_neg]
    simp [Ne.symm here]

/-- A frame that is written binds no new name, so the innermost frame that binds a name is the same
as before. -/
theorem resolve?_setInFrame (bound : (store.inFrame? ref x).isSome) (refs : List FrameRef) :
    (store.setInFrame ref x v).resolve? y refs =
      if y = x ∧ store.firstBinder? x refs = some ref then some (ref, v)
      else store.resolve? y refs := by
  induction refs with
  | nil => simp [resolve?, firstBinder?]
  | cons first refs ih =>
    rw [resolve?, resolve?, ih, inFrame?_setInFrame bound, firstBinder?_cons]
    by_cases named : y = x
    · subst named
      by_cases here : first = ref
      · subst here
        simp [bound]
      · cases found : store.inFrame? first y <;> simp [here]
    · simp [named]

theorem lookup_setInFrame (bound : (store.inFrame? ref x).isSome) :
    (store.setInFrame ref x v).lookup env y =
      if y = x ∧ store.binder? env x = some ref then reading x v else store.lookup env y := by
  have resolved := resolve?_setInFrame (v := v) (y := y) bound env.frames
  rw [binder?]
  split
  · next seen =>
    rw [if_pos seen] at resolved
    rw [lookup_of_resolve? resolved, seen.1]
  · next unseen =>
    rw [if_neg unseen] at resolved
    exact lookup_congr resolved

/-! ## Stores built by operations on environments -/

/-- The stores that come from an empty one by making, extending and assigning environments, each
with the environments made on the way. -/
inductive Built : Store → List Env → Prop
  | empty : Built {} []
  | root {store : Store} {envs : List Env} (bindings : List (String × Value)) : Built store envs →
    Built (store.root bindings).2 ((store.root bindings).1 :: envs)
  | extend {store store' : Store} {envs : List Env} {env inner : Env} {names : List String}
    {values : List Value} : Built store envs → env ∈ envs →
    store.extend env names values = .ok (inner, store') → Built store' (inner :: envs)
  | assign {store store' : Store} {envs : List Env} {env : Env} {x : String} {v : Value} :
    Built store envs → env ∈ envs → store.assign env x v = .ok store' → Built store' envs

/-- The frames of an environment are those of a store, and each of them is older than those further
in. -/
structure Descends (store : Store) (env : Env) : Prop where
  nonempty : env.frames ≠ []
  older : env.frames.Pairwise fun nearer farther => farther.index < nearer.index
  lt_size : ∀ ref ∈ env.frames, ref.index < store.frames.size

theorem Descends.mono (descends : store.Descends env)
    (grown : store.frames.size ≤ store'.frames.size) : store'.Descends env :=
  ⟨descends.nonempty, descends.older, fun ref held => Nat.lt_of_lt_of_le (descends.lt_size ref held)
    grown⟩

/-- A new frame may go in front of any frames of the store. -/
theorem descends_pushFrame (frame : Frame)
    (older : env.frames.Pairwise fun nearer farther => farther.index < nearer.index)
    (lt_size : ∀ ref ∈ env.frames, ref.index < store.frames.size) :
    (store.pushFrame frame env).2.Descends (store.pushFrame frame env).1 := by
  refine ⟨List.cons_ne_nil _ _, List.pairwise_cons.mpr ⟨lt_size, older⟩, ?_⟩
  intro ref held
  rw [pushFrame, Array.size_push]
  rcases List.mem_cons.mp held with rfl | held
  · exact Nat.lt_succ_self _
  · exact Nat.lt_succ_of_lt (lt_size ref held)

theorem size_pushFrame (frame : Frame) (env : Env) :
    store.frames.size ≤ (store.pushFrame frame env).2.frames.size := by
  simp [pushFrame]

theorem extend_eq {names : List String} {values : List Value} :
    store.extend env names values =
      if names.length = values.length then
        .ok (store.pushFrame (.ofBindings (names.zip values)) env)
      else .error (.arity names.length values.length) :=
  rfl

theorem assign_eq :
    store.assign env x v =
      match store.binder? env x with
      | some ref => .ok (store.setInFrame ref x v)
      | none => .error (.unbound x) := by
  rw [assign, resolve?_eq, binder?]
  cases first : store.firstBinder? x env.frames with
  | none => rfl
  | some ref =>
    obtain ⟨w, bound⟩ := Option.isSome_iff_exists.mp (bound_of_firstBinder? first)
    rw [Option.bind_some, bound]
    rfl

theorem Built.descends (built : Built store envs) : ∀ env ∈ envs, store.Descends env := by
  induction built with
  | empty => exact fun env held => absurd held List.not_mem_nil
  | root bindings built ih =>
    refine List.forall_mem_cons.mpr ⟨descends_pushFrame _ .nil nofun, fun env held => ?_⟩
    exact (ih env held).mono (size_pushFrame _ _)
  | @extend store store' envs env inner names values built held extended ih =>
    rw [extend_eq] at extended
    split at extended
    · cases extended
      have under := ih _ held
      refine List.forall_mem_cons.mpr
        ⟨descends_pushFrame _ under.older under.lt_size, fun other held => ?_⟩
      exact (ih other held).mono (size_pushFrame _ env)
    · cases extended
  | assign built held assigned ih =>
    rw [assign_eq] at assigned
    split at assigned
    · cases assigned
      refine fun env held => (ih env held).mono ?_
      simp [setInFrame]
    · cases assigned

end Store

open Store (reading)

/-- Of a store built by operations on environments, in which each environment is a chain of ever
older frames: extending succeeds if there are as many names as values. The new environment then
reads each of the names as the value at the last position of that name and all others as the old
one does, and no other environment notices. Assigning succeeds if some frame of the environment
binds the name, and else does nothing. The environments in which the same frame is the innermost one
that binds the name then read it as the new value, and nothing else changes for anyone. -/
theorem shared_frames {store : Store} {envs : List Env} {env : Env} (built : Store.Built store envs)
    (held : env ∈ envs) :
    store.Descends env ∧
    (∀ (names : List String) (values : List Value),
      if names.length = values.length then
        ∃ inner store', store.extend env names values = .ok (inner, store') ∧
          inner.frames = ⟨store.frames.size⟩ :: env.frames ∧
          (∀ (x : String) (v : Value) (i : Nat), names[i]? = some x →
            (∀ j, i < j → names[j]? ≠ some x) → values[i]? = some v →
              store'.lookup inner x = reading x v) ∧
          (∀ x, x ∉ names → store'.lookup inner x = store.lookup env x) ∧
          ∀ other ∈ envs, ∀ y, store'.lookup other y = store.lookup other y
      else store.extend env names values = .error (.arity names.length values.length)) ∧
    ∀ x v,
      if ∃ ref ∈ env.frames, (store.inFrame? ref x).isSome then
        ∃ store', store.assign env x v = .ok store' ∧ ∀ other ∈ envs, ∀ y,
          store'.lookup other y =
            if y = x ∧ store.binder? other x = store.binder? env x then reading x v
            else store.lookup other y
      else store.assign env x v = .error (.unbound x) := by
  have descends := built.descends env held
  refine ⟨descends, fun names values => ?_, fun x v => ?_⟩
  · rw [Store.extend_eq]
    split
    · let frame := Frame.ofBindings (names.zip values)
      refine ⟨(store.pushFrame frame env).1, (store.pushFrame frame env).2, rfl, rfl,
        fun x v i here last value => ?_, fun x absent => ?_, fun other known y => ?_⟩
      · have bound := Frame.find?_ofBindings_zip here last value
        have resolved := store.resolve?_pushFrame_front frame env x
        rw [bound] at resolved
        exact Store.lookup_of_resolve? resolved
      · have unbound := Frame.find?_ofBindings_zip_of_not_mem absent values
        have resolved := store.resolve?_pushFrame_front frame env x
        have outer := Store.resolve?_pushFrame (x := x) frame env descends.lt_size
        rw [unbound] at resolved
        rw [Store.lookup, resolved.trans outer, Store.lookup]
      · have under := built.descends other known
        exact Store.lookup_congr (Store.resolve?_pushFrame frame env under.lt_size)
    · rfl
  · rw [Store.assign_eq]
    split
    · next somewhere =>
      obtain ⟨ref, first⟩ : ∃ ref, store.binder? env x = some ref :=
        Option.isSome_iff_exists.mp (List.find?_isSome.mpr somewhere)
      have bound := Store.bound_of_firstBinder? first
      rw [first]
      exact ⟨store.setInFrame ref x v, rfl, fun other known y => Store.lookup_setInFrame bound⟩
    · next nowhere =>
      have none : store.binder? env x = none :=
        List.find?_eq_none.mpr fun ref held bound => nowhere ⟨ref, held, bound⟩
      rw [none]

/-- A name bound in an outermost frame and again, twice, in the frame in front of it. -/
def shadowing : Store :=
  ((({} : Store).root [("x", .int 1)]).2.pushFrame
    (.ofBindings (["x", "y", "x"].zip [.int 2, .unassigned, .int 3])) ⟨[⟨0⟩]⟩).2

theorem shared_frames_shadowing :
    let outer : Env := ⟨[⟨0⟩]⟩
    let inner : Env := ⟨[⟨1⟩, ⟨0⟩]⟩
    shadowing.Built [inner, outer] ∧ outer ∈ [inner, outer] ∧
      ∃ store, shadowing.assign outer "x" (.int 4) = .ok store ∧
        store.lookup outer "x" = .ok (.int 4) ∧ store.lookup inner "x" = .ok (.int 3) ∧
        store.lookup inner "y" = .error (.unassigned "y") := by
  intro outer inner
  have extended : (({} : Store).root [("x", .int 1)]).2.extend outer ["x", "y", "x"]
      [.int 2, .unassigned, .int 3] = .ok (inner, shadowing) := rfl
  have built : shadowing.Built [inner, outer] :=
    .extend (.root [("x", .int 1)] .empty) List.mem_cons_self extended
  have held : outer ∈ [inner, outer] := by decide
  have assigned := (shared_frames built held).2.2 "x" (.int 4)
  rw [if_pos (by decide)] at assigned
  obtain ⟨store, assigned, reads⟩ := assigned
  refine ⟨built, held, store, assigned, ?_, ?_, ?_⟩
  · exact (reads outer held "x").trans (if_pos (by decide))
  · exact (reads inner List.mem_cons_self "x").trans (if_neg (by decide))
  · exact (reads inner List.mem_cons_self "y").trans (if_neg (by decide))

end ControlStash
