import ControlStash.Value

/-!
# The store

Frames and arrays, each at a fixed place once made. A frame binds names to values; an environment is a
list of frames, and looking a name up takes the first of them that binds it. Extending an environment
puts a new frame in front and leaves the old frames shared, so an assignment through one environment
is seen by every other that holds the same frame.
-/

namespace ControlStash

/-- The bindings of one scope, one for each name. -/
structure Frame where
  bindings : List (String × Value)

namespace Frame

instance : Inhabited Frame := ⟨⟨[]⟩⟩

/-- The value bound to a name. -/
def find? (frame : Frame) (sym : String) : Option Value :=
  frame.bindings.lookup sym

/-- Replaces the binding of a name, or adds one at the end. -/
def insertInto (sym : String) (value : Value) : List (String × Value) → List (String × Value)
  | [] => [(sym, value)]
  | (s, v) :: bindings =>
    if s = sym then (s, value) :: bindings else (s, v) :: insertInto sym value bindings

/-- Binds a name to a value, in place of its former value if it has one. -/
def insert (frame : Frame) (sym : String) (value : Value) : Frame :=
  ⟨insertInto sym value frame.bindings⟩

/-- The frame of a list of bindings, in which a later one for the same name wins. -/
def ofBindings (bindings : List (String × Value)) : Frame :=
  bindings.foldl (fun frame b => frame.insert b.1 b.2) ⟨[]⟩

/-- The names that a frame binds. -/
def names (frame : Frame) : List String :=
  frame.bindings.map (·.1)

end Frame

/-- Why a name could not be resolved or a scope not be made. -/
inductive ScopeError where
  | unbound (sym : String)
  | unassigned (sym : String)
  | arity (expected received : Nat)
  deriving DecidableEq, Repr

/-- The wording of an error. -/
def ScopeError.message : ScopeError → String
  | .unbound sym => "unbound name `" ++ sym ++ "`"
  | .unassigned sym => "name `" ++ sym ++ "` used before initialization"
  | .arity expected received =>
    "expected " ++ toString expected ++ " arguments but received " ++ toString received

/-- All frames and arrays of a run, and the number of closure stamps given out. -/
structure Store where
  frames : Array Frame := #[]
  arrays : Array (Array Value) := #[]
  stamps : Nat := 0

namespace Store

instance : Inhabited Store := ⟨{}⟩

/-! ## Frames and environments -/

/-- Puts a new frame in front of an environment. -/
@[inline]
def pushFrame (store : Store) (frame : Frame) (env : Env) : Env × Store :=
  (⟨⟨store.frames.size⟩ :: env.frames⟩, { store with frames := store.frames.push frame })

/-- An outermost environment with the given bindings. -/
def root (store : Store) (bindings : List (String × Value)) : Env × Store :=
  store.pushFrame (.ofBindings bindings) ⟨[]⟩

/-- Binds names to values in a new frame in front of an environment. -/
@[inline]
def extend (store : Store) (env : Env) (names : List String) (values : List Value) :
    Except ScopeError (Env × Store) :=
  if names.length = values.length then
    .ok (store.pushFrame (.ofBindings (names.zip values)) env)
  else .error (.arity names.length values.length)

/-- The value bound to a name in the frame at a place. -/
def inFrame? (store : Store) (ref : FrameRef) (sym : String) : Option Value :=
  match store.frames[ref.index]? with
  | some frame => frame.find? sym
  | none => none

/-- The first of the frames that binds a name, with the value it binds the name to. -/
def resolve? (store : Store) (sym : String) : List FrameRef → Option (FrameRef × Value)
  | [] => none
  | ref :: refs =>
    match store.inFrame? ref sym with
    | some value => some (ref, value)
    | none => store.resolve? sym refs

/-- The value of a name. -/
def lookup (store : Store) (env : Env) (sym : String) : Except ScopeError Value :=
  match store.resolve? sym env.frames with
  | none => .error (.unbound sym)
  | some (_, .unassigned) => .error (.unassigned sym)
  | some (_, value) => .ok value

/-- Gives a name a new value in the frame at a place. -/
@[inline]
def setInFrame (store : Store) (ref : FrameRef) (sym : String) (value : Value) : Store :=
  { store with frames := store.frames.modify ref.index (·.insert sym value) }

/-- Gives a name a new value in the innermost frame that binds it. -/
@[inline]
def assign (store : Store) (env : Env) (sym : String) (value : Value) : Except ScopeError Store :=
  match store.resolve? sym env.frames with
  | none => .error (.unbound sym)
  | some (ref, _) => .ok (store.setInFrame ref sym value)

/-- The names bound by the innermost frame of an environment. -/
def innermostNames (store : Store) (env : Env) : List String :=
  match env.frames with
  | [] => []
  | ref :: _ => (store.frames[ref.index]?.map Frame.names).getD []

/-! ## Arrays -/

/-- Makes a new array. -/
@[inline]
def newArray (store : Store) (elements : Array Value) : ArrayRef × Store :=
  (⟨store.arrays.size⟩, { store with arrays := store.arrays.push elements })

/-- The elements of an array. -/
def elements (store : Store) (ref : ArrayRef) : Array Value :=
  store.arrays[ref.index]?.getD #[]

/-- The element at a position. -/
def element? (store : Store) (ref : ArrayRef) (position : Nat) : Option Value :=
  (store.elements ref)[position]?

/-- Replaces the element at a position; nothing changes if there is none. -/
@[inline]
def setElement (store : Store) (ref : ArrayRef) (position : Nat) (value : Value) : Store :=
  { store with arrays := store.arrays.modify ref.index (·.setIfInBounds position value) }

/-! ## Closures -/

/-- Makes a new closure, different from all others. -/
@[inline]
def newClosure (store : Store) (params : List String) (body : Command) (env : Env) :
    Closure × Store :=
  (⟨store.stamps, params, body, env⟩, { store with stamps := store.stamps + 1 })

end Store

end ControlStash
