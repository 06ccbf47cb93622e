import ControlStash.Command.Basic

/-!
# Values

What commands evaluate to. Arrays and frames live in a store and values refer to them by their place
there, so that copying a value never copies the array it refers to and every alias sees an assignment.
A closure carries a stamp, given out once per evaluation of a lambda, which is its identity.
-/

namespace ControlStash

/-- The place of a frame in the store. -/
structure FrameRef where
  index : Nat
  deriving DecidableEq, Repr

/-- The place of an array in the store. -/
structure ArrayRef where
  index : Nat
  deriving DecidableEq, Hashable, Repr

/-- An environment: the frames in which a name is looked up, innermost first. -/
structure Env where
  frames : List FrameRef
  deriving DecidableEq, Repr

/-- The number of frames of an environment. -/
def Env.depth (env : Env) : Nat :=
  env.frames.length

/-- A function value: parameters, body and the environment of the lambda that made it. -/
structure Closure where
  /-- The identity of the closure. -/
  stamp : Nat
  params : List String
  body : Command
  env : Env

/-- A function that the machine provides, known by its name. -/
structure Builtin where
  name : String
  arity : Nat
  deriving DecidableEq, Repr

/-- What a command evaluates to. -/
inductive Value where
  | undefined
  /-- The content of a declared name whose declaration has not been executed. A lookup refuses it, so
  no program ever holds it. -/
  | unassigned
  | int (n : Int64)
  | float (x : Float)
  | bool (b : Bool)
  | string (s : String)
  | array (ref : ArrayRef)
  | closure (c : Closure)
  | builtin (b : Builtin)

/-- The types of values. -/
inductive ValueType where
  | undefined
  | unassigned
  | int
  | float
  | bool
  | string
  | array
  | closure
  | builtin
  deriving DecidableEq, Repr

/-- The name of a type in messages. -/
def ValueType.name : ValueType → String
  | undefined => "undefined"
  | unassigned => "unassigned"
  | int => "int"
  | float => "float"
  | bool => "bool"
  | string => "string"
  | array => "array"
  | closure => "closure"
  | builtin => "builtin"

namespace Value

instance : Inhabited Value := ⟨.undefined⟩

/-- The type of a value. -/
def type : Value → ValueType
  | .undefined => .undefined
  | .unassigned => .unassigned
  | .int _ => .int
  | .float _ => .float
  | .bool _ => .bool
  | .string _ => .string
  | .array _ => .array
  | .closure _ => .closure
  | .builtin _ => .builtin

/-- The value of a literal. -/
def ofLiteral : Literal → Value
  | .bool b => .bool b
  | .int n => .int n
  | .float x => .float x
  | .string s => .string s
  | .undefined => .undefined

end Value

end ControlStash
