import ControlStash.Store.Basic

/-!
# Faults

Why an execution context stops before its program is done, as causes; `Fault.message` puts a cause
into words. A fault ends the context that raised it. One raised in a goroutine is reported by the run
as a whole as `goroutineFailed`.
-/

namespace ControlStash

/-- A value of the wrong type, by the place that refused it. -/
inductive TypeMismatch where
  | unary (op : UnaryOp) (operand : ValueType)
  | binary (op : BinaryOp) (left right : ValueType)
  | condition (found : ValueType)
  | loopCondition (found : ValueType)
  | callee (found : ValueType)
  | indexed (found : ValueType)
  | position (found : ValueType)
  | lengthOperand (found : ValueType)
  | groupDelta (found : ValueType)
  | goroutine (found : ValueType)
  deriving DecidableEq, Repr

/-- The wording of a type mismatch. -/
def TypeMismatch.message : TypeMismatch → String
  | .unary op a => "operator `" ++ op.symbol ++ "` cannot be applied to " ++ a.name
  | .binary op a b =>
    "operator `" ++ op.symbol ++ "` cannot be applied to " ++ a.name ++ " and " ++ b.name
  | .condition t => "condition expects a bool, found " ++ t.name
  | .loopCondition t => "loop condition expects a bool, found " ++ t.name
  | .callee t => "cannot call a value of type " ++ t.name
  | .indexed t => "cannot index into " ++ t.name
  | .position t => "array index must be an int, found " ++ t.name
  | .lengthOperand t => "array_length expects an array, found " ++ t.name
  | .groupDelta t => "waitGroupAdd expects an int, found " ++ t.name
  | .goroutine t => "cannot start a goroutine on a value of type " ++ t.name

/-- Why an execution context stops early. -/
inductive Fault where
  | unboundName (sym : String)
  | unassignedName (sym : String)
  | arityMismatch (expected received : Nat)
  | typeError (mismatch : TypeMismatch)
  | indexOutOfRange (index : Int64) (length : Nat)
  | divisionByZero
  | unknownInstruction (tag : String)
  | stepLimitExceeded (limit : Nat)
  | controlStackOverflow (limit : Nat)
  | stashUnderflow (step : Nat)
  /-- The stash holds another number of values than one at the end. -/
  | invariantViolation (count : Nat)
  /-- A thrown value that nothing caught, by its printed text. -/
  | uncaughtThrow (text : String)
  | waitGroupMisuse (counter : Int64)
  | deadlock (counter : Int64)
  /-- The host refused to start a goroutine. -/
  | spawnFailed (reason : String)
  | goroutineFailed (id : Nat) (source : Fault)
  deriving DecidableEq, Repr

namespace Fault

/-- The fault that an error of the scope rules raises. -/
def ofScope : ScopeError → Fault
  | .unbound sym => .unboundName sym
  | .unassigned sym => .unassignedName sym
  | .arity expected received => .arityMismatch expected received

/-- The wording of a fault. -/
def message : Fault → String
  | .unboundName sym => (ScopeError.unbound sym).message
  | .unassignedName sym => (ScopeError.unassigned sym).message
  | .arityMismatch expected received => (ScopeError.arity expected received).message
  | .typeError mismatch => "type error: " ++ mismatch.message
  | .indexOutOfRange index length =>
    "array index " ++ toString index.toInt ++ " out of range (length " ++ toString length ++ ")"
  | .divisionByZero => "division by zero"
  | .unknownInstruction tag => "unknown instruction `" ++ tag ++ "`"
  | .stepLimitExceeded limit => "step limit " ++ toString limit ++ " exceeded"
  | .controlStackOverflow limit => "control stack overflow (limit " ++ toString limit ++ ")"
  | .stashUnderflow step => "stash underflow at step " ++ toString step
  | .invariantViolation count =>
    "internal error: stash must hold exactly one value but holds " ++ toString count
  | .uncaughtThrow text => "uncaught throw: " ++ text
  | .waitGroupMisuse counter => "negative wait-group counter " ++ toString counter.toInt
  | .deadlock counter =>
    "deadlock: waiting on counter " ++ toString counter.toInt ++ " with no running goroutines"
  | .spawnFailed reason => "failed to spawn goroutine: " ++ reason
  | .goroutineFailed id source => "goroutine " ++ toString id ++ " failed: " ++ source.message

end Fault

end ControlStash
