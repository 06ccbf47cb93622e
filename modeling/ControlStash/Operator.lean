import ControlStash.Fault
import ControlStash.Store.Equality

/-!
# Operators

Integers are words of 64 bits with a sign and wrap around; division of integers goes toward zero. An
integer that meets a float becomes a float. Strings are joined by `+` and ordered by code points. A
comparison with a float that is not a number never holds.
-/

namespace ControlStash

/-- Applies a unary operator. -/
def UnaryOp.apply : UnaryOp → Value → Except Fault Value
  | .neg, .int n => .ok (.int (-n))
  | .neg, .float x => .ok (.float (-x))
  | .not, .bool b => .ok (.bool !b)
  | op, v => .error (.typeError (.unary op v.type))

namespace BinaryOp

/-- The fault of an operator whose operands do not fit. -/
def mismatch (op : BinaryOp) (a b : Value) : Fault :=
  .typeError (.binary op a.type b.type)

/-- Applies an operation on numbers, on integers if both are and on floats if one is. -/
@[inline]
def arithmetic (op : BinaryOp) (onInts : Int64 → Int64 → Int64) (onFloats : Float → Float → Float) :
    Value → Value → Except Fault Value
  | .int a, .int b => .ok (.int (onInts a b))
  | .float a, .float b => .ok (.float (onFloats a b))
  | .int a, .float b => .ok (.float (onFloats a.toFloat b))
  | .float a, .int b => .ok (.float (onFloats a b.toFloat))
  | a, b => .error (op.mismatch a b)

/-- How two operands compare. Of a float that is not a number none of the three holds. -/
structure Comparison where
  below : Bool
  same : Bool
  above : Bool

/-- Compares two numbers or two strings. -/
def compare (op : BinaryOp) : Value → Value → Except Fault Comparison
  | .int a, .int b => .ok ⟨a < b, a == b, b < a⟩
  | .string a, .string b => .ok ⟨a < b, a == b, b < a⟩
  | .float a, .float b => .ok ⟨a < b, a == b, b < a⟩
  | .int a, .float b => .ok ⟨a.toFloat < b, a.toFloat == b, b < a.toFloat⟩
  | .float a, .int b => .ok ⟨a < b.toFloat, a == b.toFloat, b.toFloat < a⟩
  | a, b => .error (op.mismatch a b)

/-- Equality as programs see it: an integer and a float are compared as floats. -/
def equals (store : Store) : Value → Value → Bool
  | .int a, .float b => a.toFloat == b
  | .float a, .int b => a == b.toFloat
  | a, b => store.equal a b

/-- Applies a binary operator. -/
def apply (store : Store) : BinaryOp → Value → Value → Except Fault Value
  | .add, .string a, .string b => .ok (.string (a ++ b))
  | .add, a, b => arithmetic .add (· + ·) (· + ·) a b
  | .sub, a, b => arithmetic .sub (· - ·) (· - ·) a b
  | .mul, a, b => arithmetic .mul (· * ·) (· * ·) a b
  | .div, .int a, .int b => if b = 0 then .error .divisionByZero else .ok (.int (a / b))
  | .div, a, b => arithmetic .div (· / ·) (· / ·) a b
  | .rem, .int a, .int b => if b = 0 then .error .divisionByZero else .ok (.int (a % b))
  | .rem, a, b => .error (mismatch .rem a b)
  | .lt, a, b => (compare .lt a b).map fun c => .bool c.below
  | .le, a, b => (compare .le a b).map fun c => .bool (c.below || c.same)
  | .gt, a, b => (compare .gt a b).map fun c => .bool c.above
  | .ge, a, b => (compare .ge a b).map fun c => .bool (c.above || c.same)
  | .eq, a, b => .ok (.bool (equals store a b))
  | .ne, a, b => .ok (.bool !(equals store a b))

end BinaryOp

end ControlStash
