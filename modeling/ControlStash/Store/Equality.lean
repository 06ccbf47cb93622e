import Std.Data.HashSet
import ControlStash.Store.Basic

/-!
# Equality of values

Scalars are equal by type and content, floats as numbers, closures by identity. Arrays are equal when
they are the same array or have equal elements; a pair of arrays already under comparison is taken to
be equal, which settles arrays inside themselves.

The pairs still to be compared form a list. The work ends because each pair of arrays is unfolded
once: `room` counts the pairs that still may be. Arrays without elements need no unfolding.
-/

namespace ControlStash

/-- Equality of values that are not both arrays. -/
def Value.sameScalar : Value → Value → Bool
  | .undefined, .undefined => true
  | .unassigned, .unassigned => true
  | .int a, .int b => a == b
  | .float a, .float b => a == b
  | .bool a, .bool b => a == b
  | .string a, .string b => a == b
  | .closure a, .closure b => a.stamp == b.stamp
  | .builtin a, .builtin b => a == b
  | _, _ => false

namespace Store

/-- Whether all pending pairs are equal, given that the assumed pairs of arrays are. -/
def allEqual (store : Store) (room : Nat) (assumed : Std.HashSet (ArrayRef × ArrayRef))
    (pending : List (Value × Value)) : Bool :=
  match pending with
  | [] => true
  | (.array a, .array b) :: pending =>
    if a = b ∨ assumed.contains (a, b) then store.allEqual room assumed pending
    else if (store.elements a).size ≠ (store.elements b).size then false
    else if (store.elements a).isEmpty then store.allEqual room assumed pending
    else
      match room with
      | 0 => store.allEqual 0 assumed pending
      | room + 1 =>
        store.allEqual room (assumed.insert (a, b))
          (((store.elements a).toList.zip (store.elements b).toList) ++ pending)
  | (a, b) :: pending => if a.sameScalar b then store.allEqual room assumed pending else false
termination_by (room, pending.length)

/-- Equality of two values. -/
def equal (store : Store) (a b : Value) : Bool :=
  match a, b with
  | .array a, .array b =>
    store.allEqual (store.arrays.size * store.arrays.size) ∅ [(.array a, .array b)]
  | a, b => a.sameScalar b

end Store

end ControlStash
