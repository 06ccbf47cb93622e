/-!
# Ranges of code points

Classes of characters are tables of inclusive ranges of code points in increasing order.
-/

namespace ControlStash.Text

/-- Whether a code point lies in one of the listed inclusive ranges. -/
def inRanges (ranges : List (Nat × Nat)) (code : Nat) : Bool :=
  ranges.any fun r => r.1 ≤ code && code ≤ r.2

end ControlStash.Text
