/-!
# Shortest decimals of doubles

A finite double is `mantissa * 2 ^ exponent`, and the reals that round to it form an interval around
it. Its shortest decimal is the one with the fewest significant digits inside that interval, and of
two equally short ones the nearer. The search tries one digit, then two, up to seventeen, and at each
count looks at the two neighbours of the double on that decimal grid, in exact natural arithmetic. If
any point of the grid lies in the interval then so does one of these neighbours, so the first hit is
shortest.
-/

namespace ControlStash.Decimal

/-- Which neighbour is taken when a double lies exactly half-way between two equally short
decimals. -/
inductive Tie where
  /-- The one of greater magnitude. -/
  | away
  /-- The one whose last digit is even. -/
  | toEven
  deriving DecidableEq, Repr

/-- `digits * 10 ^ exponent`, where `digits` is zero or does not end in the digit zero. -/
structure Digits where
  digits : Nat
  exponent : Int
  deriving DecidableEq, Repr

/-- The magnitude of a finite double, `mantissa * 2 ^ exponent`. `narrowBelow` holds at a power of
two, where the gap to the next smaller double is half the gap to the next larger one. -/
structure Magnitude where
  mantissa : Nat
  exponent : Int
  narrowBelow : Bool
  deriving DecidableEq, Repr

/-- What the bits of a double stand for. -/
inductive Reading where
  | nan
  | infinite (negative : Bool)
  | finite (negative : Bool) (magnitude : Magnitude)
  deriving DecidableEq, Repr

/-- Takes the sign, exponent and fraction fields of a double apart. -/
def Reading.ofBits (bits : UInt64) : Reading :=
  let negative := bits >>> 63 == 1
  let exponentField := ((bits >>> 52) &&& 0x7ff).toNat
  let fraction := (bits &&& 0xfffffffffffff).toNat
  if exponentField == 0x7ff then
    if fraction == 0 then .infinite negative else .nan
  else if exponentField == 0 then
    .finite negative ⟨fraction, -1074, false⟩
  else
    .finite negative ⟨fraction + 0x10000000000000, (exponentField : Int) - 1075,
      fraction == 0 && 1 < exponentField⟩

/-- The reals that round to a double, as numerators over one denominator: the double itself and the
two ends of its interval. The ends belong to the interval when `closed` holds, that is when the
mantissa is even. -/
structure Interval where
  low : Nat
  value : Nat
  high : Nat
  denominator : Nat
  closed : Bool

/-- The interval of a magnitude, in quarters of its last binary place. -/
def Magnitude.interval (x : Magnitude) : Interval :=
  let quarters := x.exponent - 2
  let up := Nat.pow 2 quarters.toNat
  { low := (4 * x.mantissa - if x.narrowBelow then 1 else 2) * up
    value := 4 * x.mantissa * up
    high := (4 * x.mantissa + 2) * up
    denominator := Nat.pow 2 (-quarters).toNat
    closed := x.mantissa % 2 == 0 }

/-- The same reals measured in units of `10 ^ unit`. -/
def Interval.inUnits (i : Interval) (unit : Int) : Interval :=
  let up := Nat.pow 10 (-unit).toNat
  { low := i.low * up
    value := i.value * up
    high := i.high * up
    denominator := i.denominator * Nat.pow 10 unit.toNat
    closed := i.closed }

/-- The decimal exponent of the leading digit of a positive value. The binary logarithms give it up
to one, and a comparison with the two powers of ten beside the guess settles it. -/
def Interval.leadingExponent (i : Interval) : Int :=
  let guess := ((Nat.log2 i.value : Int) - Nat.log2 i.denominator) * 30103 / 100000
  let reaches (e : Int) : Bool := (i.inUnits e).denominator ≤ (i.inUnits e).value
  if reaches (guess + 1) then guess + 1 else if reaches guess then guess else guess - 1

/-- The decimal of the grid of whole units that stands for the value, if one of the value's two
neighbours on that grid lies in the interval. -/
def Interval.onGrid? (i : Interval) (tie : Tie) : Option Nat :=
  let below := i.value / i.denominator
  let above := below + 1
  let inside (x bound : Nat) : Bool := x < bound || (i.closed && x == bound)
  let belowFits := inside i.low (below * i.denominator)
  let aboveFits := inside (above * i.denominator) i.high
  let twiceRest := 2 * (i.value % i.denominator)
  if belowFits && aboveFits then
    if twiceRest < i.denominator then some below
    else if i.denominator < twiceRest then some above
    else match tie with
      | .away => some above
      | .toEven => some (if below % 2 == 0 then below else above)
  else if belowFits then some below
  else if aboveFits then some above
  else none

/-- Drops trailing zeros of a nonzero number into the exponent. -/
def Digits.normal (d : Digits) : Digits :=
  if h : d.digits ≠ 0 ∧ d.digits % 10 = 0 then
    Digits.normal ⟨d.digits / 10, d.exponent + 1⟩
  else d
termination_by d.digits
decreasing_by exact Nat.div_lt_self (Nat.pos_of_ne_zero h.1) (by decide)

/-- Tries the grid of `count` significant digits, then finer ones, at most `fuel` grids in all. The
last grid's lower neighbour stands in if no grid fits, which seventeen digits never need. -/
def Interval.search (i : Interval) (tie : Tie) (leading : Int) : (fuel count : Nat) → Digits
  | 0, count =>
    let unit := leading - count + 1
    let scaled := i.inUnits unit
    ⟨scaled.value / scaled.denominator, unit⟩
  | fuel + 1, count =>
    let unit := leading - count + 1
    match (i.inUnits unit).onGrid? tie with
    | some n => ⟨n, unit⟩
    | none => i.search tie leading fuel (count + 1)

/-- The shortest decimal that reads back as the given magnitude. -/
def Magnitude.shortest (x : Magnitude) (tie : Tie) : Digits :=
  if x.mantissa = 0 then ⟨0, 0⟩
  else (x.interval.search tie x.interval.leadingExponent 17 1).normal

end ControlStash.Decimal
