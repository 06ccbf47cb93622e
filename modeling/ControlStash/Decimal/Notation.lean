/-!
# Decimal notation as input

What counts as a number where one is expected in plain text: `parseWord?` reads whole numbers of 64
bits, and `isNumber` recognises the texts of floating-point numbers.
-/

namespace ControlStash.Decimal

/-- A number of at most 64 bits in decimal, perhaps after a plus sign. -/
def parseWord? (s : String) : Option Nat :=
  let digits := match s.toList with
    | '+' :: rest => rest
    | cs => cs
  if digits.isEmpty || !digits.all Char.isDigit then none
  else
    let n := digits.foldl (fun n d => n * 10 + (d.toNat - '0'.toNat)) 0
    if n < UInt64.size then some n else none

/-- The text behind one sign, if there is one. -/
def dropSign : List Char → List Char
  | '+' :: cs => cs
  | '-' :: cs => cs
  | cs => cs

/-- Whether the text is empty or an exponent: its letter, perhaps a sign, and digits. -/
def isExponent : List Char → Bool
  | [] => true
  | e :: cs =>
    let digits := dropSign cs
    (e == 'e' || e == 'E') && !digits.isEmpty && digits.all Char.isDigit

/-- Whether the text is a number without a sign: digits with at most one point among them and perhaps
an exponent behind them. -/
def isUnsigned (cs : List Char) : Bool :=
  let whole := cs.takeWhile Char.isDigit
  match cs.dropWhile Char.isDigit with
  | '.' :: rest =>
    let fraction := rest.takeWhile Char.isDigit
    !(whole.isEmpty && fraction.isEmpty) && isExponent (rest.dropWhile Char.isDigit)
  | rest => !whole.isEmpty && isExponent rest

/-- Whether the text is a floating-point number, perhaps with a sign. The names of the values that
have no digits count, in either case. -/
def isNumber (s : String) : Bool :=
  let cs := dropSign s.toList
  isUnsigned cs || ["inf", "infinity", "nan"].contains (String.ofList cs).toLower

end ControlStash.Decimal
