import ControlStash.Decimal.Shortest

/-!
# Layouts of floating-point text

A layout is the set of decisions a format makes once the digits of a number are known: which way a
tie goes, when positional notation ends, how a whole number is marked, and how the values that have no
digits are spelled. `Layout.text` puts the digits of a double into a layout.
-/

namespace ControlStash.Decimal

/-- The decisions of one format for floating-point text. -/
structure Layout where
  tie : Tie
  /-- Whether positional notation is used, given the decimal exponent of the leading digit. -/
  positional : Int → Bool
  /-- What follows a whole number in positional notation. -/
  wholeMark : String
  nan : String
  infinity : String
  negativeInfinity : String

/-- A string of `n` zeros. -/
def zeros (n : Nat) : String :=
  String.ofList (List.replicate n '0')

/-- The digits in positional notation. -/
def Digits.positional (d : Digits) (wholeMark : String) : String :=
  let text := (Nat.toDigits 10 d.digits)
  let point := (text.length : Int) + d.exponent
  if 0 ≤ d.exponent then
    String.ofList text ++ zeros d.exponent.toNat ++ wholeMark
  else if 0 < point then
    String.ofList (text.take point.toNat) ++ "." ++ String.ofList (text.drop point.toNat)
  else
    "0." ++ zeros (-point).toNat ++ String.ofList text

/-- The decimal exponent of the leading digit. -/
def Digits.leading (d : Digits) : Int :=
  ((Nat.toDigits 10 d.digits).length : Int) + d.exponent - 1

/-- The digits with one digit before the point and a signed exponent. -/
def Digits.scientific (d : Digits) : String :=
  let text := (Nat.toDigits 10 d.digits)
  let fraction := match text.drop 1 with
    | [] => ""
    | rest => "." ++ String.ofList rest
  let sign := if d.leading < 0 then "-" else "+"
  String.ofList (text.take 1) ++ fraction ++ "e" ++ sign ++ toString d.leading.natAbs

/-- The text of a double in the given layout. -/
def Layout.text (layout : Layout) (x : Float) : String :=
  match Reading.ofBits x.toBits with
  | .nan => layout.nan
  | .infinite negative => if negative then layout.negativeInfinity else layout.infinity
  | .finite negative magnitude =>
    let d := magnitude.shortest layout.tie
    let body :=
      if layout.positional d.leading then d.positional layout.wholeMark else d.scientific
    if negative then "-" ++ body else body

end ControlStash.Decimal
