import ControlStash.Json.Basic
import ControlStash.Text.Hexadecimal

/-!
# JSON tokens

`Token.scan` cuts a text into brackets, marks, words, numbers and strings, dropping the blanks between
them. The first thing that is no token ends the scan with `Token.unreadable`, so the tokens before it
can still be looked at.

Numbers are read as a significand of at most 64 bits and a power of ten. A number that is not an
integer of 64 bits becomes the double `significand * 10 ^ exponent`, computed with one rounding for
the significand and one for the multiplication or division by the power of ten.
-/

namespace ControlStash.Json

/-- A lexical unit of a JSON text. -/
inductive Token where
  | openBrace
  | closeBrace
  | openBracket
  | closeBracket
  | colon
  | comma
  | null
  | bool (b : Bool)
  | number (n : Number)
  | string (s : String)
  /-- The rest of the text does not start with a token. -/
  | unreadable
  deriving DecidableEq

/-- The characters that may stand between two tokens. -/
def isBlank (c : Char) : Bool :=
  c == ' ' || c == '\n' || c == '\t' || c == '\r'

/-! ## Strings -/

/-- The number that four hexadecimal digits spell. -/
def hexUnit? (a b c d : Char) : Option Nat := do
  let a ← Text.hexValue? a
  let b ← Text.hexValue? b
  let c ← Text.hexValue? c
  let d ← Text.hexValue? d
  return ((a * 16 + b) * 16 + c) * 16 + d

/-- The character that an escape letter other than `u` stands for. -/
def escaped? : Char → Option Char
  | '"' => some '"'
  | '\\' => some '\\'
  | '/' => some '/'
  | 'b' => some '\x08'
  | 'f' => some '\x0c'
  | 'n' => some '\n'
  | 'r' => some '\r'
  | 't' => some '\t'
  | _ => none

/-- Reads one character of a string that has been opened: a plain character, or an escape. A
character beyond the basic plane may be spelled as two escapes, high half first; a half on its own is
refused, and so are raw control characters. -/
def scanChar? : List Char → Option (Char × List Char)
  | '\\' :: 'u' :: a :: b :: c :: d :: rest =>
    match hexUnit? a b c d with
    | none => none
    | some unit =>
      if 0xD800 ≤ unit ∧ unit < 0xDC00 then
        match rest with
        | '\\' :: 'u' :: e :: f :: g :: h :: rest =>
          match hexUnit? e f g h with
          | none => none
          | some low =>
            if 0xDC00 ≤ low ∧ low < 0xE000 then
              some (Char.ofNat (0x10000 + (unit - 0xD800) * 0x400 + (low - 0xDC00)), rest)
            else none
        | _ => none
      else if 0xDC00 ≤ unit ∧ unit < 0xE000 then none
      else some (Char.ofNat unit, rest)
  | '\\' :: letter :: rest => (escaped? letter).map (·, rest)
  | c :: rest => if c.toNat < 0x20 ∨ c = '\\' then none else some (c, rest)
  | [] => none

theorem length_of_scanChar? {cs rest : List Char} {c : Char} (h : scanChar? cs = some (c, rest)) :
    rest.length < cs.length := by
  revert h
  fun_cases scanChar? cs <;> simp_all <;> grind

/-- Reads a string that has been opened, up to and including its closing quote. -/
def scanString? (cs : List Char) (done : List Char) : Option (String × List Char) :=
  match cs with
  | '"' :: rest => some (String.ofList done.reverse, rest)
  | cs =>
    match _h : scanChar? cs with
    | none => none
    | some (c, rest) => scanString? rest (c :: done)
termination_by cs.length
decreasing_by exact length_of_scanChar? (by assumption)

theorem length_of_scanString? {cs done rest : List Char} {s : String}
    (h : scanString? cs done = some (s, rest)) : rest.length < cs.length := by
  fun_induction scanString? cs done with
  | case1 done rest' => simp_all
  | case2 => simp_all
  | case3 cs done _ c rest' hc ih => exact Nat.lt_trans (ih h) (length_of_scanChar? hc)

/-! ## Numbers -/

/-- The value of a run of decimal digits appended to `start`. -/
def digitsValue (start : Nat) (ds : List Char) : Nat :=
  ds.foldl (fun n d => n * 10 + (d.toNat - '0'.toNat)) start

/-- Appends decimal digits to a significand for as long as it fits 64 bits; gives the significand and
the digits that no longer fit. -/
def fillSignificand (n : Nat) : List Char → Nat × List Char
  | [] => (n, [])
  | d :: ds =>
    let next := n * 10 + (d.toNat - '0'.toNat)
    if next < UInt64.size then fillSignificand next ds else (n, d :: ds)

/-- Scales `x` by `10 ^ exponent`. Powers up to `308` are applied in one operation; a greater negative
power takes steps of `10 ^ -308` first, at most `fuel` of them. `none` when the result is out of
range. -/
def scale? (x : Float) (exponent : Int) : (fuel : Nat) → Option Float
  | 0 => some x
  | fuel + 1 =>
    if exponent.natAbs ≤ 308 then
      let power := Float.ofScientific 1 false exponent.natAbs
      if 0 ≤ exponent then
        let y := x * power
        if y.isInf then none else some y
      else some (x / power)
    else if x == 0.0 then some x
    else if 0 ≤ exponent then none
    else scale? (x / Float.ofScientific 1 false 308) (exponent + 308) fuel

/-- The parts of a number as it is written. -/
structure Written where
  negative : Bool
  whole : List Char
  fraction : Option (List Char)
  exponent : Option (Bool × List Char)

/-- The double that a written number stands for, or `none` when it is out of range. A digit of the
integer part that no longer fits the significand counts one power of ten up, a digit of the fraction
that still fits counts one down. An exponent that does not fit 32 bits makes a nonzero number overflow
or vanish. -/
def Written.double? (w : Written) : Option Float :=
  let fraction := w.fraction.getD []
  let (start, wholeRest) := fillSignificand 0 w.whole
  let (significand, fractionRest) := fillSignificand start fraction
  let shift : Int := wholeRest.length + fractionRest.length - fraction.length
  let magnitude? : Option Float :=
    match w.exponent with
    | none => scale? significand.toUInt64.toFloat shift (shift.natAbs + 1)
    | some (down, ds) =>
      let e := digitsValue 0 ds
      if 0x80000000 ≤ e then
        if significand ≠ 0 ∧ !down then none else some 0.0
      else
        let exponent := shift + (if down then -(e : Int) else e)
        scale? significand.toUInt64.toFloat exponent (exponent.natAbs + 1)
  magnitude?.map fun x => if w.negative then -x else x

/-- Tells integers of 64 bits apart from all other numbers. Minus zero is a double. -/
def Written.number? (w : Written) : Option Number :=
  match w.fraction, w.exponent with
  | none, none =>
    let n := digitsValue 0 w.whole
    if UInt64.size ≤ n then w.double?.map .double
    else if !w.negative then some (.natural n.toUInt64)
    else if n = 0 ∨ UInt64.size / 2 < n then some (.double (-n.toUInt64.toFloat))
    else some (.negative (Int64.ofInt (-(n : Int))))
  | _, _ => w.double?.map .double

/-- Reads a run of at least one decimal digit. -/
def scanDigits? (cs : List Char) : Option (List Char × List Char) :=
  match cs.takeWhile Char.isDigit with
  | [] => none
  | ds => some (ds, cs.dropWhile Char.isDigit)

theorem length_of_scanDigits? {cs ds rest : List Char} (h : scanDigits? cs = some (ds, rest)) :
    rest.length < cs.length := by
  unfold scanDigits? at h
  split at h
  · cases h
  · next ne =>
    obtain ⟨rfl, rfl⟩ := Prod.mk.inj (Option.some.inj h)
    have split := congrArg List.length (List.takeWhile_append_dropWhile (p := Char.isDigit) (l := cs))
    have pos := List.length_pos_iff.2 (ne ·)
    rw [List.length_append] at split
    omega

/-- Reads a sign of an exponent or none; gives whether it is a minus. -/
def scanSign : List Char → Bool × List Char
  | '-' :: rest => (true, rest)
  | '+' :: rest => (false, rest)
  | cs => (false, cs)

theorem length_scanSign_le (cs : List Char) : (scanSign cs).2.length ≤ cs.length := by
  fun_cases scanSign cs <;> simp

/-- Reads an integer part, which has no leading zeros. -/
def scanWhole? (cs : List Char) : Option (List Char × List Char) :=
  match scanDigits? cs with
  | some ('0' :: _ :: _, _) => none
  | result => result

theorem length_of_scanWhole? {cs ds rest : List Char} (h : scanWhole? cs = some (ds, rest)) :
    rest.length < cs.length := by
  unfold scanWhole? at h
  split at h
  · cases h
  · exact length_of_scanDigits? h

/-- Reads a fraction if there is one: a point, then at least one digit. -/
def scanFraction? : List Char → Option (Option (List Char) × List Char)
  | '.' :: rest => (scanDigits? rest).map fun r => (some r.1, r.2)
  | cs => some (none, cs)

theorem length_of_scanFraction? {cs rest : List Char} {f : Option (List Char)}
    (h : scanFraction? cs = some (f, rest)) : rest.length ≤ cs.length := by
  revert h
  fun_cases scanFraction? cs with
  | case1 cs' =>
    intro h
    obtain ⟨r, found, eq⟩ := Option.map_eq_some_iff.1 h
    obtain ⟨-, rfl⟩ := Prod.mk.inj eq
    have := length_of_scanDigits? found
    simp; omega
  | case2 => intro h; simp_all

/-- Reads an exponent if there is one: a mark of either case, a sign or none, then at least one
digit. -/
def scanExponent? : List Char → Option (Option (Bool × List Char) × List Char)
  | 'e' :: rest => (scanDigits? (scanSign rest).2).map fun r => (some ((scanSign rest).1, r.1), r.2)
  | 'E' :: rest => (scanDigits? (scanSign rest).2).map fun r => (some ((scanSign rest).1, r.1), r.2)
  | cs => some (none, cs)

theorem length_of_scanExponent? {cs rest : List Char} {e : Option (Bool × List Char)}
    (h : scanExponent? cs = some (e, rest)) : rest.length ≤ cs.length := by
  revert h
  fun_cases scanExponent? cs with
  | case1 cs' | case2 cs' =>
    intro h
    obtain ⟨r, found, eq⟩ := Option.map_eq_some_iff.1 h
    obtain ⟨-, rfl⟩ := Prod.mk.inj eq
    have := length_of_scanDigits? found
    have := length_scanSign_le cs'
    simp; omega
  | case3 => intro h; simp_all

/-- Reads what follows the sign of a number: an integer part without leading zeros, and a fraction
and an exponent if they are there. -/
def scanUnsigned? (negative : Bool) (cs : List Char) : Option (Number × List Char) :=
  match scanWhole? cs with
  | none => none
  | some (whole, afterWhole) =>
    match scanFraction? afterWhole with
    | none => none
    | some (fraction, afterFraction) =>
      match scanExponent? afterFraction with
      | none => none
      | some (exponent, rest) =>
        (Written.number? { negative, whole, fraction, exponent }).map (·, rest)

theorem length_of_scanUnsigned? {negative : Bool} {cs rest : List Char} {n : Number}
    (h : scanUnsigned? negative cs = some (n, rest)) : rest.length < cs.length := by
  unfold scanUnsigned? at h
  split at h
  · cases h
  · next whole afterWhole hw =>
    split at h
    · cases h
    · next fraction afterFraction hf =>
      split at h
      · cases h
      · next exponent rest' he =>
        obtain ⟨_, -, eq⟩ := Option.map_eq_some_iff.1 h
        obtain ⟨-, rfl⟩ := Prod.mk.inj eq
        have := length_of_scanWhole? hw
        have := length_of_scanFraction? hf
        have := length_of_scanExponent? he
        omega

/-- Reads a number: a minus sign or none, then its magnitude. -/
def scanNumber? : List Char → Option (Number × List Char)
  | '-' :: rest => scanUnsigned? true rest
  | cs => scanUnsigned? false cs

theorem length_of_scanNumber? {cs rest : List Char} {n : Number}
    (h : scanNumber? cs = some (n, rest)) : rest.length < cs.length := by
  unfold scanNumber? at h
  split at h
  · exact Nat.lt_succ_of_lt (length_of_scanUnsigned? h)
  · exact length_of_scanUnsigned? h

/-! ## Cutting a text into tokens -/

/-- Reads the token at the front of a text that starts with no blank. -/
def Token.first? : List Char → Option (Token × List Char)
  | '\x7b' :: rest => some (.openBrace, rest)
  | '\x7d' :: rest => some (.closeBrace, rest)
  | '[' :: rest => some (.openBracket, rest)
  | ']' :: rest => some (.closeBracket, rest)
  | ':' :: rest => some (.colon, rest)
  | ',' :: rest => some (.comma, rest)
  | '"' :: rest => (scanString? rest []).map fun r => (.string r.1, r.2)
  | 'n' :: 'u' :: 'l' :: 'l' :: rest => some (.null, rest)
  | 't' :: 'r' :: 'u' :: 'e' :: rest => some (.bool true, rest)
  | 'f' :: 'a' :: 'l' :: 's' :: 'e' :: rest => some (.bool false, rest)
  | cs => (scanNumber? cs).map fun r => (.number r.1, r.2)

theorem Token.length_of_first? {cs rest : List Char} {t : Token}
    (h : Token.first? cs = some (t, rest)) : rest.length < cs.length := by
  revert h
  fun_cases Token.first? cs with
  | case7 cs' =>
    intro h
    obtain ⟨r, found, eq⟩ := Option.map_eq_some_iff.1 h
    obtain ⟨-, rfl⟩ := Prod.mk.inj eq
    exact Nat.lt_succ_of_lt (length_of_scanString? found)
  | case11 =>
    intro h
    obtain ⟨r, found, eq⟩ := Option.map_eq_some_iff.1 h
    obtain ⟨-, rfl⟩ := Prod.mk.inj eq
    exact length_of_scanNumber? found
  | _ => intro h; simp_all <;> omega

theorem length_dropWhile_le (p : Char → Bool) (cs : List Char) :
    (cs.dropWhile p).length ≤ cs.length :=
  (List.dropWhile_sublist p).length_le

/-- All tokens of a text, up to the first thing that is none. -/
def Token.scan (cs : List Char) : List Token :=
  match cs.dropWhile isBlank, length_dropWhile_le isBlank cs with
  | [], _ => []
  | c :: cs', _short =>
    match _h : Token.first? (c :: cs') with
    | none => [.unreadable]
    | some (token, rest) => token :: Token.scan rest
termination_by cs.length
decreasing_by exact Nat.lt_of_lt_of_le (Token.length_of_first? (by assumption)) (by assumption)

/-- The tokens of a text, by its first character that is no blank. -/
theorem Token.scan_eq (cs : List Char) :
    Token.scan cs = match cs.dropWhile isBlank with
      | [] => []
      | c :: cs' =>
        match Token.first? (c :: cs') with
        | none => [.unreadable]
        | some (token, rest) => token :: Token.scan rest := by
  rw [Token.scan]
  split
  · next blank _ => rw [blank]
  · next solid _ =>
    rw [solid]
    dsimp only
    split
    · next none => rw [none]
    · next some => rw [some]

end ControlStash.Json
