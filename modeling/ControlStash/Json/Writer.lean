import ControlStash.Json.Token
import ControlStash.Decimal.Layout

/-!
# Writing JSON values

A value is written as its tokens, and each token as its text, with no blanks between them. Doubles use
the shortest digits that read back, positionally from five places behind the point up to sixteen
before it and with a signed exponent outside; what is no finite number is written `null`. In strings
the quote, the backslash and the control characters are escaped and everything else stands for itself.
-/

namespace ControlStash.Json

/-- Floating-point text of the wire format. -/
def doubleLayout : Decimal.Layout where
  tie := .toEven
  positional e := -5 ≤ e && e < 16
  wholeMark := ".0"
  nan := "null"
  infinity := "null"
  negativeInfinity := "null"

/-- The text of a number. -/
def Number.text : Number → String
  | .natural n => toString n.toNat
  | .negative n => toString n.toInt
  | .double x => doubleLayout.text x

/-- A lower-case hexadecimal digit. -/
def hexDigit (n : Nat) : Char :=
  if n < 10 then Char.ofNat ('0'.toNat + n) else Char.ofNat ('a'.toNat + n - 10)

/-- One character inside a string. -/
def escape (c : Char) : List Char :=
  match c with
  | '"' => ['\\', '"']
  | '\\' => ['\\', '\\']
  | '\x08' => ['\\', 'b']
  | '\x0c' => ['\\', 'f']
  | '\n' => ['\\', 'n']
  | '\r' => ['\\', 'r']
  | '\t' => ['\\', 't']
  | c =>
    if c.toNat < 0x20 then
      ['\\', 'u', '0', '0', hexDigit (c.toNat / 16), hexDigit (c.toNat % 16)]
    else [c]

/-- The text of a token. -/
def Token.text : Token → List Char
  | .openBrace => ['\x7b']
  | .closeBrace => ['\x7d']
  | .openBracket => ['[']
  | .closeBracket => [']']
  | .colon => [':']
  | .comma => [',']
  | .null => "null".toList
  | .bool true => "true".toList
  | .bool false => "false".toList
  | .number n => n.text.toList
  | .string s => '"' :: s.toList.flatMap escape ++ ['"']
  | .unreadable => []

mutual

/-- The tokens of a value, followed by `rest`. -/
def tokens : Json → List Token → List Token
  | .null, rest => .null :: rest
  | .bool b, rest => .bool b :: rest
  | .number n, rest => .number n :: rest
  | .string s, rest => .string s :: rest
  | .array elements, rest => .openBracket :: elementTokens elements (.closeBracket :: rest)
  | .object members, rest => .openBrace :: memberTokens members (.closeBrace :: rest)

/-- The tokens of the elements of an array, with commas between them. -/
def elementTokens : List Json → List Token → List Token
  | [], rest => rest
  | value :: elements, rest => value.tokens (moreElementTokens elements rest)

/-- The tokens of the elements after the first, each with its comma. -/
def moreElementTokens : List Json → List Token → List Token
  | [], rest => rest
  | value :: elements, rest => .comma :: value.tokens (moreElementTokens elements rest)

/-- The tokens of the members of an object, with commas between them. -/
def memberTokens : List (String × Json) → List Token → List Token
  | [], rest => rest
  | (key, value) :: members, rest =>
    .string key :: .colon :: value.tokens (moreMemberTokens members rest)

/-- The tokens of the members after the first, each with its comma. -/
def moreMemberTokens : List (String × Json) → List Token → List Token
  | [], rest => rest
  | (key, value) :: members, rest =>
    .comma :: .string key :: .colon :: value.tokens (moreMemberTokens members rest)

end

/-- The compact text of a value. -/
def render (value : Json) : String :=
  String.ofList ((value.tokens []).flatMap Token.text)

end ControlStash.Json
