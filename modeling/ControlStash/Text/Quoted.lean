import ControlStash.Text.Combining
import ControlStash.Text.Printable

/-!
# Quoted text

Text between double quotes, written so that every character can be seen: the quote and the backslash
take a backslash, four control characters have a letter of their own, and any other character that is
not printable or that combines with its neighbour is written by its code point in lower-case
hexadecimal. An apostrophe stands for itself.
-/

namespace ControlStash.Text

/-- One character of quoted text. -/
def quoteChar (c : Char) : String :=
  match c with
  | '"' => "\\\""
  | '\\' => "\\\\"
  | '\n' => "\\n"
  | '\r' => "\\r"
  | '\t' => "\\t"
  | '\x00' => "\\0"
  | c =>
    if isPrintable c && !isCombining c then c.toString
    else "\\u\x7b" ++ String.ofList (Nat.toDigits 16 c.toNat) ++ "\x7d"

/-- The text between double quotes, each character spelled by `quoteChar`. -/
def quoted (s : String) : String :=
  s.toList.foldl (fun out c => out ++ quoteChar c) "\"" ++ "\""

end ControlStash.Text
