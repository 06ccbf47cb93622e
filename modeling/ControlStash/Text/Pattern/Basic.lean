import ControlStash.Text.Alphanumeric
import ControlStash.Text.Blank
import ControlStash.Text.Hexadecimal

/-!
# The parts of patterns

A pattern is a regular expression over the bytes of UTF-8. What a part of it may be depends on flags:
with `unicode`, characters are whole characters, and without it they are bytes. No tables of the
properties of characters are at hand, and whatever would need one is refused: ignoring case, the kinds
of characters, and word boundaries with `unicode`. Without it, whatever could match a part of a
character is refused. With `verbose`, blanks do not count, and a comment goes from a number sign to the
end of the line.
-/

namespace ControlStash.Text.Pattern

/-! ## Flags -/

/-- The flags that decide which patterns are accepted. -/
structure Flags where
  ignoreCase : Bool := false
  unicode : Bool := true
  verbose : Bool := false

namespace Flags

/-- The letters of all flags. -/
def letters : List Char :=
  ['i', 'm', 's', 'U', 'u', 'R', 'x']

/-- Sets or clears the flag of a letter. -/
def set (on : Bool) (f : Flags) : Char → Flags
  | 'i' => { f with ignoreCase := on }
  | 'u' => { f with unicode := on }
  | 'x' => { f with verbose := on }
  | _ => f

/-- Changes flags as a text says: letters before a minus sign set them, and letters behind it clear
them. No letter comes twice, and a minus sign is not the last. -/
def change? (f : Flags) (text : List Char) : Option Flags :=
  let on := text.takeWhile (· != '-')
  let off := text.dropWhile (· != '-')
  let all := on ++ off.drop 1
  if all.all letters.contains && decide all.Nodup && off.length != 1 then
    some ((off.drop 1).foldl (set false) (on.foldl (set true) f))
  else none

end Flags

/-! ## Blanks and comments -/

/-- Skips characters that `extra` names and, if `verbose`, blanks and comments; counts the former. -/
def skipWith (verbose : Bool) (extra : Char → Bool) :
    (inComment : Bool) → (count : Nat) → List Char → Nat × List Char
  | _, count, [] => (count, [])
  | true, count, c :: cs => skipWith verbose extra (c != '\n') count cs
  | false, count, c :: cs =>
    if extra c then skipWith verbose extra false (count + 1) cs
    else if verbose && isBlank c then skipWith verbose extra false count cs
    else if verbose && c = '#' then skipWith verbose extra true count cs
    else (count, c :: cs)

/-- Skips blanks and comments if they do not count. -/
def skip (verbose : Bool) (cs : List Char) : List Char :=
  (skipWith verbose (fun _ => false) false 0 cs).2

/-- The first character that is no blank, and not the number sign that starts a comment. -/
def firstInk? : (inComment : Bool) → List Char → Option Char
  | _, [] => none
  | inComment, c :: cs =>
    if isBlank c then firstInk? inComment cs
    else if !inComment && c = '#' then firstInk? true cs
    else some c

/-- The character to look at behind a dash. In a comment it is the first one with ink. -/
def lookAhead? (verbose : Bool) (cs : List Char) : Option Char :=
  if verbose then (firstInk? false cs).or cs.head? else cs.head?

/-! ## Single characters -/

/-- What stands for a character or a place. -/
inductive Primitive where
  /-- A character, and whether it was written as a byte in two hexadecimal digits. -/
  | char (code : Nat) (byte : Bool)
  /-- Any character. -/
  | any
  /-- An end of the text or of a line. -/
  | edge
  /-- An end of a word, or a place that is none. -/
  | wordEdge
  /-- A digit, a blank or a word character, or any other character. -/
  | kind (negated : Bool)

namespace Flags

/-- Whether a primitive is accepted outside classes. -/
def admits (f : Flags) : Primitive → Bool
  | .char code byte => if f.unicode then !f.ignoreCase else !byte || code < 0x80
  | .any => f.unicode
  | .edge => true
  | .wordEdge => !f.unicode
  | .kind negated => !f.unicode && !negated

/-- Whether a character is accepted in a class. -/
def admitsMember (f : Flags) (code : Nat) : Bool :=
  if f.unicode then !f.ignoreCase else code < 0x80

/-- Whether a class with a name is accepted. -/
def admitsNamed (f : Flags) (negated : Bool) : Bool :=
  if f.unicode then !f.ignoreCase else !negated

end Flags

/-- Reads hexadecimal digits of a character code. -/
def readCode? (verbose : Bool) : (digits value : Nat) → List Char → Option (Nat × List Char)
  | 0, value, cs => some (value, cs)
  | _ + 1, _, [] => none
  | digits + 1, value, c :: cs =>
    match hexValue? c with
    | some digit => readCode? verbose digits (value * 16 + digit) (skip verbose cs)
    | none => none

/-- Reads a character that is given by its code. -/
def readCoded? (verbose : Bool) (digits : Nat) (cs : List Char) : Option (Primitive × List Char) :=
  match readCode? verbose digits 0 (skip verbose cs) with
  | some (code, rest) => if code.isValidChar then some (.char code (digits = 2), rest) else none
  | none => none

/-- Reads what follows a backslash. Signs lose their meaning, and some letters have one. -/
def readEscape? (verbose : Bool) : List Char → Option (Primitive × List Char)
  | [] => none
  | 'x' :: cs => readCoded? verbose 2 cs
  | 'u' :: cs => readCoded? verbose 4 cs
  | 'U' :: cs => readCoded? verbose 8 cs
  | 'a' :: cs => some (.char 0x07 false, cs)
  | 't' :: cs => some (.char 0x09 false, cs)
  | 'n' :: cs => some (.char 0x0a false, cs)
  | 'v' :: cs => some (.char 0x0b false, cs)
  | 'f' :: cs => some (.char 0x0c false, cs)
  | 'r' :: cs => some (.char 0x0d false, cs)
  | 'A' :: cs | 'z' :: cs => some (.edge, cs)
  | 'b' :: cs | 'B' :: cs | '<' :: cs | '>' :: cs => some (.wordEdge, cs)
  | 'd' :: cs | 's' :: cs | 'w' :: cs => some (.kind false, cs)
  | 'D' :: cs | 'S' :: cs | 'W' :: cs => some (.kind true, cs)
  | c :: cs => if c.toNat < 0x80 && !c.isAlphanum then some (.char c.toNat false, cs) else none

/-! ## Names -/

/-- Whether a text is the name of a group. -/
def isGroupName : List Char → Bool
  | [] => false
  | c :: cs =>
    (c = '_' || isAlphabetic c) &&
      cs.all fun c => isAlphanumeric c || ['_', '.', '[', ']'].contains c

/-- The names of classes. -/
def classNames : List String :=
  ["alnum", "alpha", "ascii", "blank", "cntrl", "digit", "graph", "lower", "print", "punct", "space",
    "upper", "word", "xdigit"]

/-- Reads the name of a class between colons behind an opening bracket, and the closing one; also gives
whether the class is negated. -/
def readClassName? : List Char → Option (Bool × List Char)
  | ':' :: cs =>
    let negated := cs.head? = some '^'
    let cs := if negated then cs.drop 1 else cs
    let name := String.ofList (cs.takeWhile (· != ':'))
    match cs.dropWhile (· != ':') with
    | ':' :: ']' :: rest => if classNames.contains name then some (negated, rest) else none
    | _ => none
  | _ => none

end ControlStash.Text.Pattern
