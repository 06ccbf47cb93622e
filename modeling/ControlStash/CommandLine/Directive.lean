import ControlStash.Decimal.Notation
import ControlStash.Text.Blank
import ControlStash.Text.Pattern.Reader

/-!
# Log directives

A directive is a level, or `target[span{field=value}]=level` with most parts left out: the name of a
part of the program, the name of a span, and tests on fields, whose values are numbers or patterns. A
target alone and an empty level let everything pass.

A directive begins with a bracket, or with a letter, a digit or one of the signs that names have. Blanks
around it do not count for that, but the parts are cut from the text as it was given, at the bytes found
without the blanks, so that a blank is part of a name or of a level, and blanks in front shift all
parts. A part that would then begin or end inside a character makes the whole filter unusable.
-/

namespace ControlStash.CommandLine

/-- The levels of log events, most urgent first. -/
inductive Level where
  | error
  | warn
  | info
  | debug
  | trace
  deriving DecidableEq, Repr

/-- The rank of a level among those a directive may let pass; nothing passes at rank zero. -/
def Level.rank : Level → Nat
  | error => 1
  | warn => 2
  | info => 3
  | debug => 4
  | trace => 5

/-- The rank that a word in either case or a number stands for. -/
def parseRank? (s : String) : Option Nat :=
  match Decimal.parseWord? s with
  | some n => if n ≤ Level.trace.rank then some n else none
  | none =>
    match s.toLower with
    | "off" => some 0
    | "error" => some Level.error.rank
    | "warn" => some Level.warn.rank
    | "info" => some Level.info.rank
    | "debug" => some Level.debug.rank
    | "trace" => some Level.trace.rank
    | _ => none

/-- A test on a field: that there is one of this name, and perhaps that its value fits. -/
structure FieldTest where
  name : String
  value? : Option String
  deriving DecidableEq, Repr

/-- Reads a test on a field. The value goes up to a second equals sign. -/
def FieldTest.parse? (s : String) : Option FieldTest :=
  match s.splitOn "=" with
  | [] => none
  | [name] => if name.isEmpty then none else some ⟨name, none⟩
  | name :: value :: _ =>
    if Decimal.isNumber value || Text.isPattern value then some ⟨name, some value⟩ else none

/-- One directive: events of targets that start with `target?`, inside a span of the given name and
with the given fields, pass up to rank `rank`. -/
structure Directive where
  target? : Option String := none
  span? : Option String := none
  fields : List FieldTest := []
  rank : Nat := Level.trace.rank
  deriving DecidableEq, Repr

namespace Directive

/-- Where the reader of a directive is, with the byte at which the part begins. -/
inductive Place where
  | start
  /-- In what is a level if it is all there is, and else the target. -/
  | head
  | span (first : Nat)
  | field (first : Nat)
  /-- Behind the tests on fields. -/
  | fields
  /-- Behind the span. -/
  | behind
  | level (first : Nat)

/-- Why a text is no directive. -/
inductive Refusal where
  | malformed
  /-- A part begins or ends inside a character. -/
  | split
  deriving DecidableEq, Repr

/-- Splits a text at a byte; `none` if that is inside a character or behind the end. -/
def splitAt? : Nat → List Char → Option (List Char × List Char)
  | 0, cs => some ([], cs)
  | _ + 1, [] => none
  | n + 1, c :: cs =>
    if c.utf8Size ≤ n + 1 then
      (splitAt? (n + 1 - c.utf8Size) cs).map fun (left, right) => (c :: left, right)
    else none

/-- The part of a text from a byte on. -/
def suffix (text : List Char) (first : Nat) : Except Refusal (List Char) :=
  match splitAt? first text with
  | some (_, part) => .ok part
  | none => .error .split

/-- The part of a text from one byte up to another. -/
def part (text : List Char) (first last : Nat) : Except Refusal String :=
  match suffix text first with
  | .ok rest =>
    match splitAt? (last - first) rest with
    | some (part, _) => .ok (String.ofList part)
    | none => .error .split
  | .error e => .error e

/-- Takes a test on a field. -/
def addField (d : Directive) (s : String) : Except Refusal Directive :=
  match FieldTest.parse? s with
  | some test => .ok { d with fields := d.fields ++ [test] }
  | none => .error .malformed

/-- Takes a level; an empty one stands for the last. -/
def setLevel (d : Directive) (s : String) : Except Refusal Directive :=
  if s.isEmpty then .ok d
  else
    match parseRank? s with
    | some rank => .ok { d with rank }
    | none => .error .malformed

/-- Reads the character at byte `i`. -/
def read (text : List Char) (d : Directive) (place : Place) (i : Nat) (c : Char) :
    Except Refusal (Directive × Place) :=
  match place, c with
  | .start, '[' => .ok (d, .span (i + 1))
  | .start, c =>
    if Text.isAlphanumeric c || c = '-' || c = ':' || c = '_' then .ok (d, .head)
    else .error .malformed
  | .head, '=' => (part text 0 i).map fun target => ({ d with target? := some target }, .level (i + 1))
  | .head, '[' => (part text 0 i).map fun target => ({ d with target? := some target }, .span (i + 1))
  | .head, _ => .ok (d, .head)
  | .span first, ']' => (part text first i).map fun name => ({ d with span? := some name }, .behind)
  | .span first, '\x7b' =>
    (part text first i).map fun name =>
      ({ d with span? := if name.isEmpty then none else some name }, .field (i + 1))
  | .span first, _ => .ok (d, .span first)
  | .field first, '\x7d' =>
    match part text first i with
    | .ok test => (d.addField test).map (·, .fields)
    | .error e => .error e
  | .field first, _ => .ok (d, .field first)
  | .fields, ']' => .ok (d, .behind)
  | .fields, _ => .error .malformed
  | .behind, '=' => .ok (d, .level (i + 1))
  | .behind, _ => .error .malformed
  | .level first, _ => .ok (d, .level first)

/-- The directive when all of its text is read. -/
def finish (text : List Char) (d : Directive) : Place → Except Refusal Directive
  | .head =>
    let head := String.ofList text
    match parseRank? head with
    | some rank => .ok { d with rank }
    | none => .ok { d with target? := some head }
  | .level first =>
    match suffix text first with
    | .ok level => d.setLevel (String.ofList level)
    | .error e => .error e
  | .behind => .ok d
  | _ => .error .malformed

/-- Reads characters from byte `i` on. -/
def readAll (text : List Char) : List Char → Nat → Directive → Place → Except Refusal Directive
  | [], _, d, place => d.finish text place
  | c :: cs, i, d, place =>
    match d.read text place i c with
    | .ok (d, place) => readAll text cs (i + c.utf8Size) d place
    | .error e => .error e

/-- Reads a directive. -/
def parse (s : String) : Except Refusal Directive :=
  readAll s.toList (Text.trimBlanks s.toList) 0 {} .start

/-- Whether a directive can be decided without knowing the spans an event is in and the values of its
fields. -/
def isStatic (d : Directive) : Bool :=
  d.span?.isNone && d.fields.all (·.value?.isNone)

end Directive

end ControlStash.CommandLine
