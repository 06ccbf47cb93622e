import ControlStash.Text.Pattern.Basic

/-!
# Reading patterns

`isPattern` says which texts are patterns. Expressions are sequences and alternatives of characters,
groups and classes, any of which may be repeated by `*`, `+` and `?`; a repetition with counts is not
among them. A group may have a name or change the flags inside it, and flags may also be changed for the
rest of a group. A class lists characters and ranges between brackets, may hold other classes, and may
be combined with others by `&&`, `--` and `~~`.

The reader takes a few characters at a time. Of what is read it keeps no more than how deeply it is
nested, because nesting is limited: a sequence, a list of alternatives, a repetition, a group, a class
and a combination of classes are each one level above their deepest part, and a sequence or a list of
one is no level.
-/

namespace ControlStash.Text.Pattern

/-- The greatest depth of nesting that is accepted. -/
def depthLimit : Nat := 250

/-- The depth of several parts in a row: one more than the deepest, unless there are fewer than two. -/
def rowDepth : List Nat → Nat
  | [] => 0
  | [d] => d
  | ds => ds.foldl max 0 + 1

/-- A group that is being read, or the whole expression. -/
structure Level where
  flags : Flags := {}
  /-- The depths of the parts of the last alternative, last first. -/
  parts : List Nat := []
  /-- The depths of the other alternatives. -/
  alternatives : List Nat := []
  /-- Whether the last part can be repeated. -/
  repeatable : Bool := false

/-- The depth of what a level has so far. -/
def Level.depth (l : Level) : Nat :=
  rowDepth (rowDepth l.parts :: l.alternatives)

/-- Adds a part that can be repeated. -/
def Level.add (l : Level) (depth : Nat) : Level :=
  { l with parts := depth :: l.parts, repeatable := true }

/-- A class that is being read. -/
structure ClassLevel where
  /-- The depths of the members since the last operator. -/
  members : List Nat := []
  /-- The depth of all that is before the last operator. -/
  left? : Option Nat := none

/-- The depth of what a class has so far. -/
def ClassLevel.depth (l : ClassLevel) : Nat :=
  match l.left? with
  | some left => max left (rowDepth l.members) + 1
  | none => rowDepth l.members

/-- Adds a member. -/
def ClassLevel.add (l : ClassLevel) (depth : Nat) : ClassLevel :=
  { l with members := depth :: l.members }

/-- The state of the reader. -/
structure State where
  level : Level := {}
  /-- The levels around it, innermost first. -/
  outer : List Level := []
  /-- The classes that are being read, innermost first. -/
  classes : List ClassLevel := []
  /-- The names of groups so far. -/
  names : List (List Char) := []

namespace State

/-- Opens a group. -/
def openGroup (s : State) (flags : Flags) : State :=
  { s with level := { flags }, outer := s.level :: s.outer }

/-- Closes a group. The flags are again what they were before it. -/
def closeGroup? (s : State) : Option State :=
  match s.outer with
  | [] => none
  | level :: outer => some { s with level := level.add (s.level.depth + 1), outer }

/-- Reads what follows the bracket that opens a group. -/
def readGroup? (s : State) (cs : List Char) : Option (State × List Char) :=
  let named (cs : List Char) : Option (State × List Char) :=
    let name := cs.takeWhile (· != '>')
    match cs.dropWhile (· != '>') with
    | _ :: rest =>
      if isGroupName name && !s.names.contains name then
        some ({ s.openGroup s.level.flags with names := name :: s.names }, rest)
      else none
    | [] => none
  match skip s.level.flags.verbose cs with
  | '?' :: 'P' :: '<' :: cs => named cs
  | '?' :: '<' :: cs => named cs
  | '?' :: cs =>
    let text := cs.takeWhile fun c => c != ':' && c != ')'
    match cs.drop text.length, s.level.flags.change? text with
    | ':' :: rest, some flags => some (s.openGroup flags, rest)
    | ')' :: rest, some flags =>
      if text.isEmpty then none
      else
        let level := { s.level with flags, parts := 0 :: s.level.parts, repeatable := false }
        some ({ s with level }, rest)
    | _, _ => none
  | cs => some (s.openGroup s.level.flags, cs)

/-- Opens a class, given what follows its bracket. A dash, and a closing bracket that comes first, are
members. -/
def openClass? (s : State) (cs : List Char) : Option (State × List Char) :=
  let flags := s.level.flags
  let start := skip flags.verbose cs
  let negated := start.head? = some '^'
  let start := if negated then skip flags.verbose (start.drop 1) else start
  let (dashes, rest) := skipWith flags.verbose (· = '-') false 0 start
  let bracket := dashes = 0 && rest.head? = some ']'
  let members := List.replicate (if bracket then 1 else dashes) 0
  if (negated && !flags.unicode) || (!members.isEmpty && !flags.admitsMember '-'.toNat) then none
  else some ({ s with classes := { members } :: s.classes }, if bracket then rest.drop 1 else rest)

/-- Closes the innermost class. -/
def closeClass (s : State) (inner : ClassLevel) : List ClassLevel → State
  | [] => { s with level := s.level.add (inner.depth + 1), classes := [] }
  | outer :: classes => { s with classes := outer.add (inner.depth + 1) :: classes }

/-- Reads a character of a class, or a kind of characters. -/
def readItem? (verbose : Bool) : List Char → Option (Primitive × List Char)
  | [] => none
  | '\\' :: cs => readEscape? verbose cs
  | c :: cs => some (.char c.toNat false, cs)

/-- Reads a member of a class: a character, a kind of characters or a range. A range does not run
backwards, and a dash before another dash or before the closing bracket makes none. -/
def readMember? (flags : Flags) (cs : List Char) : Option (List Char) :=
  match readItem? flags.verbose cs with
  | none => none
  | some (low, rest) =>
    let rest := skip flags.verbose rest
    let single : Option (List Char) :=
      match low with
      | .char code _ => if flags.admitsMember code then some rest else none
      | .kind negated => if flags.admits (.kind negated) then some rest else none
      | _ => none
    match rest with
    | '-' :: behind =>
      let next := lookAhead? flags.verbose behind
      if next = some ']' || next = some '-' then single
      else
        match low, readItem? flags.verbose (skip flags.verbose behind) with
        | .char low _, some (.char high _, rest) =>
          if low ≤ high && flags.admitsMember low && flags.admitsMember high then some rest else none
        | _, _ => none
    | _ => single

/-- Reads on in a class. -/
def readClass? (s : State) (level : ClassLevel) (outer : List ClassLevel) (cs : List Char) :
    Option (State × List Char) :=
  let flags := s.level.flags
  match cs with
  | '[' :: cs =>
    match readClassName? cs with
    | some (negated, rest) =>
      if flags.admitsNamed negated then some ({ s with classes := level.add 0 :: outer }, rest)
      else none
    | none => s.openClass? cs
  | ']' :: cs => some (s.closeClass level outer, cs)
  | '&' :: '&' :: cs | '-' :: '-' :: cs | '~' :: '~' :: cs =>
    some ({ s with classes := { left? := some level.depth } :: outer }, cs)
  | cs => (readMember? flags cs).map ({ s with classes := level.add 0 :: outer }, ·)

/-- Reads a primitive outside classes. -/
def readPrimitive? (s : State) : Option (Primitive × List Char) → Option (State × List Char)
  | some (p, rest) =>
    if s.level.flags.admits p then some ({ s with level := s.level.add 0 }, rest) else none
  | none => none

/-- Repeats the last part. A question mark right behind the sign belongs to it. -/
def repeat? (s : State) (cs : List Char) : Option (State × List Char) :=
  match s.level.parts with
  | depth :: parts =>
    if s.level.repeatable then
      let rest := if cs.head? = some '?' then cs.drop 1 else cs
      some ({ s with level := { s.level with parts := (depth + 1) :: parts } }, rest)
    else none
  | [] => none

/-- Reads on outside classes. -/
def readExpression? (s : State) : List Char → Option (State × List Char)
  | [] => none
  | '(' :: cs => s.readGroup? cs
  | ')' :: cs => s.closeGroup?.map (·, cs)
  | '|' :: cs =>
    let level :=
      { s.level with
        parts := []
        alternatives := rowDepth s.level.parts :: s.level.alternatives
        repeatable := false }
    some ({ s with level }, cs)
  | '[' :: cs => s.openClass? cs
  | '*' :: cs | '+' :: cs => s.repeat? cs
  | '?' :: cs => s.repeat? cs
  | '\x7b' :: _ => none
  | '\\' :: cs => s.readPrimitive? (readEscape? s.level.flags.verbose cs)
  | '.' :: cs => s.readPrimitive? (some (.any, cs))
  | '^' :: cs | '$' :: cs => s.readPrimitive? (some (.edge, cs))
  | c :: cs => s.readPrimitive? (some (.char c.toNat false, cs))

/-- Reads a text. Each step takes a character, so the length of the text is enough as `fuel`. -/
def read? : (fuel : Nat) → State → List Char → Option State
  | 0, s, _ => some s
  | fuel + 1, s, cs =>
    match skip s.level.flags.verbose cs, s.classes with
    | [], _ => some s
    | cs, [] =>
      match s.readExpression? cs with
      | some (s, rest) => read? fuel s rest
      | none => none
    | cs, level :: outer =>
      match s.readClass? level outer cs with
      | some (s, rest) => read? fuel s rest
      | none => none

/-- Whether nothing is left open and nothing is nested too deeply. -/
def isComplete (s : State) : Bool :=
  s.classes.isEmpty && s.outer.isEmpty && s.level.depth ≤ depthLimit

end State

end ControlStash.Text.Pattern

namespace ControlStash.Text

/-- Whether a text is a pattern. -/
def isPattern (text : String) : Bool :=
  match Pattern.State.read? text.length {} text.toList with
  | some s => s.isComplete
  | none => false

end ControlStash.Text
