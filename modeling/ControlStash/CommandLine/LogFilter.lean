import ControlStash.CommandLine.Directive

/-!
# Log filters

A filter is a list of directives between commas. Of those that fit an event the one with the longest
target decides, then the one with the most fields, then the one whose fields come last in order, and
of equal ones the last. No event of this program lies in a span, so a directive for a span or for the
value of a field fits none.
-/

namespace ControlStash.CommandLine

/-- A log event: the part of the program that it comes from, its level, and the names of its fields. -/
structure LogEvent where
  target : String
  level : Level
  fields : List String
  deriving DecidableEq, Repr

namespace Directive

/-- Whether a directive fits an event. -/
def fits (d : Directive) (event : LogEvent) : Bool :=
  d.isStatic && (d.target?.all fun target => target.isPrefixOf event.target) &&
    d.fields.all fun test => event.fields.contains test.name

/-- The length of the target in bytes; having none is less than any. -/
def targetSize (d : Directive) : Nat :=
  match d.target? with
  | some target => target.utf8ByteSize + 1
  | none => 0

/-- Whether the second of two directives that fit the same event decides. -/
def yields (d e : Directive) : Bool :=
  d.targetSize < e.targetSize || d.targetSize = e.targetSize &&
    (d.fields.length < e.fields.length || d.fields.length = e.fields.length &&
      !(e.fields.map (·.name) < d.fields.map (·.name)))

end Directive

/-- A filter: its directives, and whether some of its text was no directive, which is reported. -/
structure LogFilter where
  directives : List Directive
  malformed : Bool

/-- Reads a filter; `none` if it is unusable. Without any directive only errors pass. -/
def LogFilter.parse? (s : String) : Option LogFilter :=
  let read? (part : String) : Option (Option Directive) :=
    match Directive.parse part with
    | .ok d => some (some d)
    | .error .malformed => some none
    | .error .split => none
  (((s.splitOn ",").filter (!·.isEmpty)).mapM read?).map fun results =>
    let directives := results.filterMap id
    { directives := if directives.isEmpty then [{ rank := Level.error.rank }] else directives
      malformed := results.any (·.isNone) }

/-- The directive that decides about an event. -/
def LogFilter.decisive? (filter : LogFilter) (event : LogEvent) : Option Directive :=
  (filter.directives.filter (·.fits event)).foldl
    (fun best d =>
      match best with
      | some b => if b.yields d then some d else some b
      | none => some d)
    none

/-- Whether a filter lets an event pass. -/
def LogFilter.passes (filter : LogFilter) (event : LogEvent) : Bool :=
  match filter.decisive? event with
  | some d => event.level.rank ≤ d.rank
  | none => false

end ControlStash.CommandLine
