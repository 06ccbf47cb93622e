import ControlStash.Json.Token

/-!
# Reading JSON values

The reader is a pushdown automaton over tokens. Its state says what may come next and holds the
containers that are still open, innermost first; `State.step` consumes one token. A run over a token
list is a plain recursion on the list, and the containers part way through are ordinary data, so no
text can exhaust anything but its own length.

`readWith` lets a caller stop the run early: before each token it may look at the state and the token
and raise an objection of its own. This is how a problem that is already visible in the first half of
a text wins over a syntax error in the second.
-/

namespace ControlStash.Json

/-- A container that waits for the value being read. Finished elements and members are kept last
first. -/
inductive Pending where
  | element (done : List Json)
  | member (done : List (String × Json)) (key : String)

/-- What the reader expects next. -/
inductive State where
  /-- A value. -/
  | value (pending : List Pending)
  /-- The first element of an array, or its end. -/
  | firstElement (pending : List Pending)
  /-- A comma or the end of an array. -/
  | afterElement (done : List Json) (pending : List Pending)
  /-- The first key of an object, or its end. -/
  | firstKey (pending : List Pending)
  /-- A key. -/
  | key (done : List (String × Json)) (pending : List Pending)
  /-- The colon after a key. -/
  | colon (done : List (String × Json)) (key : String) (pending : List Pending)
  /-- A comma or the end of an object. -/
  | afterMember (done : List (String × Json)) (pending : List Pending)
  /-- Nothing: the value is complete. -/
  | complete (value : Json)

namespace State

/-- The state before the first token of a text. -/
def start : State := .value []

/-- Hands a finished value to the innermost open container. -/
def give (j : Json) : List Pending → State
  | [] => .complete j
  | .element done :: pending => .afterElement (j :: done) pending
  | .member done name :: pending => .afterMember ((name, j) :: done) pending

/-- Consumes the first token of a value. A bracket opens a container if the limit allows one more. -/
def stepValue (pending : List Pending) : Token → Option State
  | .null => some (give .null pending)
  | .bool b => some (give (.bool b) pending)
  | .number n => some (give (.number n) pending)
  | .string s => some (give (.string s) pending)
  | .openBracket => if pending.length < maxOpen then some (.firstElement pending) else none
  | .openBrace => if pending.length < maxOpen then some (.firstKey pending) else none
  | _ => none

/-- Consumes one token; `none` when it may not stand there. -/
def step : State → Token → Option State
  | .value pending, t => stepValue pending t
  | .firstElement pending, .closeBracket => some (give (.array []) pending)
  | .firstElement pending, t => stepValue (.element [] :: pending) t
  | .afterElement done pending, .comma => some (.value (.element done :: pending))
  | .afterElement done pending, .closeBracket => some (give (.array done.reverse) pending)
  | .firstKey pending, .closeBrace => some (give (.object []) pending)
  | .firstKey pending, .string name => some (.colon [] name pending)
  | .key done pending, .string name => some (.colon done name pending)
  | .colon done name pending, .colon => some (.value (.member done name :: pending))
  | .afterMember done pending, .comma => some (.key done pending)
  | .afterMember done pending, .closeBrace => some (give (.object done.reverse) pending)
  | _, _ => none

end State

/-- Why a text was not read to the end of its value. -/
inductive Stop (ε : Type) where
  /-- The text is no JSON value. -/
  | syntaxError
  /-- The caller objected. -/
  | objection (e : ε)

/-- Runs the reader until its value is complete; gives the value and the tokens after it. Before each
token `object?` may end the run. -/
def readWith {ε : Type} (object? : State → Token → Option ε) :
    State → List Token → Except (Stop ε) (Json × List Token)
  | .complete value, tokens => .ok (value, tokens)
  | _, [] => .error .syntaxError
  | state, token :: tokens =>
    match object? state token with
    | some e => .error (.objection e)
    | none =>
      match state.step token with
      | none => .error .syntaxError
      | some next => readWith object? next tokens

end ControlStash.Json
