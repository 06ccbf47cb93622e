/-!
# JSON values

The data model of the wire format. An object keeps its members in the order they were written, with
repetitions, because both are visible in the complaints about a malformed program.
-/

namespace ControlStash

/-- A JSON number as it is told apart when read: a natural number of at most 64 bits, a negative
integer of at most 64 bits, or a double. -/
inductive Json.Number where
  | natural (n : UInt64)
  | negative (n : Int64)
  | double (x : Float)
  deriving DecidableEq

/-- A JSON value. -/
inductive Json where
  | null
  | bool (b : Bool)
  | number (n : Json.Number)
  | string (s : String)
  | array (elements : List Json)
  | object (members : List (String × Json))

namespace Json

instance : Inhabited Json := ⟨.null⟩

/-- The most brackets that may be open at once in a text that is read. -/
def maxOpen : Nat := 127

end Json

end ControlStash
