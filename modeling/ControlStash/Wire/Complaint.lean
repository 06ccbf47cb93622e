import ControlStash.Json.Writer
import ControlStash.Text.Quoted
import ControlStash.Wire.Schema

/-!
# Complaints about malformed programs

Why a JSON value is no program, as causes; `Complaint.message` puts a cause into words.
-/

namespace ControlStash.Wire

/-- What was found where something else was expected. -/
inductive Found where
  | null
  | bool (b : Bool)
  | number (n : Json.Number)
  | string (s : String)
  | sequence
  | map

/-- The description of what was found. -/
def Found.text : Found → String
  | .null => "null"
  | .bool b => "boolean `" ++ (if b then "true" else "false") ++ "`"
  | .number (.natural n) => "integer `" ++ toString n.toNat ++ "`"
  | .number (.negative n) => "integer `" ++ toString n.toInt ++ "`"
  | .number (.double x) => "floating point `" ++ Json.doubleLayout.text x ++ "`"
  | .string s => "string " ++ Text.quoted s
  | .sequence => "sequence"
  | .map => "map"

/-- What a JSON value is found to be. -/
def Found.ofJson : Json → Found
  | .null => .null
  | .bool b => .bool b
  | .number n => .number n
  | .string s => .string s
  | .array _ => .sequence
  | .object _ => .map

/-- What the first token of a value tells about the value; `none` for a token that starts none. -/
def Found.ofToken? : Json.Token → Option Found
  | .null => some .null
  | .bool b => some (.bool b)
  | .number n => some (.number n)
  | .string s => some (.string s)
  | .openBracket => some .sequence
  | .openBrace => some .map
  | _ => none

/-- What was expected. -/
inductive Expected where
  | node
  | tag
  | string
  | list
  | param
  | operator
  | nothing
  deriving DecidableEq, Repr

/-- The description of what was expected. -/
def Expected.text : Expected → String
  | .node => "internally tagged enum Command"
  | .tag => "variant identifier"
  | .string => "a string"
  | .list => "a sequence"
  | .param => "struct Param"
  | .operator => "string or map"
  | .nothing => "unit"

/-- Why a JSON value is no program. -/
inductive Complaint where
  | missingField (key : String)
  | duplicateField (key : String)
  | unknownVariant (found : String) (known : List String)
  | invalidType (found : Found) (expected : Expected)
  /-- An operator written as an object that has not exactly one key. -/
  | notOneKey
  /-- A literal that is an array or an object. -/
  | noLiteral
  /-- The array form of a node ends after `count` values. -/
  | nodeTooShort (count : Nat) (kind : Kind)
  /-- The array form of a parameter ends after `count` values. -/
  | paramTooShort (count : Nat)
  /-- An array form has `count` values where only `limit` are known. -/
  | tooLong (count limit : Nat)

/-- A number of elements in words. -/
def elementCount (n : Nat) : String :=
  toString n ++ (if n = 1 then " element" else " elements")

/-- The alternatives of a choice in words. -/
def alternatives : List String → String
  | [] => "there are no variants"
  | [a] => "expected `" ++ a ++ "`"
  | [a, b] => "expected `" ++ a ++ "` or `" ++ b ++ "`"
  | names => "expected one of " ++ ", ".intercalate (names.map fun a => "`" ++ a ++ "`")

/-- The wording of a complaint. -/
def Complaint.message : Complaint → String
  | .missingField key => "missing field `" ++ key ++ "`"
  | .duplicateField key => "duplicate field `" ++ key ++ "`"
  | .unknownVariant found known => "unknown variant `" ++ found ++ "`, " ++ alternatives known
  | .invalidType found expected =>
    "invalid type: " ++ found.text ++ ", expected " ++ expected.text
  | .notOneKey => "invalid value: map, expected map with a single key"
  | .noLiteral => "data did not match any variant of untagged enum Literal"
  | .nodeTooShort count kind =>
    "invalid length " ++ toString count ++ ", expected struct variant Command::" ++ kind.title ++
      " with " ++ elementCount kind.fields.length
  | .paramTooShort count =>
    "invalid length " ++ toString count ++ ", expected struct Param with " ++ elementCount 2
  | .tooLong count limit =>
    "invalid length " ++ toString count ++ ", expected " ++ elementCount limit ++ " in sequence"

end ControlStash.Wire
