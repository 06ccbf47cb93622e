import ControlStash.Json.Reader
import ControlStash.Wire.Complaint

/-!
# Reading programs

A node is an object whose `tag` names its kind, or an array that lists the tag and then the fields in
the order of the schema. Keys that are no field of the kind are ignored, and a tag that is no known
kind makes an unrecognized node whatever else it holds. Of several problems the first in the text is
reported, except that those with a node's tag come before those with its fields, and a missing field
is noticed only after all present ones have been read.

The tag of the root is looked at while the text is still being read, so a problem with it wins over
anything that follows it in the text, even over text that is no JSON.
-/

namespace ControlStash.Wire

/-! ## Fields without nodes inside -/

/-- A string. -/
def decodeText : Json → Except Complaint String
  | .string s => .ok s
  | j => .error (.invalidType (.ofJson j) .string)

/-- A literal: an integer of 64 bits with a sign stays an integer, any other number is a float. -/
def decodeLiteral : Json → Except Complaint Literal
  | .null => .ok .undefined
  | .bool b => .ok (.bool b)
  | .number (.natural n) =>
    .ok (if n.toNat < UInt64.size / 2 then .int n.toInt64 else .float n.toFloat)
  | .number (.negative n) => .ok (.int n)
  | .number (.double x) => .ok (.float x)
  | .string s => .ok (.string s)
  | .array _ => .error .noLiteral
  | .object _ => .error .noLiteral

/-- The operator with a given spelling. -/
def findOperator {α : Type} (spellings : List (String × α)) (s : String) : Except Complaint α :=
  match spellings.lookup s with
  | some op => .ok op
  | none => .error (.unknownVariant s (spellings.map (·.1)))

/-- An operator: its spelling, or an object with the spelling as its only key and nothing in it. -/
def decodeOperator {α : Type} (spellings : List (String × α)) : Json → Except Complaint α
  | .string s => findOperator spellings s
  | .object [(s, value)] =>
    match findOperator spellings s, value with
    | .error e, _ => .error e
    | .ok op, .null => .ok op
    | .ok op, .object [] => .ok op
    | .ok _, value => .error (.invalidType (.ofJson value) .nothing)
  | .object _ => .error .notOneKey
  | j => .error (.invalidType (.ofJson j) .operator)

/-- The type of a parameter, which may be `null`. -/
def decodeType : Json → Except Complaint (Option String)
  | .null => .ok none
  | j => (decodeText j).map some

/-- The members of a parameter, in the order of the text. -/
def decodeParamMembers : List (String × Json) → Option String → Option (Option String) →
    Except Complaint Param
  | [], some name, type? => .ok ⟨name, type?.join⟩
  | [], none, _ => .error (.missingField "name")
  | (key, value) :: members, name?, type? =>
    if key = "name" then
      match name? with
      | some _ => .error (.duplicateField "name")
      | none =>
        match decodeText value with
        | .error e => .error e
        | .ok name => decodeParamMembers members (some name) type?
    else if key = "type" then
      match type? with
      | some _ => .error (.duplicateField "type")
      | none =>
        match decodeType value with
        | .error e => .error e
        | .ok type => decodeParamMembers members name? (some type)
    else decodeParamMembers members name? type?

/-- A parameter: an object with a name and perhaps a type, or an array of the same. -/
def decodeParam : Json → Except Complaint Param
  | .object members => decodeParamMembers members none none
  | .array [] => .error (.paramTooShort 0)
  | .array [name] => (decodeText name).map (⟨·, none⟩)
  | .array (name :: type :: extra) =>
    match decodeText name with
    | .error e => .error e
    | .ok name =>
      match decodeType type with
      | .error e => .error e
      | .ok type? =>
        if extra.isEmpty then .ok ⟨name, type?⟩ else .error (.tooLong (extra.length + 2) 2)
  | j => .error (.invalidType (.ofJson j) .param)

/-- A list, element by element. -/
def decodeList {α : Type} (element : Json → Except Complaint α) : Json → Except Complaint (List α)
  | .array elements => elements.mapM element
  | j => .error (.invalidType (.ofJson j) .list)

/-! ## Tags -/

/-- The key of a node's tag. -/
def tagKey : String := "tag"

/-- The kind that a tag names: by its spelling, or by its place among all kinds. `none` is the kind of
unrecognized nodes. -/
def decodeTag : Json → Except Complaint (Option Kind)
  | .string s => .ok (Kind.ofTag? s)
  | .number (.natural n) => .ok Kind.all[n.toNat]?
  | j => .error (.invalidType (.ofJson j) .tag)

/-- The kind of an object, from its only tag. -/
def decodeKind : List (String × Json) → Option (Option Kind) → Except Complaint (Option Kind)
  | [], some kind? => .ok kind?
  | [], none => .error (.missingField tagKey)
  | (key, value) :: members, seen =>
    if key = tagKey then
      match seen with
      | some _ => .error (.duplicateField tagKey)
      | none =>
        match decodeTag value with
        | .error e => .error e
        | .ok kind? => decodeKind members (some kind?)
    else decodeKind members seen

/-! ## Nodes -/

/-- The value of a field of the given type. The two continuations read the nodes inside it. -/
def decodeField (type : FieldType) (value : Json) (node : Unit → Except Complaint Command)
    (nodes : Unit → Except Complaint (List Command)) : Except Complaint Datum :=
  match type with
  | .literal => (decodeLiteral value).map .literal
  | .name => (decodeText value).map .name
  | .unaryOp => (decodeOperator unarySpellings value).map .unaryOp
  | .binaryOp => (decodeOperator binarySpellings value).map .binaryOp
  | .logicalOp => (decodeOperator logicalSpellings value).map .logicalOp
  | .params => (decodeList decodeParam value).map .params
  | .names => (decodeList decodeText value).map .names
  | .node => (node ()).map .node
  | .optionalNode =>
    match value with
    | .null => .ok (.optionalNode none)
    | _ => (node ()).map fun c => .optionalNode (some c)
  | .nodes => (nodes ()).map .nodes

/-- The field values in the order of the schema; a field that is not there takes its default. -/
def collectFields (done : List (String × Datum)) : List Field → Except Complaint (List Datum)
  | [] => .ok []
  | field :: fields =>
    match (done.lookup field.key).orElse fun _ => field.type.default? with
    | none => .error (.missingField field.key)
    | some datum => (collectFields done fields).map (datum :: ·)

/-- The default values of the fields that an array form leaves out. -/
def collectDefaults (kind : Kind) (count : Nat) : List Field → Except Complaint (List Datum)
  | [] => .ok []
  | field :: fields =>
    match field.type.default? with
    | none => .error (.nodeTooShort count kind)
    | some datum => (collectDefaults kind count fields).map (datum :: ·)

mutual

/-- A node, in either form. -/
def decodeNode : Json → Except Complaint Command
  | .object members =>
    match decodeKind members none with
    | .error e => .error e
    | .ok none => .ok .unrecognized
    | .ok (some kind) =>
      match decodeMembers kind.fields members [] with
      | .error e => .error e
      | .ok done => (collectFields done kind.fields).map kind.assemble
  | .array [] => .error (.missingField tagKey)
  | .array (tag :: values) =>
    match decodeTag tag with
    | .error e => .error e
    | .ok none => if values.isEmpty then .ok .unrecognized else .error (.tooLong values.length 0)
    | .ok (some kind) =>
      (decodeElements kind values.length kind.fields values).map kind.assemble
  | j => .error (.invalidType (.ofJson j) .node)

/-- A list of nodes. -/
def decodeNodes : Json → Except Complaint (List Command)
  | .array elements => decodeAll elements
  | j => .error (.invalidType (.ofJson j) .list)

/-- The nodes of a list, one after the other. -/
def decodeAll : List Json → Except Complaint (List Command)
  | [] => .ok []
  | value :: values =>
    match decodeNode value with
    | .error e => .error e
    | .ok c => (decodeAll values).map (c :: ·)

/-- The members of an object that are among the given fields, in the order of the text. -/
def decodeMembers (fields : List Field) :
    List (String × Json) → List (String × Datum) → Except Complaint (List (String × Datum))
  | [], done => .ok done
  | (key, value) :: members, done =>
    match fields.find? (·.key = key) with
    | none => decodeMembers fields members done
    | some field =>
      if (done.lookup key).isSome then .error (.duplicateField key)
      else
        match decodeField field.type value (fun _ => decodeNode value)
            (fun _ => decodeNodes value) with
        | .error e => .error e
        | .ok datum => decodeMembers fields members ((key, datum) :: done)

/-- The values of an array form, matched with the fields in order; `count` values in all. -/
def decodeElements (kind : Kind) (count : Nat) (fields : List Field) :
    List Json → Except Complaint (List Datum)
  | [] => collectDefaults kind count fields
  | value :: values =>
    match fields with
    | [] => .error (.tooLong count kind.fields.length)
    | field :: fields =>
      match decodeField field.type value (fun _ => decodeNode value)
          (fun _ => decodeNodes value) with
      | .error e => .error e
      | .ok datum => (decodeElements kind count fields values).map (datum :: ·)

end

/-! ## Whole texts -/

/-- Why a text is no program. -/
inductive DecodeError where
  /-- The text is not JSON. -/
  | notJson
  | malformed (complaint : Complaint)

/-- The objection to a tag of the root that is not a string. -/
def objectToTag? : Json.Token → Option Complaint
  | .string _ => none
  | token => (Found.ofToken? token).map fun found => .invalidType found .tag

/-- The problems of the root's own tag that show while the text is being read: a second tag, and a tag
that is no string. -/
def objectToRoot? : Json.State → Json.Token → Option Complaint
  | .value [.member _ key], token => if key = tagKey then objectToTag? token else none
  | .firstElement [], token => objectToTag? token
  | .key done [], .string key =>
    if key = tagKey ∧ (done.lookup tagKey).isSome then some (.duplicateField tagKey) else none
  | _, _ => none

/-- Reads a command from its JSON text. -/
def decode (text : String) : Except DecodeError Command :=
  match Json.readWith objectToRoot? .start (Json.Token.scan text.toList) with
  | .error .syntaxError => .error .notJson
  | .error (.objection complaint) => .error (.malformed complaint)
  | .ok (value, rest) =>
    match decodeNode value with
    | .error complaint => .error (.malformed complaint)
    | .ok command => if rest.isEmpty then .ok command else .error .notJson

/-- The wording of a complaint about a whole program. -/
def Complaint.programMessage (complaint : Complaint) : String :=
  "malformed program: " ++ complaint.message

end ControlStash.Wire

/-- Reads a program from its JSON text. -/
def ControlStash.Program.ofText (text : String) :
    Except ControlStash.Wire.DecodeError ControlStash.Program :=
  (ControlStash.Wire.decode text).map .ofRoot
