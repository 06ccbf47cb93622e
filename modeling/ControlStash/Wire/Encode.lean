import ControlStash.Json.Writer
import ControlStash.Command.Basic

/-!
# Writing programs

The canonical form of a command: an object with the tag first and then the fields in the order of the
schema. A missing alternative and a missing parameter type are left out; the value of a literal is
always written.
-/

namespace ControlStash.Wire

/-- The JSON number of an integer of 64 bits. -/
def encodeInt (n : Int64) : Json :=
  .number (if n < 0 then .negative n else .natural n.toUInt64)

/-- A literal; a float that is not finite is written as `null`. -/
def encodeLiteral : Literal → Json
  | .bool b => .bool b
  | .int n => encodeInt n
  | .float x => if x.isFinite then .number (.double x) else .null
  | .string s => .string s
  | .undefined => .null

/-- A parameter. -/
def encodeParam (p : Param) : Json :=
  .object (("name", .string p.name) ::
    match p.type? with
    | none => []
    | some type => [("type", .string type)])

/-- A list of names. -/
def encodeNames (names : List String) : Json :=
  .array (names.map .string)

/-- An object with its tag first. -/
def tagged (tag : String) (fields : List (String × Json)) : Json :=
  .object (("tag", .string tag) :: fields)

mutual

/-- The canonical JSON value of a command. -/
def encode : Command → Json
  | .lit value => tagged "lit" [("val", encodeLiteral value)]
  | .name sym => tagged "nam" [("sym", .string sym)]
  | .unary op a => tagged "unop" [("sym", .string op.symbol), ("frst", encode a)]
  | .binary op a b =>
    tagged "binop" [("sym", .string op.symbol), ("frst", encode a), ("scnd", encode b)]
  | .function sym params body =>
    tagged "fun" [("sym", .string sym), ("prms", .array (params.map encodeParam)),
      ("body", encode body)]
  | .logical op a b =>
    tagged "log" [("sym", .string op.symbol), ("frst", encode a), ("scnd", encode b)]
  | .conditional pred cons alt =>
    tagged "cond_expr" [("pred", encode pred), ("cons", encode cons), ("alt", encode alt)]
  | .call callee args => tagged "app" [("fun", encode callee), ("args", .array (encodeAll args))]
  | .assign sym expr => tagged "assmt" [("sym", .string sym), ("expr", encode expr)]
  | .lambda params body => tagged "lam" [("prms", encodeNames params), ("body", encode body)]
  | .arrayOf elements => tagged "arr_lit" [("elems", .array (encodeAll elements))]
  | .lengthOf array => tagged "arr_len" [("expr", encode array)]
  | .index array position => tagged "arr_acc" [("arr", encode array), ("ind", encode position)]
  | .indexAssign array position expr =>
    tagged "arr_assmt" [("arr", encode array), ("ind", encode position), ("expr", encode expr)]
  | .seq stmts => tagged "seq" [("stmts", .array (encodeAll stmts))]
  | .branch pred cons none => tagged "cond_stmt" [("pred", encode pred), ("cons", encode cons)]
  | .branch pred cons (some alt) =>
    tagged "cond_stmt" [("pred", encode pred), ("cons", encode cons), ("alt", encode alt)]
  | .block body => tagged "blk" [("body", encode body)]
  | .declare .letForm sym expr => tagged "let" [("sym", .string sym), ("expr", encode expr)]
  | .declare .constForm sym expr => tagged "const" [("sym", .string sym), ("expr", encode expr)]
  | .ret expr => tagged "ret" [("expr", encode expr)]
  | .loop .whileForm pred body => tagged "while" [("pred", encode pred), ("body", encode body)]
  | .loop .forForm pred body => tagged "for" [("pred", encode pred), ("body", encode body)]
  | .go callee args =>
    tagged "goroutines" [("fun", encode callee), ("args", .array (encodeAll args))]
  | .attempt body sym handler =>
    tagged "try" [("body", encode body), ("sym", .string sym), ("catch", encode handler)]
  | .throw expr => tagged "throw" [("expr", encode expr)]
  | .unrecognized => tagged "unrecognized" []

/-- The canonical JSON values of a list of commands. -/
def encodeAll : List Command → List Json
  | [] => []
  | c :: cs => encode c :: encodeAll cs

end

end ControlStash.Wire

/-- The canonical JSON text of a command. -/
def ControlStash.Command.render (c : ControlStash.Command) : String :=
  (ControlStash.Wire.encode c).render
