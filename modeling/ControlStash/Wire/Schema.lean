import ControlStash.Command.Basic

/-!
# The schema of the wire format

Every kind of node has a tag and a fixed list of fields, and every field has a type. Reading and
complaining about a tree are driven by this table: `Kind.fields` gives the fields in the order in
which the array form of a node lists them, and `Kind.assemble` builds the command from their values.
-/

namespace ControlStash.Wire

/-- What a field of a node holds. -/
inductive FieldType where
  | literal
  | name
  | unaryOp
  | binaryOp
  | logicalOp
  | node
  | optionalNode
  | nodes
  | params
  | names
  deriving DecidableEq, Repr

/-- The value of a field. -/
inductive Datum where
  | literal (value : Literal)
  | name (sym : String)
  | unaryOp (op : UnaryOp)
  | binaryOp (op : BinaryOp)
  | logicalOp (op : LogicalOp)
  | node (command : Command)
  | optionalNode (command : Option Command)
  | nodes (commands : List Command)
  | params (params : List Param)
  | names (names : List String)

/-- The value of a field that is left out, where its type allows that. -/
def FieldType.default? : FieldType → Option Datum
  | .literal => some (.literal .undefined)
  | .optionalNode => some (.optionalNode none)
  | _ => none

/-- A field: its key in the object form of a node, and its type. -/
structure Field where
  key : String
  type : FieldType
  deriving DecidableEq, Repr

/-- The kinds of nodes that the machine knows. -/
inductive Kind where
  | lit
  | nam
  | unop
  | binop
  | function
  | log
  | condExpr
  | app
  | assmt
  | lam
  | arrLit
  | arrLen
  | arrAcc
  | arrAssmt
  | seq
  | condStmt
  | blk
  | letDecl
  | constDecl
  | ret
  | whileLoop
  | forLoop
  | goroutines
  | attempt
  | throw
  deriving DecidableEq, Repr

namespace Kind

/-- All kinds, in the order in which a number as tag counts them. -/
def all : List Kind :=
  [.lit, .nam, .unop, .binop, .function, .log, .condExpr, .app, .assmt, .lam, .arrLit, .arrLen,
    .arrAcc, .arrAssmt, .seq, .condStmt, .blk, .letDecl, .constDecl, .ret, .whileLoop, .forLoop,
    .goroutines, .attempt, .throw]

/-- The tag of a kind. -/
def tag : Kind → String
  | lit => "lit"
  | nam => "nam"
  | unop => "unop"
  | binop => "binop"
  | function => "fun"
  | log => "log"
  | condExpr => "cond_expr"
  | app => "app"
  | assmt => "assmt"
  | lam => "lam"
  | arrLit => "arr_lit"
  | arrLen => "arr_len"
  | arrAcc => "arr_acc"
  | arrAssmt => "arr_assmt"
  | seq => "seq"
  | condStmt => "cond_stmt"
  | blk => "blk"
  | letDecl => "let"
  | constDecl => "const"
  | ret => "ret"
  | whileLoop => "while"
  | forLoop => "for"
  | goroutines => "goroutines"
  | attempt => "try"
  | throw => "throw"

/-- The kind with a given tag. -/
def ofTag? (s : String) : Option Kind :=
  all.find? fun kind => kind.tag == s

/-- The name of a kind in complaints about the length of its array form. -/
def title : Kind → String
  | lit => "Lit"
  | nam => "Nam"
  | unop => "Unop"
  | binop => "Binop"
  | function => "Fun"
  | log => "Log"
  | condExpr => "CondExpr"
  | app => "App"
  | assmt => "Assmt"
  | lam => "Lam"
  | arrLit => "ArrLit"
  | arrLen => "ArrLen"
  | arrAcc => "ArrAcc"
  | arrAssmt => "ArrAssmt"
  | seq => "Seq"
  | condStmt => "CondStmt"
  | blk => "Blk"
  | letDecl => "Let"
  | constDecl => "Const"
  | ret => "Ret"
  | whileLoop => "While"
  | forLoop => "For"
  | goroutines => "Goroutines"
  | attempt => "Try"
  | throw => "Throw"

/-- The fields of a kind, in the order of its array form. -/
def fields : Kind → List Field
  | lit => [⟨"val", .literal⟩]
  | nam => [⟨"sym", .name⟩]
  | unop => [⟨"sym", .unaryOp⟩, ⟨"frst", .node⟩]
  | binop => [⟨"sym", .binaryOp⟩, ⟨"frst", .node⟩, ⟨"scnd", .node⟩]
  | function => [⟨"sym", .name⟩, ⟨"prms", .params⟩, ⟨"body", .node⟩]
  | log => [⟨"sym", .logicalOp⟩, ⟨"frst", .node⟩, ⟨"scnd", .node⟩]
  | condExpr => [⟨"pred", .node⟩, ⟨"cons", .node⟩, ⟨"alt", .node⟩]
  | app => [⟨"fun", .node⟩, ⟨"args", .nodes⟩]
  | assmt => [⟨"sym", .name⟩, ⟨"expr", .node⟩]
  | lam => [⟨"prms", .names⟩, ⟨"body", .node⟩]
  | arrLit => [⟨"elems", .nodes⟩]
  | arrLen => [⟨"expr", .node⟩]
  | arrAcc => [⟨"arr", .node⟩, ⟨"ind", .node⟩]
  | arrAssmt => [⟨"arr", .node⟩, ⟨"ind", .node⟩, ⟨"expr", .node⟩]
  | seq => [⟨"stmts", .nodes⟩]
  | condStmt => [⟨"pred", .node⟩, ⟨"cons", .node⟩, ⟨"alt", .optionalNode⟩]
  | blk => [⟨"body", .node⟩]
  | letDecl => [⟨"sym", .name⟩, ⟨"expr", .node⟩]
  | constDecl => [⟨"sym", .name⟩, ⟨"expr", .node⟩]
  | ret => [⟨"expr", .node⟩]
  | whileLoop => [⟨"pred", .node⟩, ⟨"body", .node⟩]
  | forLoop => [⟨"pred", .node⟩, ⟨"body", .node⟩]
  | goroutines => [⟨"fun", .node⟩, ⟨"args", .nodes⟩]
  | attempt => [⟨"body", .node⟩, ⟨"sym", .name⟩, ⟨"catch", .node⟩]
  | throw => [⟨"expr", .node⟩]

/-- The command of a kind with the given field values, which are those of `fields` in order. A list of
any other shape belongs to no kind. -/
def assemble : Kind → List Datum → Command
  | lit, [.literal value] => .lit value
  | nam, [.name sym] => .name sym
  | unop, [.unaryOp op, .node operand] => .unary op operand
  | binop, [.binaryOp op, .node left, .node right] => .binary op left right
  | function, [.name sym, .params params, .node body] => .function sym params body
  | log, [.logicalOp op, .node left, .node right] => .logical op left right
  | condExpr, [.node pred, .node cons, .node alt] => .conditional pred cons alt
  | app, [.node callee, .nodes args] => .call callee args
  | assmt, [.name sym, .node expr] => .assign sym expr
  | lam, [.names params, .node body] => .lambda params body
  | arrLit, [.nodes elements] => .arrayOf elements
  | arrLen, [.node array] => .lengthOf array
  | arrAcc, [.node array, .node position] => .index array position
  | arrAssmt, [.node array, .node position, .node expr] => .indexAssign array position expr
  | seq, [.nodes stmts] => .seq stmts
  | condStmt, [.node pred, .node cons, .optionalNode alt] => .branch pred cons alt
  | blk, [.node body] => .block body
  | letDecl, [.name sym, .node expr] => .declare .letForm sym expr
  | constDecl, [.name sym, .node expr] => .declare .constForm sym expr
  | ret, [.node expr] => .ret expr
  | whileLoop, [.node pred, .node body] => .loop .whileForm pred body
  | forLoop, [.node pred, .node body] => .loop .forForm pred body
  | goroutines, [.node callee, .nodes args] => .go callee args
  | attempt, [.node body, .name sym, .node handler] => .attempt body sym handler
  | throw, [.node expr] => .throw expr
  | _, _ => .unrecognized

end Kind

/-! ## Operator spellings -/

/-- The spellings of the unary operators. -/
def unarySpellings : List (String × UnaryOp) :=
  [("-", .neg), ("-unary", .neg), ("!", .not)]

/-- The spellings of the binary operators. -/
def binarySpellings : List (String × BinaryOp) :=
  [("+", .add), ("-", .sub), ("*", .mul), ("/", .div), ("%", .rem), ("<", .lt), ("<=", .le),
    (">", .gt), (">=", .ge), ("==", .eq), ("===", .eq), ("!=", .ne), ("!==", .ne)]

/-- The spellings of the logical operators. -/
def logicalSpellings : List (String × LogicalOp) :=
  [("&&", .and), ("||", .or)]

end ControlStash.Wire
