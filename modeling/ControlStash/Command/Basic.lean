/-!
# Commands

The tree of a program. A command is an expression, a statement or a declaration; evaluating any of
them leaves one value. Two pairs of forms differ in their spelling only and share a constructor here:
`let` and `const` declarations, and the two loops.
-/

namespace ControlStash

/-- The constant of a literal command. -/
inductive Literal where
  | bool (b : Bool)
  | int (n : Int64)
  | float (x : Float)
  | string (s : String)
  | undefined

/-- Operators on one value. -/
inductive UnaryOp where
  | neg
  | not
  deriving DecidableEq, Repr

/-- Operators on two values, both of which are evaluated. -/
inductive BinaryOp where
  | add
  | sub
  | mul
  | div
  | rem
  | lt
  | le
  | gt
  | ge
  | eq
  | ne
  deriving DecidableEq, Repr

/-- Operators that evaluate their second operand only if the first does not settle the result. -/
inductive LogicalOp where
  | and
  | or
  deriving DecidableEq, Repr

/-- The spelling of an operator in programs and messages. -/
def UnaryOp.symbol : UnaryOp → String
  | .neg => "-"
  | .not => "!"

@[inherit_doc UnaryOp.symbol]
def BinaryOp.symbol : BinaryOp → String
  | .add => "+"
  | .sub => "-"
  | .mul => "*"
  | .div => "/"
  | .rem => "%"
  | .lt => "<"
  | .le => "<="
  | .gt => ">"
  | .ge => ">="
  | .eq => "=="
  | .ne => "!="

@[inherit_doc UnaryOp.symbol]
def LogicalOp.symbol : LogicalOp → String
  | .and => "&&"
  | .or => "||"

/-- A parameter of a declared function. Its type annotation is carried along and never checked. -/
structure Param where
  name : String
  type? : Option String := none
  deriving DecidableEq, Repr

/-- The two spellings of a declaration. -/
inductive DeclForm where
  | letForm
  | constForm
  deriving DecidableEq, Repr

/-- The two spellings of a loop. -/
inductive LoopForm where
  | whileForm
  | forForm
  deriving DecidableEq, Repr

/-- One node of a program's tree. -/
inductive Command where
  | lit (value : Literal)
  | name (sym : String)
  | unary (op : UnaryOp) (operand : Command)
  | binary (op : BinaryOp) (left right : Command)
  /-- A named function, that is a constant holding a lambda. -/
  | function (sym : String) (params : List Param) (body : Command)
  | logical (op : LogicalOp) (left right : Command)
  | conditional (pred cons alt : Command)
  | call (callee : Command) (args : List Command)
  | assign (sym : String) (expr : Command)
  | lambda (params : List String) (body : Command)
  | arrayOf (elements : List Command)
  | lengthOf (array : Command)
  | index (array position : Command)
  | indexAssign (array position expr : Command)
  | seq (stmts : List Command)
  /-- A conditional statement, whose alternative may be missing. -/
  | branch (pred cons : Command) (alt : Option Command)
  | block (body : Command)
  | declare (form : DeclForm) (sym : String) (expr : Command)
  | ret (expr : Command)
  | loop (form : LoopForm) (pred body : Command)
  /-- Starts a call on a goroutine of its own. -/
  | go (callee : Command) (args : List Command)
  /-- Runs `body`; a value thrown out of it is bound to `sym` for `handler`. -/
  | attempt (body : Command) (sym : String) (handler : Command)
  | throw (expr : Command)
  /-- A node of a kind the machine does not know. -/
  | unrecognized

namespace Command

instance : Inhabited Command := ⟨.unrecognized⟩

/-- The literal command of the undefined value. -/
def undefined : Command := .lit .undefined

/-- A call of a named function. -/
def callNamed (sym : String) (args : List Command) : Command :=
  .call (.name sym) args

/-- A named function started on a goroutine of its own. -/
def goNamed (sym : String) (args : List Command) : Command :=
  .go (.name sym) args

/-- A block around a sequence of statements. -/
def blockOf (stmts : List Command) : Command :=
  .block (.seq stmts)

/-- The name of the node's kind. -/
def tag : Command → String
  | .lit _ => "lit"
  | .name _ => "nam"
  | .unary _ _ => "unop"
  | .binary _ _ _ => "binop"
  | .function _ _ _ => "fun"
  | .logical _ _ _ => "log"
  | .conditional _ _ _ => "cond_expr"
  | .call _ _ => "app"
  | .assign _ _ => "assmt"
  | .lambda _ _ => "lam"
  | .arrayOf _ => "arr_lit"
  | .lengthOf _ => "arr_len"
  | .index _ _ => "arr_acc"
  | .indexAssign _ _ _ => "arr_assmt"
  | .seq _ => "seq"
  | .branch _ _ _ => "cond_stmt"
  | .block _ => "blk"
  | .declare .letForm _ _ => "let"
  | .declare .constForm _ _ => "const"
  | .ret _ => "ret"
  | .loop .whileForm _ _ => "while"
  | .loop .forForm _ _ => "for"
  | .go _ _ => "goroutines"
  | .attempt _ _ _ => "try"
  | .throw _ => "throw"
  | .unrecognized => "unrecognized"

end Command

/-! ## Structural equality

Equality of trees compares float literals as numbers: a literal that is not a number differs from
itself, and the two zeros are the same. -/

/-- Equality of literals, floats compared as numbers. -/
def Literal.same : Literal → Literal → Bool
  | .bool a, .bool b => a == b
  | .int a, .int b => a == b
  | .float a, .float b => a == b
  | .string a, .string b => a == b
  | .undefined, .undefined => true
  | _, _ => false

namespace Command

mutual

/-- Equality of trees, float literals compared as numbers. -/
def same : Command → Command → Bool
  | .lit a, .lit b => a.same b
  | .name x, .name y => x == y
  | .unary o a, .unary p b => o == p && a.same b
  | .binary o a c, .binary p b d => o == p && a.same b && c.same d
  | .function x ps a, .function y qs b => x == y && ps == qs && a.same b
  | .logical o a c, .logical p b d => o == p && a.same b && c.same d
  | .conditional a c e, .conditional b d f => a.same b && c.same d && e.same f
  | .call a as, .call b bs => a.same b && sameAll as bs
  | .assign x a, .assign y b => x == y && a.same b
  | .lambda ps a, .lambda qs b => ps == qs && a.same b
  | .arrayOf as, .arrayOf bs => sameAll as bs
  | .lengthOf a, .lengthOf b => a.same b
  | .index a c, .index b d => a.same b && c.same d
  | .indexAssign a c e, .indexAssign b d f => a.same b && c.same d && e.same f
  | .seq as, .seq bs => sameAll as bs
  | .branch a c e, .branch b d f => a.same b && c.same d && sameOption e f
  | .block a, .block b => a.same b
  | .declare k x a, .declare l y b => k == l && x == y && a.same b
  | .ret a, .ret b => a.same b
  | .loop k a c, .loop l b d => k == l && a.same b && c.same d
  | .go a as, .go b bs => a.same b && sameAll as bs
  | .attempt a x c, .attempt b y d => a.same b && x == y && c.same d
  | .throw a, .throw b => a.same b
  | .unrecognized, .unrecognized => true
  | _, _ => false

/-- Equality of lists of trees, element by element. -/
def sameAll : List Command → List Command → Bool
  | [], [] => true
  | a :: as, b :: bs => a.same b && sameAll as bs
  | _, _ => false

/-- Equality of trees that may be missing. -/
def sameOption : Option Command → Option Command → Bool
  | none, none => true
  | some a, some b => a.same b
  | _, _ => false

end

end Command

/-- A program: the statements of its outermost scope. -/
structure Program where
  body : Command

/-- The program of a root command. A block at the root is the outermost scope itself, so its body is
taken; one level only. -/
def Program.ofRoot : Command → Program
  | .block body => ⟨body⟩
  | root => ⟨root⟩

end ControlStash
