import ControlStash.Stack
import ControlStash.Value

/-!
# Control items

The control stack holds what is still to be done: commands, which are replaced by their expansion when
they come to the top, and instructions, which carry what their execution needs. `Command.plan` is the
expansion of the commands whose work is to schedule other items.
-/

namespace ControlStash

/-- A step of work that is no command. -/
inductive Instruction where
  | unary (op : UnaryOp)
  | binary (op : BinaryOp)
  /-- Drops a value. -/
  | pop
  /-- Gives a name the value on top of the stash, which stays there. -/
  | assign (sym : String)
  | call (arity : Nat)
  | branch (cons : Command) (alt : Option Command)
  /-- Decides whether a loop goes round once more. -/
  | loop (form : LoopForm) (pred body : Command)
  /-- Restores an environment. -/
  | restore (env : Env)
  | makeArray (arity : Nat)
  | index
  | indexAssign
  /-- The place to which a function returns. -/
  | mark
  /-- Discards items down to the nearest mark. -/
  | reset
  /-- Discards items down to the nearest catch. -/
  | throw
  /-- The place to which a throw goes: the name for the thrown value, the handler, and the environment
  and stash height to go back to. -/
  | catch (sym : String) (handler : Command) (env : Env) (height : Nat)
  | go (arity : Nat)

/-- The name of an instruction. -/
def Instruction.tag : Instruction → String
  | .unary _ => "unop_i"
  | .binary _ => "binop_i"
  | .pop => "pop_i"
  | .assign _ => "assmt_i"
  | .call _ => "app_i"
  | .branch _ _ => "branch_i"
  | .loop .whileForm _ _ => "while_i"
  | .loop .forForm _ _ => "for_i"
  | .restore _ => "env_i"
  | .makeArray _ => "arr_lit_i"
  | .index => "arr_acc_i"
  | .indexAssign => "arr_assmt_i"
  | .mark => "mark_i"
  | .reset => "reset_i"
  | .throw => "throw_i"
  | .catch _ _ _ _ => "catch_i"
  | .go _ => "goroutines_i"

/-- An entry of the control stack. -/
inductive Item where
  | command (c : Command)
  | instruction (i : Instruction)

/-- The name of an item. -/
def Item.tag : Item → String
  | .command c => c.tag
  | .instruction i => i.tag

namespace Command

/-- A sequence, top first: each value but the last is dropped, and an empty sequence is undefined. -/
def sequencePlan : List Command → List Item
  | [] => [.command .undefined]
  | [stmt] => [.command stmt]
  | stmt :: stmts => .command stmt :: .instruction .pop :: sequencePlan stmts

/-- The operands of a call, top first: the callee is evaluated before the arguments. -/
def operandPlan (callee : Command) (args : List Command) (last : Instruction) : List Item :=
  .command callee :: (args.map .command ++ [.instruction last])

/-- The items that replace a command on the control stack, top first, in an environment and at a stash
height. Commands that act at once, and those that no machine knows, schedule nothing. -/
def plan (env : Env) (height : Nat) : Command → List Item
  | .unary op operand => [.command operand, .instruction (.unary op)]
  | .binary op left right => [.command left, .command right, .instruction (.binary op)]
  | .function sym params body =>
    [.command (.declare .constForm sym (.lambda (params.map (·.name)) body))]
  | .logical .and left right => [.command (.conditional left right (.lit (.bool false)))]
  | .logical .or left right => [.command (.conditional left (.lit (.bool true)) right)]
  | .conditional pred cons alt => [.command pred, .instruction (.branch cons (some alt))]
  | .branch pred cons alt => [.command pred, .instruction (.branch cons alt)]
  | .call callee args => operandPlan callee args (.call args.length)
  | .go callee args => operandPlan callee args (.go args.length)
  | .assign sym expr => [.command expr, .instruction (.assign sym)]
  | .arrayOf elements => elements.map .command ++ [.instruction (.makeArray elements.length)]
  | .lengthOf array => [.command (.callNamed "array_length" [array])]
  | .index array position => [.command array, .command position, .instruction .index]
  | .indexAssign array position expr =>
    [.command array, .command position, .command expr, .instruction .indexAssign]
  | .seq stmts => sequencePlan stmts
  | .declare _ sym expr =>
    [.command expr, .instruction (.assign sym), .instruction .pop, .command .undefined]
  | .ret expr => [.command expr, .instruction .reset]
  | .loop form pred body =>
    [.command pred, .instruction (.loop form pred body), .command .undefined]
  | .attempt body sym handler =>
    [.command body, .instruction (.catch sym handler env height)]
  | .throw expr => [.command expr, .instruction .throw]
  | .lit _ => []
  | .name _ => []
  | .lambda _ _ => []
  | .block _ => []
  | .unrecognized => []

end Command

/-- The number of items above the mark of the running function, if a call in return position may reuse
its frame: there must be no catch in between. -/
def tailFrame? : List Item → Option Nat
  | [] => none
  | .instruction .mark :: _ => some 0
  | .instruction (.catch _ _ _ _) :: _ => none
  | _ :: items => (tailFrame? items).map (· + 1)

end ControlStash
