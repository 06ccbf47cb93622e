import ControlStash.Command.Basic

/-!
# Declared names

A block's frame has a slot for every name that the block declares: the names of the `let`, `const` and
function declarations reached from its body through sequences alone. A nested block, a branch or a
loop keeps its declarations to itself.
-/

namespace ControlStash.Command

mutual

/-- Adds the names that a command declares in the scope around it to those already known, each once,
in the order of their first declaration. -/
def addLocals : Command → List String → List String
  | .seq stmts, known => addLocalsAll stmts known
  | .declare _ sym _, known => if sym ∈ known then known else known ++ [sym]
  | .function sym _ _, known => if sym ∈ known then known else known ++ [sym]
  | _, known => known

/-- Adds the names that a list of statements declares. -/
def addLocalsAll : List Command → List String → List String
  | [], known => known
  | stmt :: stmts, known => addLocalsAll stmts (stmt.addLocals known)

end

/-- The names that a body declares in its own scope, each once, in order of first declaration. -/
def locals (body : Command) : List String :=
  body.addLocals []

end ControlStash.Command
