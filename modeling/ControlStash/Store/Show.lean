import Std.Data.HashSet
import ControlStash.Decimal.Layout
import ControlStash.Store.Basic
import ControlStash.Text.Quoted

/-!
# The text of values

A value has two texts: `display`, which programs print, and `debug`, which also tells the types of
scalars apart. They differ in the text of scalars only; an array is its elements between brackets, and
an array met again while it is still open is written `[...]`, so that arrays inside themselves have a
text too.

Arrays are written from a list of pieces still to be written, which keeps the nesting of arrays out of
the nesting of calls. The work ends because no more arrays can be open at once than there are: `room`
counts those that still may be opened, and `weight` bounds the pieces that the listed ones can unfold
to.
-/

namespace ControlStash

/-- Floating-point text of values: positional always, without a mark on whole numbers. -/
def floatLayout : Decimal.Layout where
  tie := .away
  positional _ := true
  wholeMark := ""
  nan := "NaN"
  infinity := "inf"
  negativeInfinity := "-inf"

namespace Value

/-- The printed text of a value that is no array. -/
def displayScalar : Value → String
  | .undefined => "undefined"
  | .unassigned => "<unassigned>"
  | .int n => toString n.toInt
  | .float x => floatLayout.text x
  | .bool b => if b then "true" else "false"
  | .string s => s
  | .closure _ => "<closure>"
  | .builtin b => "<builtin: " ++ b.name ++ ">"
  | .array _ => "[...]"

/-- The text of a value that is no array, with its type where the printed text leaves it open. -/
def debugScalar : Value → String
  | .string s => "Str(" ++ Text.quoted s ++ ")"
  | .int n => "Int(" ++ toString n.toInt ++ ")"
  | .float x => "Float(" ++ floatLayout.text x ++ ")"
  | .bool b => "Bool(" ++ (if b then "true" else "false") ++ ")"
  | .closure c => "Closure(" ++ ", ".intercalate c.params ++ ")"
  | v => v.displayScalar

end Value

namespace Store

/-- Something still to be written. -/
inductive Piece where
  | value (v : Value)
  | separator
  /-- The end of an array, which is open until then. -/
  | close (ref : ArrayRef)

/-- The elements of an array with separators between them, in front of `rest`. -/
def elementPieces : List Value → List Piece → List Piece
  | [], rest => rest
  | [v], rest => .value v :: rest
  | v :: vs, rest => .value v :: .separator :: elementPieces vs rest

/-- A bound on the pieces that a value unfolds to while `room` more arrays may be opened. -/
def cost (store : Store) : (room : Nat) → Value → Nat
  | room + 1, .array ref =>
    2 + (store.elements ref).toList.foldr (fun v n => store.cost room v + 1 + n) 0
  | _, _ => 1

/-- A bound on the pieces that a list of pieces unfolds to. The end of an array makes room for one
more. -/
def weight (store : Store) : (room : Nat) → List Piece → Nat
  | _, [] => 0
  | room, .value v :: pieces => store.cost room v + store.weight room pieces
  | room, .separator :: pieces => 1 + store.weight room pieces
  | room, .close _ :: pieces => 1 + store.weight (room + 1) pieces

theorem cost_pos (store : Store) (room : Nat) (v : Value) : 0 < store.cost room v := by
  unfold cost
  split <;> omega

theorem weight_elementPieces_le (store : Store) (room : Nat) (vs : List Value)
    (rest : List Piece) :
    store.weight room (elementPieces vs rest) ≤
      vs.foldr (fun v n => store.cost room v + 1 + n) 0 + store.weight room rest := by
  fun_induction elementPieces vs rest with
  | case1 rest => exact Nat.le_add_left ..
  | case2 v rest =>
    simp only [weight, List.foldr_cons, List.foldr_nil]
    omega
  | case3 v vs _ rest ih =>
    simp only [weight, List.foldr_cons] at ih ⊢
    omega

theorem weight_open_lt (store : Store) (room : Nat) (ref : ArrayRef) (pieces : List Piece) :
    store.weight room (elementPieces (store.elements ref).toList (.close ref :: pieces)) <
      store.weight (room + 1) (.value (.array ref) :: pieces) := by
  have bound := store.weight_elementPieces_le room (store.elements ref).toList (.close ref :: pieces)
  simp only [weight, cost] at bound ⊢
  omega

/-- Writes the listed pieces behind `out`. An array without elements is never open: it has nothing
inside. -/
def writePieces (store : Store) (scalar : Value → String) (room : Nat)
    (opened : Std.HashSet ArrayRef) (pieces : List Piece) (out : String) : String :=
  match pieces with
  | [] => out
  | .separator :: pieces => store.writePieces scalar room opened pieces (out ++ ", ")
  | .close ref :: pieces =>
    store.writePieces scalar (room + 1) (opened.erase ref) pieces (out ++ "]")
  | .value (.array ref) :: pieces =>
    if (store.elements ref).isEmpty then
      store.writePieces scalar room opened pieces (out ++ "[]")
    else if opened.contains ref then
      store.writePieces scalar room opened pieces (out ++ "[...]")
    else
      match room with
      | 0 => store.writePieces scalar 0 opened pieces (out ++ "[...]")
      | room + 1 =>
        store.writePieces scalar room (opened.insert ref)
          (elementPieces (store.elements ref).toList (.close ref :: pieces)) (out ++ "[")
  | .value v :: pieces => store.writePieces scalar room opened pieces (out ++ scalar v)
termination_by store.weight room pieces
decreasing_by
  · simp only [weight]; omega
  · simp only [weight]; omega
  · simp only [weight]; exact Nat.lt_add_of_pos_left (store.cost_pos ..)
  · simp only [weight]; exact Nat.lt_add_of_pos_left (store.cost_pos ..)
  · simp only [weight]; exact Nat.lt_add_of_pos_left (store.cost_pos ..)
  · exact store.weight_open_lt ..
  · simp only [weight]; exact Nat.lt_add_of_pos_left (store.cost_pos ..)

/-- The text of a value, its scalars written by `scalar`. -/
def render (store : Store) (scalar : Value → String) (v : Value) : String :=
  match v with
  | .array _ => store.writePieces scalar store.arrays.size ∅ [.value v] ""
  | v => scalar v

/-- The text of a value as programs print it. -/
def display (store : Store) (v : Value) : String :=
  store.render Value.displayScalar v

/-- The text of a value with the types of its scalars. -/
def debug (store : Store) (v : Value) : String :=
  store.render Value.debugScalar v

/-- The shape of an environment: the names of its innermost frame in order, and its depth. -/
def debugEnv (store : Store) (env : Env) : String :=
  let names := (store.innermostNames env).mergeSort (fun a b => a ≤ b)
  "Env \x7b names: [" ++ ", ".intercalate (names.map Text.quoted) ++ "], depth: " ++
    toString env.depth ++ " \x7d"

end Store

end ControlStash
