import ControlStash.Proofs.Nesting
import ControlStash.Proofs.Tree
import ControlStash.Wire.Encode

/-!
# Commands by their fields

Every command but an unrecognized one is of one kind and has one value for each field of this kind
(`Command.kind?`, `Command.data`). Its canonical JSON value lists these (`encode_eq`), and the kind
assembles it from them (`assemble_data`); so what is true of the canonical form of any command is
shown for fields, and goes down the tree with `Command.inner_induction`.
-/

namespace ControlStash

open Wire

/-- The type of the field that a value is for. -/
def Wire.Datum.type : Datum → FieldType
  | .literal _ => .literal
  | .name _ => .name
  | .unaryOp _ => .unaryOp
  | .binaryOp _ => .binaryOp
  | .logicalOp _ => .logicalOp
  | .node _ => .node
  | .optionalNode _ => .optionalNode
  | .nodes _ => .nodes
  | .params _ => .params
  | .names _ => .names

/-- The commands in a field. -/
def Wire.Datum.commands : Datum → List Command
  | .node c => [c]
  | .optionalNode c? => c?.toList
  | .nodes cs => cs
  | _ => []

namespace Command

/-- The kind of a command that is recognized. -/
def kind? : Command → Option Kind
  | .lit _ => some .lit
  | .name _ => some .nam
  | .unary _ _ => some .unop
  | .binary _ _ _ => some .binop
  | .function _ _ _ => some .function
  | .logical _ _ _ => some .log
  | .conditional _ _ _ => some .condExpr
  | .call _ _ => some .app
  | .assign _ _ => some .assmt
  | .lambda _ _ => some .lam
  | .arrayOf _ => some .arrLit
  | .lengthOf _ => some .arrLen
  | .index _ _ => some .arrAcc
  | .indexAssign _ _ _ => some .arrAssmt
  | .seq _ => some .seq
  | .branch _ _ _ => some .condStmt
  | .block _ => some .blk
  | .declare .letForm _ _ => some .letDecl
  | .declare .constForm _ _ => some .constDecl
  | .ret _ => some .ret
  | .loop .whileForm _ _ => some .whileLoop
  | .loop .forForm _ _ => some .forLoop
  | .go _ _ => some .goroutines
  | .attempt _ _ _ => some .attempt
  | .throw _ => some .throw
  | .unrecognized => none

/-- The values of a command's fields, in the order of the schema. -/
def data : Command → List Datum
  | .lit value => [.literal value]
  | .name sym => [.name sym]
  | .unary op a => [.unaryOp op, .node a]
  | .binary op a b => [.binaryOp op, .node a, .node b]
  | .function sym params body => [.name sym, .params params, .node body]
  | .logical op a b => [.logicalOp op, .node a, .node b]
  | .conditional pred cons alt => [.node pred, .node cons, .node alt]
  | .call callee args => [.node callee, .nodes args]
  | .assign sym expr => [.name sym, .node expr]
  | .lambda params body => [.names params, .node body]
  | .arrayOf elements => [.nodes elements]
  | .lengthOf array => [.node array]
  | .index array position => [.node array, .node position]
  | .indexAssign array position expr => [.node array, .node position, .node expr]
  | .seq stmts => [.nodes stmts]
  | .branch pred cons alt => [.node pred, .node cons, .optionalNode alt]
  | .block body => [.node body]
  | .declare _ sym expr => [.name sym, .node expr]
  | .ret expr => [.node expr]
  | .loop _ pred body => [.node pred, .node body]
  | .go callee args => [.node callee, .nodes args]
  | .attempt body sym handler => [.node body, .name sym, .node handler]
  | .throw expr => [.node expr]
  | .unrecognized => []

theorem eq_unrecognized_of_kind? {c : Command} (none : c.kind? = none) : c = .unrecognized := by
  cases c with
  | declare form => cases form <;> cases none
  | loop form => cases form <;> cases none
  | unrecognized => rfl
  | _ => cases none

section

variable {c : Command} {kind : Kind}

/-- A command is assembled from its fields. -/
theorem assemble_data (recognized : c.kind? = some kind) : kind.assemble c.data = c := by
  cases c with
  | declare form => cases form <;> (cases recognized; rfl)
  | loop form => cases form <;> (cases recognized; rfl)
  | unrecognized => cases recognized
  | _ => cases recognized; rfl

/-- The fields of a command are those of its kind. -/
theorem types_data (recognized : c.kind? = some kind) :
    c.data.map Datum.type = kind.fields.map Field.type := by
  cases c with
  | declare form => cases form <;> (cases recognized; rfl)
  | loop form => cases form <;> (cases recognized; rfl)
  | unrecognized => cases recognized
  | _ => cases recognized; rfl

end

/-- The fields of an assembled command are those that it was assembled from. -/
theorem data_assemble {kind : Kind} {data : List Datum}
    (typed : data.map Datum.type = kind.fields.map Field.type) :
    (kind.assemble data).kind? = some kind ∧ (kind.assemble data).data = data := by
  cases kind <;>
    simp only [Kind.fields, List.map_cons, List.map_nil, List.map_eq_cons_iff,
      List.map_eq_nil_iff] at typed
  case lit | nam | arrLit | arrLen | seq | blk | ret | throw =>
    obtain ⟨a, _, rfl, first, rfl⟩ := typed
    cases a <;> first | exact ⟨rfl, rfl⟩ | cases first
  case unop | app | assmt | lam | arrAcc | letDecl | constDecl | whileLoop | forLoop | goroutines =>
    obtain ⟨a, _, rfl, first, b, _, rfl, second, rfl⟩ := typed
    cases a <;> cases first
    cases b <;> first | exact ⟨rfl, rfl⟩ | cases second
  case binop | function | log | condExpr | arrAssmt | condStmt | attempt =>
    obtain ⟨a, _, rfl, first, b, _, rfl, second, c, _, rfl, third, rfl⟩ := typed
    cases a <;> cases first
    cases b <;> cases second
    cases c <;> first | exact ⟨rfl, rfl⟩ | cases third

/-- The commands in the fields of a command. -/
def inner (c : Command) : List Command :=
  c.data.flatMap Datum.commands

theorem sizeOf_lt_of_mem_commands {d : Datum} {b : Command} (inside : b ∈ d.commands) :
    sizeOf b < sizeOf d := by
  cases d with
  | node c =>
    cases List.mem_singleton.mp inside
    exact Nat.lt_add_of_pos_left Nat.one_pos
  | optionalNode c? =>
    cases Option.mem_toList.mp inside
    show sizeOf b < 1 + (1 + sizeOf b)
    omega
  | nodes cs => exact Nat.lt_add_left 1 (List.sizeOf_lt_of_mem inside)
  | _ => cases inside

theorem sizeOf_le_of_mem_data {c : Command} {d : Datum} (field : d ∈ c.data) :
    sizeOf d ≤ sizeOf c := by
  cases c <;> simp only [data, List.mem_cons, List.not_mem_nil, or_false] at field
  all_goals grind

/-- The nodes in the fields of a command are smaller than the command. -/
theorem sizeOf_lt_of_mem_inner {c b : Command} (inside : b ∈ c.inner) : sizeOf b < sizeOf c := by
  obtain ⟨d, field, inside⟩ := List.mem_flatMap.mp inside
  calc sizeOf b < sizeOf d := sizeOf_lt_of_mem_commands inside
    _ ≤ sizeOf c := sizeOf_le_of_mem_data field

/-- What holds of a command if it holds of the commands in its fields holds of all commands. -/
theorem inner_induction {P : Command → Prop} (up : ∀ c, (∀ b ∈ c.inner, P b) → P c)
    (c : Command) : P c :=
  up c fun b inside =>
    have := sizeOf_lt_of_mem_inner inside
    inner_induction up b
termination_by sizeOf c

/-- A test is passed by every node of a tree if the root passes it and every node below does. -/
theorem everywhere_iff {p : Command → Bool} {c : Command} :
    c.everywhere p = true ↔ p c = true ∧ ∀ b ∈ c.inner, b.everywhere p = true := by
  cases c
  case branch pred cons alt =>
    cases alt <;> simp [everywhere, everywhereOption, inner, data, Datum.commands, and_assoc]
  all_goals
    simp [everywhere, everywhereAll_iff, inner, data, Datum.commands, and_assoc]

end Command

/-! ## Literals -/

/-- Whether a literal, if it is a float, is a finite one. -/
def Literal.isFinite : Literal → Bool
  | .float x => x.isFinite
  | _ => true

/-- Whether the number of a literal is read back from its text. Only that of a float may fail to. -/
def Literal.readsBack : Literal → Bool
  | .float x => decide (Json.Number.double x).ReadsBack
  | _ => true

namespace Command

/-- Whether a command passes a test on its literal, if it is one. -/
def onLiteral (p : Literal → Bool) : Command → Bool
  | .lit l => p l
  | _ => true

/-- All float literals of the tree are finite. -/
def Finite (c : Command) : Prop :=
  c.everywhere (onLiteral Literal.isFinite) = true

/-- The text of every finite float literal of the tree reads back as the same number. -/
def Legible (c : Command) : Prop :=
  c.everywhere (onLiteral fun l => !l.isFinite || l.readsBack) = true

instance (c : Command) : Decidable c.Finite :=
  inferInstanceAs (Decidable (_ = _))

instance (c : Command) : Decidable c.Legible :=
  inferInstanceAs (Decidable (_ = _))

/-- A command has a literal among its fields if it is this literal. -/
theorem onLiteral_iff {p : Literal → Bool} {c : Command} :
    onLiteral p c = true ↔ ∀ l, .literal l ∈ c.data → p l = true := by
  cases c <;> simp [onLiteral, data]

/-- The literals of a tree pass a test if those of the root's fields do and those of the nodes
below. -/
theorem everywhere_onLiteral_iff {p : Literal → Bool} {c : Command} :
    c.everywhere (onLiteral p) = true ↔
      (∀ l, .literal l ∈ c.data → p l = true) ∧
        ∀ b ∈ c.inner, b.everywhere (onLiteral p) = true := by
  rw [everywhere_iff, onLiteral_iff]

end Command

namespace Wire

/-! ## The canonical form of a field -/

/-- The canonical JSON value of a field. -/
def Datum.encode : Datum → Json
  | .literal value => encodeLiteral value
  | .name sym => .string sym
  | .unaryOp op => .string op.symbol
  | .binaryOp op => .string op.symbol
  | .logicalOp op => .string op.symbol
  | .node c => Wire.encode c
  | .optionalNode none => .null
  | .optionalNode (some c) => Wire.encode c
  | .nodes cs => .array (encodeAll cs)
  | .params ps => .array (ps.map encodeParam)
  | .names syms => encodeNames syms

/-- Whether a field is written in the canonical form. -/
def Datum.isWritten : Datum → Bool
  | .optionalNode none => false
  | _ => true

/-- The members of the canonical form for some fields. -/
def encodeFields : List Field → List Datum → List (String × Json)
  | field :: fields, datum :: data =>
    if datum.isWritten then (field.key, datum.encode) :: encodeFields fields data
    else encodeFields fields data
  | _, _ => []

/-- The canonical form of a command is its tag, followed by its fields. -/
theorem encode_eq {c : Command} {kind : Kind} (recognized : c.kind? = some kind) :
    encode c = tagged kind.tag (encodeFields kind.fields c.data) := by
  cases c with
  | declare form => cases form <;> (cases recognized; simp [encode]; rfl)
  | loop form => cases form <;> (cases recognized; simp [encode]; rfl)
  | branch pred cons alt => cases alt <;> (cases recognized; simp [encode]; rfl)
  | unrecognized => cases recognized
  | _ => cases recognized; simp [encode]; rfl

theorem encodeAll_eq (cs : List Command) : encodeAll cs = cs.map encode := by
  induction cs with
  | nil => simp [encodeAll]
  | cons c cs ih => simp [encodeAll, ih]

end Wire

end ControlStash
