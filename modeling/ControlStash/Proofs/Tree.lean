import ControlStash.Proofs.Move

/-!
# Tests on trees

A test that every node of a tree passes is passed by all commands that ever come to the top of the
control stack, provided that the nodes which expansions make up pass it too (`Heritable`). This
module has the tests that the results about whole runs ask for:

* `GoFree`: no node starts a goroutine;
* `RetSafe`: no `return` stands in an operand position, where partial operands lie below it on the
  stash. `escapes` says whether a command has a `return` that leaves the function around the
  command; those inside a nested function do not count.
-/

namespace ControlStash.Command

/-! ## Tests on all nodes -/

mutual

/-- Whether every node of a tree passes a test, those of nested functions included. -/
def everywhere (p : Command → Bool) : Command → Bool
  | .lit l => p (.lit l)
  | .name sym => p (.name sym)
  | .unary op a => p (.unary op a) && a.everywhere p
  | .binary op a b => p (.binary op a b) && a.everywhere p && b.everywhere p
  | .function sym params body => p (.function sym params body) && body.everywhere p
  | .logical op a b => p (.logical op a b) && a.everywhere p && b.everywhere p
  | .conditional a b c =>
    p (.conditional a b c) && a.everywhere p && b.everywhere p && c.everywhere p
  | .call callee args => p (.call callee args) && callee.everywhere p && everywhereAll p args
  | .assign sym a => p (.assign sym a) && a.everywhere p
  | .lambda params body => p (.lambda params body) && body.everywhere p
  | .arrayOf elements => p (.arrayOf elements) && everywhereAll p elements
  | .lengthOf a => p (.lengthOf a) && a.everywhere p
  | .index a b => p (.index a b) && a.everywhere p && b.everywhere p
  | .indexAssign a b c =>
    p (.indexAssign a b c) && a.everywhere p && b.everywhere p && c.everywhere p
  | .seq stmts => p (.seq stmts) && everywhereAll p stmts
  | .branch a b alt =>
    p (.branch a b alt) && a.everywhere p && b.everywhere p && everywhereOption p alt
  | .block body => p (.block body) && body.everywhere p
  | .declare form sym a => p (.declare form sym a) && a.everywhere p
  | .ret a => p (.ret a) && a.everywhere p
  | .loop form a b => p (.loop form a b) && a.everywhere p && b.everywhere p
  | .go callee args => p (.go callee args) && callee.everywhere p && everywhereAll p args
  | .attempt body sym handler =>
    p (.attempt body sym handler) && body.everywhere p && handler.everywhere p
  | .throw a => p (.throw a) && a.everywhere p
  | .unrecognized => p .unrecognized

@[inherit_doc everywhere]
def everywhereAll (p : Command → Bool) : List Command → Bool
  | [] => true
  | c :: cs => c.everywhere p && everywhereAll p cs

@[inherit_doc everywhere]
def everywhereOption (p : Command → Bool) : Option Command → Bool
  | none => true
  | some c => c.everywhere p

end

/-- A test that every node passes is passed by the root. -/
theorem root_of_everywhere {p : Command → Bool} {c : Command} (passes : c.everywhere p = true) :
    p c = true := by
  cases c <;> simp only [everywhere, Bool.and_eq_true] at passes <;> simp [passes]

theorem everywhereAll_iff {p : Command → Bool} {cs : List Command} :
    everywhereAll p cs = true ↔ ∀ c ∈ cs, c.everywhere p = true := by
  induction cs with
  | nil => simp [everywhereAll]
  | cons c cs ih => simp [everywhereAll, ih]

theorem everywhereOption_iff {p : Command → Bool} {alt : Option Command} :
    everywhereOption p alt = true ↔ ∀ c ∈ alt, c.everywhere p = true := by
  cases alt <;> simp [everywhereOption]

/-- A test that is passed by the nodes that expansions make up out of nodes that pass it. -/
structure Heritable (p : Command → Bool) : Prop where
  lit : ∀ l, p (.lit l) = true
  function : ∀ sym params body, p (.function sym params body) = true →
    p (.declare .constForm sym (.lambda (params.map (·.name)) body)) = true ∧
      p (.lambda (params.map (·.name)) body) = true
  and : ∀ a b, p (.logical .and a b) = true → p (.conditional a b (.lit (.bool false))) = true
  or : ∀ a b, p (.logical .or a b) = true → p (.conditional a (.lit (.bool true)) b) = true
  lengthOf : ∀ a, p (.lengthOf a) = true →
    p (.callNamed "array_length" [a]) = true ∧ p (.name "array_length") = true

/-! ## Goroutines -/

/-- Whether a command is no start of a goroutine. -/
def startsNone : Command → Bool
  | .go _ _ => false
  | _ => true

/-- No node of the tree starts a goroutine. -/
def GoFree (c : Command) : Prop :=
  c.everywhere startsNone = true

instance (c : Command) : Decidable c.GoFree :=
  inferInstanceAs (Decidable (_ = _))

theorem heritable_startsNone : Heritable startsNone :=
  ⟨fun _ => rfl, fun _ _ _ _ => ⟨rfl, rfl⟩, fun _ _ _ => rfl, fun _ _ _ => rfl,
    fun _ _ => ⟨rfl, rfl⟩⟩

/-! ## Returns -/

mutual

/-- Whether a command has a `return` that leaves the function around the command. -/
def escapes : Command → Bool
  | .ret _ => true
  | .lit _ => false
  | .name _ => false
  | .lambda _ _ => false
  | .function _ _ _ => false
  | .unrecognized => false
  | .unary _ a => a.escapes
  | .binary _ a b => a.escapes || b.escapes
  | .logical _ a b => a.escapes || b.escapes
  | .conditional a b c => a.escapes || b.escapes || c.escapes
  | .call callee args => callee.escapes || escapesAny args
  | .assign _ a => a.escapes
  | .arrayOf elements => escapesAny elements
  | .lengthOf a => a.escapes
  | .index a b => a.escapes || b.escapes
  | .indexAssign a b c => a.escapes || b.escapes || c.escapes
  | .seq stmts => escapesAny stmts
  | .branch a b alt => a.escapes || b.escapes || escapesOption alt
  | .block body => body.escapes
  | .declare _ _ a => a.escapes
  | .loop _ a b => a.escapes || b.escapes
  | .go callee args => callee.escapes || escapesAny args
  | .attempt body _ handler => body.escapes || handler.escapes
  | .throw a => a.escapes

@[inherit_doc escapes]
def escapesAny : List Command → Bool
  | [] => false
  | c :: cs => c.escapes || escapesAny cs

@[inherit_doc escapes]
def escapesOption : Option Command → Bool
  | none => false
  | some c => c.escapes

end

/-- Whether no `return` leaves a function out of an operand that has others below it
on the stash. -/
def returnsClear : Command → Bool
  | .binary _ _ b => !b.escapes
  | .call _ args => !escapesAny args
  | .go _ args => !escapesAny args
  | .arrayOf (_ :: elements) => !escapesAny elements
  | .lengthOf a => !a.escapes
  | .index _ b => !b.escapes
  | .indexAssign _ b c => !b.escapes && !c.escapes
  | _ => true

/-- No `return` of the tree stands in an operand position, other than inside a function nested
in the operand. -/
def RetSafe (c : Command) : Prop :=
  c.everywhere returnsClear = true

instance (c : Command) : Decidable c.RetSafe :=
  inferInstanceAs (Decidable (_ = _))

theorem heritable_returnsClear : Heritable returnsClear := by
  refine ⟨fun _ => rfl, fun _ _ _ _ => ⟨rfl, rfl⟩, fun _ _ _ => rfl, fun _ _ _ => rfl,
    fun a clear => ⟨?_, rfl⟩⟩
  simpa [returnsClear, callNamed, escapesAny] using clear

end ControlStash.Command
