import Mathlib.Logic.Relation
import ControlStash.Proofs.Likeness
import ControlStash.Proofs.Sharing

/-!
# The names that a scope declares

A scope has a slot for each name that is declared in it. The names are found by going through the
sequences of its body from left to right, with those found so far at hand, and a name that is known
already is not noted again. `Command.Scans` says which declarations are reached; here it is shown that
each declared name comes once, and in which order (`locals_exact`).

* `Command.Precedes` orders names by their first declaration in a body.
* `Command.Added` says what the part of a body that is gone through adds to the names before it. It
  carries the induction: repetitions, membership and order all depend on what is known before.
* `Command.Regrouped` relates bodies in which the statements come in one order but are grouped into
  sequences in different ways.
* `Command.frame` is the frame that a scope starts with. Blocks and programs both make it, and nothing
  can go wrong there.
-/

namespace ControlStash

/-! ## The order of declarations -/

namespace Command

/-- A name is declared in the scope of a body, and that comes before all declarations of another
name. Paths are ordered as their places in the source are, the first difference deciding. -/
def Precedes (c : Command) (x y : String) : Prop :=
  ∃ path, c.Scans path x ∧ ∀ path', c.Scans path' y → path < path'

variable {stmt : Command} {stmts : List Command} {path : List Nat} {x y sym : String}

/-- A declaration in a sequence is in its first statement or in the others. -/
theorem scans_seq_cons : Scans (.seq (stmt :: stmts)) path sym ↔
    (∃ rest, path = 0 :: rest ∧ stmt.Scans rest sym) ∨
      ∃ i rest, path = (i + 1) :: rest ∧ Scans (.seq stmts) (i :: rest) sym := by
  constructor
  · intro scans
    cases scans with
    | @seq _ i c rest _ found below =>
      cases i with
      | zero =>
        obtain rfl : stmt = c := Option.some.inj found
        exact .inl ⟨rest, rfl, below⟩
      | succ i => exact .inr ⟨i, rest, rfl, .seq found below⟩
  · rintro (⟨rest, rfl, below⟩ | ⟨i, rest, rfl, scans⟩)
    · exact .seq rfl below
    · cases scans with
      | seq found below => exact .seq found below

namespace Precedes

/-- The order within the first statement is that in the whole sequence. -/
theorem head (precedes : stmt.Precedes x y) : Precedes (.seq (stmt :: stmts)) x y := by
  obtain ⟨path, scans, first⟩ := precedes
  refine ⟨0 :: path, scans_seq_cons.mpr (.inl ⟨path, rfl, scans⟩), fun path' other => ?_⟩
  obtain ⟨rest, rfl, below⟩ | ⟨i, rest, rfl, -⟩ := scans_seq_cons.mp other
  · exact List.cons_lt_cons_iff.mpr (.inr ⟨rfl, first rest below⟩)
  · exact List.cons_lt_cons_iff.mpr (.inl i.succ_pos)

/-- What the first statement declares precedes what only the others declare. -/
theorem across (scans : stmt.Scans path x) (absent : ∀ path', ¬ stmt.Scans path' y) :
    Precedes (.seq (stmt :: stmts)) x y := by
  refine ⟨0 :: path, scans_seq_cons.mpr (.inl ⟨path, rfl, scans⟩), fun path' other => ?_⟩
  obtain ⟨rest, rfl, below⟩ | ⟨i, rest, rfl, -⟩ := scans_seq_cons.mp other
  · exact absurd below (absent rest)
  · exact List.cons_lt_cons_iff.mpr (.inl i.succ_pos)

/-- In front of a sequence there may be a statement that does not declare the later name. -/
theorem tail (precedes : Precedes (.seq stmts) x y) (absent : ∀ path', ¬ stmt.Scans path' y) :
    Precedes (.seq (stmt :: stmts)) x y := by
  obtain ⟨_, scans, first⟩ := precedes
  cases scans with
  | @seq _ i c path _ found below =>
    refine ⟨(i + 1) :: path, .seq found below, fun path' other => ?_⟩
    obtain ⟨rest, rfl, there⟩ | ⟨j, rest, rfl, there⟩ := scans_seq_cons.mp other
    · exact absurd there (absent rest)
    · obtain earlier | ⟨rfl, earlier⟩ := List.cons_lt_cons_iff.mp (first _ there)
      · exact List.cons_lt_cons_iff.mpr (.inl (Nat.succ_lt_succ earlier))
      · exact List.cons_lt_cons_iff.mpr (.inr ⟨rfl, earlier⟩)

end Precedes

/-! ## What a part of a body adds -/

/-- Names that a command adds to those known before it: each once, none of them known, and in the
order in which the command declares them. -/
structure Added (c : Command) (known new : List String) : Prop where
  nodup : new.Nodup
  fresh : ∀ x ∈ new, x ∉ known
  ordered : new.Pairwise c.Precedes

namespace Added

variable {c : Command} {known own others : List String}

theorem nil : Added c known [] :=
  ⟨.nil, nofun, .nil⟩

/-- A command that declares one name adds it, unless it is known. -/
theorem ofDeclaration
    (added : c.addLocals known = if sym ∈ known then known else known ++ [sym]) :
    ∃ new, c.addLocals known = known ++ new ∧ c.Added known new := by
  rw [added]
  split
  · exact ⟨[], (List.append_nil known).symm, nil⟩
  · next absent =>
    refine ⟨[sym], rfl, List.nodup_singleton sym, fun x new => ?_, List.pairwise_singleton _ _⟩
    rwa [List.mem_singleton.mp new]

/-- A sequence adds what its first statement adds, and then what the others add to that. -/
theorem cons (first : stmt.addLocals known = known ++ own) (head : stmt.Added known own)
    (tail : Added (.seq stmts) (known ++ own) others) :
    Added (.seq (stmt :: stmts)) known (own ++ others) := by
  have notYet : ∀ x ∈ others, x ∉ known ∧ x ∉ own := by
    intro x member
    simpa using tail.fresh x member
  have scanned : ∀ x ∈ own, ∃ path, stmt.Scans path x := by
    intro x member
    have noted : x ∈ stmt.addLocals known := first ▸ List.mem_append_right known member
    exact ((mem_addLocals stmt known).mp noted).resolve_left (head.fresh x member)
  -- What the first statement declares is known behind it, whether it was known before or not. So
  -- a name that only the others add has all its declarations there.
  have absent : ∀ x ∈ others, ∀ path, ¬ stmt.Scans path x := by
    intro x member path scans
    have noted : x ∈ known ++ own := first ▸ (mem_addLocals stmt known).mpr (.inr ⟨path, scans⟩)
    exact tail.fresh x member noted
  refine ⟨?nodup, ?fresh, ?ordered⟩
  case nodup =>
    refine List.nodup_append.mpr ⟨head.nodup, tail.nodup, ?_⟩
    rintro x member _ later rfl
    exact (notYet x later).2 member
  case fresh =>
    intro x member
    rcases List.mem_append.mp member with early | late
    · exact head.fresh x early
    · exact (notYet x late).1
  case ordered =>
    refine List.pairwise_append.mpr ⟨head.ordered.imp Precedes.head, ?_, ?_⟩
    · exact tail.ordered.imp_of_mem fun _ later precedes => precedes.tail (absent _ later)
    · intro x early y late
      obtain ⟨path, scans⟩ := scanned x early
      exact .across scans (absent y late)

end Added

mutual

/-- A command leaves the known names as they are and adds its own at the end. -/
theorem addLocals_eq_append (c : Command) (known : List String) :
    ∃ new, c.addLocals known = known ++ new ∧ c.Added known new := by
  match c with
  | .seq stmts => exact addLocalsAll_eq_append stmts known
  | .declare _ _ _ | .function _ _ _ => exact Added.ofDeclaration rfl
  | .lit _ | .name _ | .unary _ _ | .binary _ _ _ | .logical _ _ _ | .conditional _ _ _ |
    .call _ _ | .assign _ _ | .lambda _ _ | .arrayOf _ | .lengthOf _ | .index _ _ |
    .indexAssign _ _ _ | .branch _ _ _ | .block _ | .ret _ | .loop _ _ _ | .go _ _ |
    .attempt _ _ _ | .throw _ | .unrecognized =>
    exact ⟨[], (List.append_nil known).symm, .nil⟩

@[inherit_doc addLocals_eq_append]
theorem addLocalsAll_eq_append (stmts : List Command) (known : List String) :
    ∃ new, addLocalsAll stmts known = known ++ new ∧ Added (.seq stmts) known new := by
  match stmts with
  | [] => exact ⟨[], (List.append_nil known).symm, .nil⟩
  | stmt :: stmts =>
    obtain ⟨own, first, head⟩ := addLocals_eq_append stmt known
    obtain ⟨others, rest, tail⟩ := addLocalsAll_eq_append stmts (known ++ own)
    refine ⟨own ++ others, ?_, head.cons first tail⟩
    rw [addLocalsAll, first, rest, List.append_assoc]

end

/-- The names that a body declares come once each, in the order of their first declarations. -/
theorem added_locals (body : Command) : body.Added [] body.locals := by
  obtain ⟨new, noted, added⟩ := body.addLocals_eq_append []
  rw [locals, noted]
  exact added

/-! ## Grouping -/

/-- Sequences with one nesting less: a sequence among the statements of another is replaced by its
statements, and a sequence of one statement by the statement. -/
inductive Flattening : Command → Command → Prop
  | splice {before inner after} :
    Flattening (.seq (before ++ .seq inner :: after)) (.seq (before ++ inner ++ after))
  | single {c} : Flattening (.seq [c]) c

/-- Two bodies have the same statements in the same order, but may group them into sequences in
different ways, there and everywhere below. -/
abbrev Regrouped : Command → Command → Prop :=
  Relation.EqvGen (Rewritten Flattening)

theorem addLocalsAll_append (before after : List Command) (known : List String) :
    addLocalsAll (before ++ after) known = addLocalsAll after (addLocalsAll before known) := by
  induction before generalizing known with
  | nil => rfl
  | cons stmt before ih => exact ih (stmt.addLocals known)

theorem Flattening.addLocals {c d : Command} (flattening : Flattening c d) (known : List String) :
    c.addLocals known = d.addLocals known := by
  cases flattening with
  | splice => simp only [Command.addLocals, addLocalsAll_append, addLocalsAll]
  | single => rfl

mutual

/-- The statements of a body one after the other, however they are grouped into sequences. -/
def statements : Command → List Command
  | .seq stmts => statementsAll stmts
  | c => [c]

@[inherit_doc statements]
def statementsAll : List Command → List Command
  | [] => []
  | stmt :: stmts => stmt.statements ++ statementsAll stmts

end

namespace Regrouped

variable {c d : Command}

/-- How statements are grouped makes no difference to the names that a body declares. -/
theorem locals_eq (regrouped : Regrouped c d) : c.locals = d.locals := by
  induction regrouped with
  | rel c d flattened =>
    exact flattened.addLocals (fun _ _ flattening => flattening.addLocals) c []
  | refl c => rfl
  | symm c d _ ih => exact ih.symm
  | trans c between d _ _ first second => exact first.trans second

theorem of_flattening (flattening : Flattening c d) : Regrouped c d := by
  cases flattening with
  | splice => exact .rel _ _ (.turn (.seq (Rewritten.reflAll _ _)) rfl .splice)
  | single => exact .rel _ _ (.turn (.seq (Rewritten.reflAll _ _)) rfl .single)

/-- A statement of a sequence may be regrouped in its place. -/
theorem inSeq (before after : List Command) (regrouped : Regrouped c d) :
    Regrouped (.seq (before ++ c :: after)) (.seq (before ++ d :: after)) := by
  have kept : ∀ stmts, List.Forall₂ (Rewritten Flattening) stmts stmts :=
    Rewritten.reflAll Flattening
  induction regrouped with
  | rel c d flattened =>
    exact .rel _ _ (.keep (.seq (List.rel_append (kept before) (.cons flattened (kept after)))) rfl)
  | refl c => exact .refl _
  | symm c d _ ih => exact .symm _ _ ih
  | trans c between d _ _ first second => exact .trans _ _ _ first second

mutual

/-- Any nesting of sequences can be taken apart until one sequence of all statements is left. -/
theorem flat (c : Command) : Regrouped c (.seq c.statements) := by
  match c with
  | .seq stmts => exact flatAll [] stmts
  | .lit _ | .name _ | .unary _ _ | .binary _ _ _ | .function _ _ _ | .logical _ _ _ |
    .conditional _ _ _ | .call _ _ | .assign _ _ | .lambda _ _ | .arrayOf _ | .lengthOf _ |
    .index _ _ | .indexAssign _ _ _ | .branch _ _ _ | .block _ | .declare _ _ _ | .ret _ |
    .loop _ _ _ | .go _ _ | .attempt _ _ _ | .throw _ | .unrecognized =>
    exact .symm _ _ (of_flattening .single)

/-- What stands in front has been taken apart already. -/
theorem flatAll (before stmts : List Command) :
    Regrouped (.seq (before ++ stmts)) (.seq (before ++ statementsAll stmts)) := by
  match stmts with
  | [] => exact .refl _
  | stmt :: stmts =>
    have whole : Regrouped (.seq (before ++ stmt :: stmts))
        (.seq (before ++ .seq stmt.statements :: stmts)) := (flat stmt).inSeq before stmts
    have apart : Regrouped (.seq (before ++ .seq stmt.statements :: stmts))
        (.seq (before ++ stmt.statements ++ stmts)) := of_flattening .splice
    have others := flatAll (before ++ stmt.statements) stmts
    rw [statementsAll, ← List.append_assoc]
    exact .trans _ _ _ (.trans _ _ _ whole apart) others

end

/-- Bodies with the same statements in the same order differ in their grouping only. -/
theorem of_statements_eq (same : c.statements = d.statements) : Regrouped c d := by
  have apart : Regrouped c (.seq d.statements) := same ▸ flat c
  exact .trans _ _ _ apart (.symm _ _ (flat d))

end Regrouped

/-! ## The frame of a scope -/

/-- The frame that a scope starts with: all names that its body declares, none of them assigned. -/
def frame (body : Command) : Frame :=
  ⟨body.locals.map (·, .unassigned)⟩

@[simp]
theorem names_frame (body : Command) : body.frame.names = body.locals := by
  simp [frame, Frame.names, Function.comp_def]

theorem find?_frame (body : Command) (sym : String) :
    body.frame.find? sym = if sym ∈ body.locals then some .unassigned else none := by
  unfold frame Frame.find?
  induction body.locals with
  | nil => rfl
  | cons x names ih =>
    rw [List.map_cons, List.lookup_cons, ih]
    by_cases same : sym = x <;> simp [beq_eq_decide, same]

end Command

namespace Frame

theorem insertInto_of_not_mem {sym : String} {bindings : List (String × Value)}
    (absent : sym ∉ bindings.map (·.1)) (v : Value) :
    insertInto sym v bindings = bindings ++ [(sym, v)] := by
  induction bindings with
  | nil => rfl
  | cons b bindings ih =>
    obtain ⟨other, old⟩ := b
    rw [List.map_cons, List.mem_cons, not_or] at absent
    rw [insertInto, if_neg (Ne.symm absent.1), ih absent.2, List.cons_append]

/-- Bindings of different names are all kept as they are. -/
theorem ofBindings_of_nodup {bindings : List (String × Value)}
    (different : (bindings.map (·.1)).Nodup) : ofBindings bindings = ⟨bindings⟩ := by
  have folded : ∀ before after : List (String × Value), ((before ++ after).map (·.1)).Nodup →
      after.foldl (fun frame b => frame.insert b.1 b.2) (⟨before⟩ : Frame) = ⟨before ++ after⟩ := by
    intro before after
    induction after generalizing before with
    | nil => simp
    | cons b after ih =>
      intro different
      have absent : b.1 ∉ before.map (·.1) := by
        intro known
        rw [List.map_append, List.map_cons, List.nodup_append] at different
        exact different.2.2 _ known _ List.mem_cons_self rfl
      rw [List.foldl_cons, insert, insertInto_of_not_mem absent, ih, List.append_assoc,
        List.singleton_append]
      rwa [List.append_assoc, List.singleton_append]
  exact folded [] bindings different

end Frame

namespace Command

theorem ofBindings_locals (body : Command) :
    Frame.ofBindings (body.locals.map (·, .unassigned)) = body.frame :=
  have names : (body.locals.map fun x => (x, Value.unassigned)).map (·.1) = body.locals :=
    body.names_frame
  Frame.ofBindings_of_nodup (names.symm ▸ body.added_locals.nodup)

/-- An environment can always be extended by the names that a body declares. -/
theorem extend_locals (body : Command) (store : Store) (env : Env) :
    store.extend env body.locals (body.locals.map fun _ => .unassigned) =
      .ok (store.pushFrame body.frame env) := by
  rw [Store.extend, if_pos (List.length_map _).symm, ← List.map_prod_left_eq_zip,
    body.ofBindings_locals]

/-- Behind the new frame all names that the body declares are found in it, not yet assigned, and no
other name is hidden by it. -/
theorem resolve?_pushFrame_frame (body : Command) (store : Store) (env : Env) (sym : String) :
    (store.pushFrame body.frame env).2.resolve? sym (store.pushFrame body.frame env).1.frames =
      if sym ∈ body.locals then some (⟨store.frames.size⟩, .unassigned)
      else (store.pushFrame body.frame env).2.resolve? sym env.frames := by
  rw [store.resolve?_pushFrame_front]
  by_cases declared : sym ∈ body.locals
  · rw [body.find?_frame, if_pos declared, if_pos declared]
  · rw [body.find?_frame, if_neg declared, if_neg declared]

end Command

/-- A block goes on to its body behind a new frame. Only the height of the control stack can prevent
that. -/
theorem Machine.expand_block (setting : Setting) (body : Command) (m : Machine) (s : Shared) :
    m.expand setting (.block body) s =
      if (m.blockPlan setting.protocol body).length + m.control.size ≤ setting.limits.depth then
        .next
          { m with
            control := m.control.pushAll (m.blockPlan setting.protocol body)
            env := (s.store.pushFrame body.frame m.env).1 }
          { s with store := (s.store.pushFrame body.frame m.env).2 }
      else m.fail s (.controlStackOverflow setting.limits.depth) := by
  simp only [Machine.expand, body.extend_locals]

/-! ## The whole statement -/

/-- The scan of a body finds the names that are declared in its scope, each once, in the order of
their first declarations: those of the declarations that are reached through sequences alone. The
grouping of the statements makes no difference. So the frame of the scope has one binding for each
declared name, in that order, and making it never fails: not where a block is entered, whatever the
state of the machine, and not at the start of a program. Behind it exactly these names are found in
it, not yet assigned. -/
theorem locals_exact (body : Command) :
    (body.locals.Nodup ∧ (∀ sym, sym ∈ body.locals ↔ ∃ path, body.Scans path sym) ∧
      body.locals.Pairwise body.Precedes) ∧
    (body.Regrouped (.seq body.statements) ∧
      ∀ body', body.Regrouped body' → body'.locals = body.locals) ∧
    (body.frame.names = body.locals ∧ ∀ (store : Store) (env : Env), ∃ inner store',
      store.extend env body.locals (body.locals.map fun _ => .unassigned) = .ok (inner, store') ∧
      store.pushFrame body.frame env = (inner, store') ∧
      inner.frames = ⟨store.frames.size⟩ :: env.frames ∧
      store'.frames = store.frames.push body.frame ∧
      ∀ sym, store'.resolve? sym inner.frames =
        if sym ∈ body.locals then some (⟨store.frames.size⟩, .unassigned)
        else store'.resolve? sym env.frames) ∧
    (∀ (setting : Setting) (m : Machine) (s : Shared), m.expand setting (.block body) s =
      if (m.blockPlan setting.protocol body).length + m.control.size ≤ setting.limits.depth then
        .next
          { m with
            control := m.control.pushAll (m.blockPlan setting.protocol body)
            env := (s.store.pushFrame body.frame m.env).1 }
          { s with store := (s.store.pushFrame body.frame m.env).2 }
      else m.fail s (.controlStackOverflow setting.limits.depth)) ∧
    ∀ builtins store, (default : Store).root Native.bindings = (builtins, store) →
      Program.globals ⟨body⟩ = store.pushFrame body.frame builtins := by
  refine ⟨⟨body.added_locals.nodup, fun sym => Command.mem_locals, body.added_locals.ordered⟩,
    ⟨.flat body, fun body' regrouped => regrouped.locals_eq.symm⟩,
    ⟨body.names_frame, fun store env => ⟨_, _, body.extend_locals store env, rfl, rfl, rfl,
      body.resolve?_pushFrame_frame store env⟩⟩,
    fun setting m s => Machine.expand_block setting body m s, ?globals⟩
  case globals =>
    intro builtins store outermost
    rw [Program.globals, outermost, body.ofBindings_locals]

namespace fourDeclarations

def first : Command := .declare .letForm "a" (.lit (.int 1))

def second : Command := .declare .constForm "b" (.lit (.int 2))

def third : Command := .declare .letForm "a" (.lit (.int 3))

def fourth : Command := .function "f" [⟨"x", none⟩] (.ret (.name "x"))

/-- A block that keeps its declaration to itself. -/
def inner : Command := .block (.declare .letForm "c" (.name "a"))

/-- Three of the declarations stand in a sequence of their own. -/
def body : Command := .seq [first, .seq [second, third, fourth], inner]

/-- The same statements, in other sequences. -/
def regrouped : Command := .seq [.seq [.seq [], first, second], third, .seq [fourth, .seq [inner]]]

end fourDeclarations

open fourDeclarations in
/-- Four declarations of three names, in the scope of the body or in one inside. -/
theorem locals_exact_fourDeclarations :
    body.Regrouped regrouped ∧ regrouped.locals = body.locals ∧ body.locals = ["a", "b", "f"] ∧
    body.Precedes "a" "b" ∧ body.Precedes "b" "f" ∧ (∀ path, ¬ body.Scans path "c") ∧
    ∃ builtins store, (default : Store).root Native.bindings = (builtins, store) ∧
      Program.globals ⟨body⟩ = store.pushFrame
        ⟨[("a", .unassigned), ("b", .unassigned), ("f", .unassigned)]⟩ builtins := by
  have names : body.locals = ["a", "b", "f"] := rfl
  have same : body.Regrouped regrouped := .of_statements_eq rfl
  obtain ⟨⟨-, declared, ordered⟩, ⟨-, grouping⟩, -, -, globals⟩ := locals_exact body
  rw [names] at ordered
  have absent : ¬ ∃ path, body.Scans path "c" := by
    rw [← declared, names]
    decide
  refine ⟨same, grouping regrouped same, names, ?_, ?_, not_exists.mp absent, _, _, rfl,
    globals _ _ rfl⟩
  · exact List.rel_of_pairwise_cons ordered (by decide)
  · exact List.rel_of_pairwise_cons ordered.of_cons (by decide)

end ControlStash
