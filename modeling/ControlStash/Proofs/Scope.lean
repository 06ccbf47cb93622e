import Mathlib.Data.List.Forall2
import ControlStash.Proofs.Solo

/-!
# The scopes of nodes

Which names a node of a program may use can be read off the tree. A `Scope` lists the names of the
enclosing binders, the innermost first: the names that a block declares, the parameters of a
function and the name that a try gives to a thrown value. `Command.parts` goes one step down in the
tree, and `Program.node?` follows a path from the root.

The machine spells some nodes out: a function is a constant that holds a lambda, a logical operator
is a conditional, the length of an array is a call. Their parts are taken from what they are spelled
out as, so every command that a machine ever works on is a node in this sense.

`Scope.Describes` ties a scope to frames of a store: they bind the same names, layer by layer. Then
a name is resolved if and only if it is in scope (`Scope.Describes.resolve?_eq_none_iff`).
-/

namespace ControlStash

/-- The names that the enclosing binders of a node bind, the innermost first. -/
abbrev Scope := List (List String)

/-- Whether a name is in scope. -/
def Scope.binds (Γ : Scope) (sym : String) : Bool :=
  Γ.any (·.contains sym)

@[simp]
theorem Scope.binds_nil (sym : String) : Scope.binds [] sym = false := rfl

@[simp]
theorem Scope.binds_cons (names : List String) (Γ : Scope) (sym : String) :
    Scope.binds (names :: Γ) sym = (names.contains sym || Scope.binds Γ sym) := rfl

theorem Scope.binds_of_mem {Γ : Scope} {names : List String} {sym : String} (layer : names ∈ Γ)
    (member : sym ∈ names) : Γ.binds sym = true :=
  List.any_eq_true.mpr ⟨names, layer, List.contains_iff_mem.mpr member⟩

/-- The names of the built-in functions. -/
def Native.names : List String :=
  Native.all.map Native.name

namespace Command

/-- The commands directly below a node in a scope, each with its own scope. Those that a machine
schedules at once come first, in the order in which it does. -/
def parts (Γ : Scope) : Command → List (Scope × Command)
  | .lit _ => []
  | .name _ => []
  | .unary _ a => [(Γ, a)]
  | .binary _ a b => [(Γ, a), (Γ, b)]
  | .function sym params body =>
    [(Γ, .declare .constForm sym (.lambda (params.map (·.name)) body))]
  | .logical .and a b => [(Γ, .conditional a b (.lit (.bool false)))]
  | .logical .or a b => [(Γ, .conditional a (.lit (.bool true)) b)]
  | .conditional a b c => [(Γ, a), (Γ, b), (Γ, c)]
  | .call callee args => (callee :: args).map (Γ, ·)
  | .assign _ a => [(Γ, a)]
  | .lambda params body => [(params :: Γ, body)]
  | .arrayOf elements => elements.map (Γ, ·)
  | .lengthOf a => [(Γ, .callNamed "array_length" [a])]
  | .index a b => [(Γ, a), (Γ, b)]
  | .indexAssign a b c => [(Γ, a), (Γ, b), (Γ, c)]
  | .seq [] => [(Γ, .undefined)]
  | .seq stmts => stmts.map (Γ, ·)
  | .branch a b alt => (Γ, a) :: (Γ, b) :: alt.toList.map (Γ, ·)
  | .block body => [(body.locals :: Γ, body)]
  | .declare _ _ a => [(Γ, a), (Γ, .undefined)]
  | .ret a => [(Γ, a)]
  | .loop _ a b => [(Γ, a), (Γ, .undefined), (Γ, b)]
  | .go callee args => (callee :: args).map (Γ, ·)
  | .attempt body sym handler => [(Γ, body), ([sym] :: Γ, handler)]
  | .throw a => [(Γ, a)]
  | .unrecognized => []

/-- The node at the end of a path from a node in a scope, with its scope. -/
def node? : Scope → Command → List Nat → Option (Scope × Command)
  | Γ, c, [] => some (Γ, c)
  | Γ, c, i :: path =>
    match (c.parts Γ)[i]? with
    | some (Γ', c') => node? Γ' c' path
    | none => none

theorem node?_append {Γ Γ' : Scope} {c c' : Command} {path : List Nat}
    (found : node? Γ c path = some (Γ', c')) (rest : List Nat) :
    node? Γ c (path ++ rest) = node? Γ' c' rest := by
  induction path generalizing Γ c with
  | nil =>
    cases found
    rfl
  | cons i path ih =>
    simp only [List.cons_append, node?] at found ⊢
    split at found
    · exact ih found
    · cases found

theorem node?_snoc {Γ Γ' : Scope} {c c' : Command} {path : List Nat}
    (found : node? Γ c path = some (Γ', c')) (i : Nat) :
    node? Γ c (path ++ [i]) = (c'.parts Γ')[i]? := by
  rw [node?_append found]
  simp only [node?]
  split
  · next part => exact part.symm
  · next part => exact part.symm

/-- Whether a node assigns to a name when its operand is there. -/
def assigns (sym : String) : Command → Prop
  | .assign x _ => x = sym
  | .declare _ x _ => x = sym
  | _ => False

end Command

namespace Program

/-- The scope of the root: what the program declares, and the built-in functions. -/
def scope (p : Program) : Scope :=
  [p.body.locals, Native.names]

/-- The node at the end of a path from the root, with its scope. -/
def node? (p : Program) (path : List Nat) : Option (Scope × Command) :=
  p.body.node? p.scope path

theorem node?_snoc {p : Program} {path : List Nat} {Γ : Scope} {c : Command}
    (found : p.node? path = some (Γ, c)) (i : Nat) : p.node? (path ++ [i]) = (c.parts Γ)[i]? :=
  Command.node?_snoc found i

end Program

/-! ## Declarations -/

namespace Command

/-- A declaration of a name that is reached from a body through sequences alone. The path leads to
the declaration that is executed, so it goes on to what a function is spelled out as. -/
inductive Scans : Command → List Nat → String → Prop
  | declare {form sym a} : Scans (.declare form sym a) [] sym
  | function {sym params body} : Scans (.function sym params body) [0] sym
  | seq {stmts i c path sym} : stmts[i]? = some c → Scans c path sym →
    Scans (.seq stmts) (i :: path) sym

/-- A declaration that is reached from a body through sequences has the scope of the body. -/
theorem Scans.node? {body : Command} {path : List Nat} {sym : String}
    (scans : Scans body path sym) (Γ : Scope) :
    ∃ form a, body.node? Γ path = some (Γ, .declare form sym a) := by
  induction scans with
  | declare => exact ⟨_, _, rfl⟩
  | function => exact ⟨_, _, rfl⟩
  | @seq stmts i c path sym found scans ih =>
    obtain ⟨form, a, node⟩ := ih
    refine ⟨form, a, ?_⟩
    rcases stmts with _ | ⟨stmt, stmts⟩
    · cases found
    · have part : ((Command.seq (stmt :: stmts)).parts Γ)[i]? = some (Γ, c) := by
        simp only [parts, List.getElem?_map, found, Option.map_some]
      simp only [Command.node?, part]
      exact node

mutual

/-- The names that a command declares are those of the declarations reached from it. -/
theorem mem_addLocals {sym : String} (c : Command) (known : List String) :
    sym ∈ c.addLocals known ↔ sym ∈ known ∨ ∃ path, Scans c path sym := by
  match c with
  | .seq stmts =>
    rw [addLocals, mem_addLocalsAll stmts known]
    refine or_congr_right ⟨?_, ?_⟩
    · rintro ⟨i, c, path, found, scans⟩
      exact ⟨i :: path, .seq found scans⟩
    · rintro ⟨_, scans⟩
      cases scans with
      | seq found scans => exact ⟨_, _, _, found, scans⟩
  | .declare form x a =>
    have only : (∃ path, Scans (.declare form x a) path sym) ↔ sym = x :=
      ⟨fun ⟨_, scans⟩ => by cases scans; rfl, fun same => ⟨[], same ▸ .declare⟩⟩
    rw [only, addLocals]
    split <;> simp_all
  | .function x params body =>
    have only : (∃ path, Scans (.function x params body) path sym) ↔ sym = x :=
      ⟨fun ⟨_, scans⟩ => by cases scans; rfl, fun same => ⟨[0], same ▸ .function⟩⟩
    rw [only, addLocals]
    split <;> simp_all
  | .lit _ | .name _ | .unary _ _ | .binary _ _ _ | .logical _ _ _ | .conditional _ _ _ |
    .call _ _ | .assign _ _ | .lambda _ _ | .arrayOf _ | .lengthOf _ | .index _ _ |
    .indexAssign _ _ _ | .branch _ _ _ | .block _ | .ret _ | .loop _ _ _ | .go _ _ |
    .attempt _ _ _ | .throw _ | .unrecognized =>
    refine ⟨.inl, fun either => either.elim id fun ⟨_, scans⟩ => ?_⟩
    cases scans

theorem mem_addLocalsAll {sym : String} (stmts : List Command) (known : List String) :
    sym ∈ addLocalsAll stmts known ↔
      sym ∈ known ∨ ∃ (i : Nat) (c : Command) (path : List Nat),
        stmts[i]? = some c ∧ Scans c path sym := by
  match stmts with
  | [] =>
    rw [addLocalsAll]
    simp
  | stmt :: stmts =>
    rw [addLocalsAll, mem_addLocalsAll stmts, mem_addLocals stmt known, or_assoc]
    refine or_congr_right ⟨?_, ?_⟩
    · rintro (⟨path, scans⟩ | ⟨i, c, path, found, scans⟩)
      · exact ⟨0, stmt, path, rfl, scans⟩
      · exact ⟨i + 1, c, path, found, scans⟩
    · rintro ⟨_ | i, c, path, found, scans⟩
      · cases found
        exact .inl ⟨path, scans⟩
      · exact .inr ⟨i, c, path, found, scans⟩

end

/-- The names of a scope are those of the declarations that are reached from its body. -/
theorem mem_locals {sym : String} {body : Command} :
    sym ∈ body.locals ↔ ∃ path, Scans body path sym := by
  rw [locals, mem_addLocals]
  simp

end Command

/-! ## Names that are in scope -/

namespace Command

mutual

/-- Whether all names that the nodes of a tree look up or assign to are in scope. -/
def bound (Γ : Scope) : Command → Bool
  | .lit _ => true
  | .name sym => Γ.binds sym
  | .unary _ a => a.bound Γ
  | .binary _ a b => a.bound Γ && b.bound Γ
  | .function sym params body => Γ.binds sym && body.bound (params.map (·.name) :: Γ)
  | .logical _ a b => a.bound Γ && b.bound Γ
  | .conditional a b c => a.bound Γ && b.bound Γ && c.bound Γ
  | .call callee args => callee.bound Γ && boundAll Γ args
  | .assign sym a => Γ.binds sym && a.bound Γ
  | .lambda params body => body.bound (params :: Γ)
  | .arrayOf elements => boundAll Γ elements
  | .lengthOf a => a.bound Γ
  | .index a b => a.bound Γ && b.bound Γ
  | .indexAssign a b c => a.bound Γ && b.bound Γ && c.bound Γ
  | .seq stmts => boundAll Γ stmts
  | .branch a b alt => a.bound Γ && b.bound Γ && boundOption Γ alt
  | .block body => body.bound (body.locals :: Γ)
  | .declare _ sym a => Γ.binds sym && a.bound Γ
  | .ret a => a.bound Γ
  | .loop _ a b => a.bound Γ && b.bound Γ
  | .go callee args => callee.bound Γ && boundAll Γ args
  | .attempt body sym handler => body.bound Γ && handler.bound ([sym] :: Γ)
  | .throw a => a.bound Γ
  | .unrecognized => true

@[inherit_doc bound]
def boundAll (Γ : Scope) : List Command → Bool
  | [] => true
  | c :: cs => c.bound Γ && boundAll Γ cs

@[inherit_doc bound]
def boundOption (Γ : Scope) : Option Command → Bool
  | none => true
  | some c => c.bound Γ

end

theorem boundAll_iff {Γ : Scope} {cs : List Command} :
    boundAll Γ cs = true ↔ ∀ c ∈ cs, c.bound Γ = true := by
  induction cs with
  | nil => simp [boundAll]
  | cons c cs ih => simp [boundAll, ih]

theorem binds_of_assigns {Γ : Scope} {c : Command} {sym : String} (assigned : c.assigns sym)
    (inScope : c.bound Γ = true) : Γ.binds sym = true := by
  cases c
  case assign x a | declare form x a =>
    obtain rfl : x = sym := assigned
    simp only [bound, Bool.and_eq_true] at inScope
    exact inScope.1
  all_goals exact assigned.elim

/-- One step down in the tree adds one layer to the scope, or none. -/
theorem scope_of_mem_parts {Γ Γ' : Scope} {c c' : Command} (part : (Γ', c') ∈ c.parts Γ) :
    Γ' = Γ ∨ ∃ names, Γ' = names :: Γ := by
  cases c
  case logical op a b => cases op <;> simp [parts] at part <;> simp [part]
  case seq stmts => cases stmts <;> simp only [parts] at part <;> grind
  all_goals
    simp only [parts] at part
    grind

/-- If all names are in scope below a node, they are below its parts. -/
theorem bound_of_mem_parts {Γ Γ' : Scope} {c c' : Command} (natives : Native.names ∈ Γ)
    (inScope : c.bound Γ = true) (part : (Γ', c') ∈ c.parts Γ) : c'.bound Γ' = true := by
  have length : Γ.binds "array_length" = true := Scope.binds_of_mem natives (by decide)
  cases c
  case logical op a b => cases op <;> simp_all [parts, bound]
  case seq stmts =>
    simp only [bound, boundAll_iff] at inScope
    cases stmts with
    | nil => simp_all [parts, bound, undefined]
    | cons stmt stmts =>
      simp only [parts] at part
      grind
  case branch a b alt => cases alt <;> simp_all [parts, bound, boundOption] <;> grind
  all_goals
    simp only [parts, undefined, callNamed, bound, boundAll_iff, Bool.and_eq_true] at part inScope
    grind [bound, boundAll]

end Command

namespace Program

/-- All names that a program looks up or assigns to are in scope. -/
def wellScoped (p : Program) : Bool :=
  p.body.bound p.scope

/-- What holds of the root and goes from a node to its parts holds of all nodes. -/
theorem node?_induction {p : Program} {P : Scope → Command → Prop} (root : P p.scope p.body)
    (down : ∀ {Γ c Γ' c'}, P Γ c → (Γ', c') ∈ c.parts Γ → P Γ' c') {path : List Nat} {Γ : Scope}
    {c : Command} (found : p.node? path = some (Γ, c)) : P Γ c := by
  unfold node? at found
  generalize p.scope = Γ₀ at root found
  generalize p.body = c₀ at root found
  induction path generalizing Γ₀ c₀ with
  | nil =>
    cases found
    exact root
  | cons i path ih =>
    simp only [Command.node?] at found
    split at found
    · next part => exact ih _ _ (down root (List.mem_of_getElem? part)) found
    · cases found

variable {p : Program} {path : List Nat} {Γ : Scope} {c : Command}

/-- In a program whose names are all in scope they are below every node. -/
theorem bound_of_node? (allBound : p.wellScoped = true) (found : p.node? path = some (Γ, c)) :
    c.bound Γ = true := by
  have both : Native.names ∈ Γ ∧ c.bound Γ = true := by
    refine node?_induction (P := fun Γ c => Native.names ∈ Γ ∧ c.bound Γ = true)
      ⟨by simp [scope], allBound⟩ ?_ found
    rintro Γ c Γ' c' ⟨layer, inScope⟩ part
    refine ⟨?_, Command.bound_of_mem_parts layer inScope part⟩
    rcases Command.scope_of_mem_parts part with rfl | ⟨names, rfl⟩
    · exact layer
    · exact List.mem_cons_of_mem _ layer
  exact both.2

end Program

/-! ## Frames -/

namespace Frame

variable {frame : Frame} {sym x : String} {v : Value}

theorem find?_eq_none_iff : frame.find? sym = none ↔ sym ∉ frame.names := by
  unfold find? names
  rw [List.lookup_eq_none_iff]
  simp only [List.mem_map, not_exists, not_and, bne_iff_ne, ne_comm]

theorem find?_insert (frame : Frame) (sym x : String) (v : Value) :
    (frame.insert sym v).find? x = if x = sym then some v else frame.find? x := by
  obtain ⟨bindings⟩ := frame
  unfold insert find?
  dsimp only
  induction bindings with
  | nil => by_cases same : x = sym <;> simp [insertInto, List.lookup_cons, beq_eq_decide, same]
  | cons b bindings ih =>
    obtain ⟨y, w⟩ := b
    unfold insertInto
    by_cases here : y = sym
    · subst here
      by_cases same : x = y
      · simp [same]
      · simp [List.lookup_cons, beq_eq_decide, same]
    · by_cases same : x = y
      · subst same
        simp [here]
      · simp [List.lookup_cons, beq_eq_decide, here, same, ih]

theorem mem_names_insert : x ∈ (frame.insert sym v).names ↔ x = sym ∨ x ∈ frame.names := by
  obtain ⟨bindings⟩ := frame
  unfold insert names
  dsimp only
  induction bindings with
  | nil => simp [insertInto]
  | cons b bindings ih =>
    unfold insertInto
    split
    · next same => simp [same]
    · simp only [List.map_cons, List.mem_cons, ih]
      exact or_left_comm

theorem mem_names_ofBindings {bindings : List (String × Value)} :
    x ∈ (ofBindings bindings).names ↔ x ∈ bindings.map (·.1) := by
  have folded : ∀ (added : List (String × Value)) (frame : Frame),
      x ∈ (added.foldl (fun frame b => frame.insert b.1 b.2) frame).names ↔
        x ∈ added.map (·.1) ∨ x ∈ frame.names := by
    intro added
    induction added with
    | nil => simp
    | cons b added ih =>
      intro frame
      rw [List.foldl_cons, ih, mem_names_insert, List.map_cons, List.mem_cons, or_left_comm,
        or_assoc]
  rw [ofBindings, folded bindings ⟨[]⟩]
  simp [names]

end Frame

/-- The frame at a place binds exactly the given names. -/
def Store.Binds (store : Store) (names : List String) (ref : FrameRef) : Prop :=
  ∃ frame, store.frames[ref.index]? = some frame ∧ ∀ sym, sym ∈ frame.names ↔ sym ∈ names

/-- Frames bind exactly the names of a scope, layer by layer. -/
def Scope.Describes (Γ : Scope) (store : Store) (frames : List FrameRef) : Prop :=
  List.Forall₂ store.Binds Γ frames

section Describes

variable {store store' : Store} {Γ : Scope} {frames : List FrameRef} {ref : FrameRef}
  {names : List String} {sym : String} {env : Env} {v : Value}

theorem Store.Binds.inFrame?_eq_none_iff (binds : store.Binds names ref) :
    store.inFrame? ref sym = none ↔ sym ∉ names := by
  obtain ⟨frame, found, same⟩ := binds
  simp only [Store.inFrame?, found]
  rw [Frame.find?_eq_none_iff, same sym]

namespace Scope.Describes

/-- A name is resolved in the frames that a scope describes if and only if it is in scope. -/
theorem resolve?_eq_none_iff (describes : Γ.Describes store frames) :
    store.resolve? sym frames = none ↔ Γ.binds sym = false := by
  induction describes with
  | nil => simp [Store.resolve?]
  | @cons names ref Γ frames binds _ ih =>
    simp only [Store.resolve?, Scope.binds_cons, Bool.or_eq_false_iff]
    have here : store.inFrame? ref sym = none ↔ sym ∉ names := binds.inFrame?_eq_none_iff
    cases found : store.inFrame? ref sym with
    | none =>
      have absent : names.contains sym = false := by simpa using here.mp found
      simp only [absent, ih, true_and]
    | some v =>
      have present : names.contains sym = true := by simpa [found] using here
      rw [present]
      simp

/-- A lookup finds a name unbound if and only if it is not in scope. -/
theorem lookup_eq_unbound_iff (describes : Γ.Describes store env.frames) :
    store.lookup env sym = .error (.unbound sym) ↔ Γ.binds sym = false := by
  rw [← describes.resolve?_eq_none_iff, Store.lookup]
  split
  · next none => simp [none]
  · next found => simp [found]
  · next found => simp [found]

/-- An assignment finds a name unbound if and only if it is not in scope. -/
theorem assign_eq_unbound_iff (describes : Γ.Describes store env.frames) :
    store.assign env sym v = .error (.unbound sym) ↔ Γ.binds sym = false := by
  rw [← describes.resolve?_eq_none_iff, Store.assign]
  split
  · next none => simp [none]
  · next found => simp [found]

/-- An assignment to a name of the innermost layer writes the innermost frame. -/
theorem assign_innermost (describes : Scope.Describes (names :: Γ) store env.frames)
    (member : sym ∈ names) :
    ∃ own outer, env.frames = own :: outer ∧
      store.assign env sym v = .ok (store.setInFrame own sym v) := by
  cases layers : env.frames with
  | nil =>
    rw [layers] at describes
    cases describes
  | cons own outer =>
    rw [layers] at describes
    cases describes with
    | cons binds _ =>
      have here : store.inFrame? own sym = none ↔ sym ∉ names := binds.inFrame?_eq_none_iff
      cases found : store.inFrame? own sym with
      | none => exact absurd member (here.mp found)
      | some w =>
        refine ⟨own, outer, rfl, ?_⟩
        simp only [Store.assign, layers, Store.resolve?, found]

/-- The frames that a scope describes are in the store. -/
theorem lt_size (describes : Γ.Describes store frames) :
    ∀ ref ∈ frames, ref.index < store.frames.size := by
  induction describes with
  | nil => simp
  | cons binds _ ih =>
    rw [List.forall_mem_cons]
    refine ⟨?_, ih⟩
    obtain ⟨frame, found, -⟩ := binds
    exact (Array.getElem?_eq_some_iff.mp found).1

end Scope.Describes

/-! ## Stores that grow -/

/-- Every frame of a store is still there, with the same names. -/
def Store.Grows (store store' : Store) : Prop :=
  ∀ names ref, store.Binds names ref → store'.Binds names ref

theorem Scope.Describes.mono (describes : Γ.Describes store frames) (grows : store.Grows store') :
    Γ.Describes store' frames :=
  List.Forall₂.imp grows describes

namespace Store

theorem Grows.of_frames_eq (same : store'.frames = store.frames) : store.Grows store' := by
  intro names ref binds
  unfold Binds
  rw [same]
  exact binds

theorem Grows.extend {inner : Env} {values : List Value}
    (extended : store.extend env names values = .ok (inner, store')) : store.Grows store' := by
  unfold Store.extend at extended
  split at extended
  · cases extended
    rintro layer ref ⟨frame, found, same⟩
    refine ⟨frame, ?_, same⟩
    obtain ⟨below, -⟩ := Array.getElem?_eq_some_iff.mp found
    simp only [Array.getElem?_push]
    rw [if_neg (by omega), found]
  · cases extended

/-- A new frame binds the names it was made for. -/
theorem binds_of_extend {inner : Env} {values : List Value}
    (extended : store.extend env names values = .ok (inner, store')) :
    inner.frames = ⟨store.frames.size⟩ :: env.frames ∧ store'.Binds names ⟨store.frames.size⟩ := by
  unfold Store.extend at extended
  split at extended
  · next lengths =>
    cases extended
    refine ⟨rfl, .ofBindings (names.zip values), by simp, fun sym => ?_⟩
    rw [Frame.mem_names_ofBindings, List.map_fst_zip (by omega)]
  · cases extended

theorem inFrame?_of_resolve? {refs : List FrameRef}
    (resolved : store.resolve? sym refs = some (ref, v)) : store.inFrame? ref sym = some v := by
  induction refs with
  | nil => cases resolved
  | cons first refs ih =>
    simp only [resolve?] at resolved
    split at resolved
    · next found =>
      cases resolved
      exact found
    · exact ih resolved

/-- An assignment goes to a frame that binds the name already. -/
theorem Grows.assign (assigned : store.assign env sym v = .ok store') : store.Grows store' := by
  unfold Store.assign at assigned
  split at assigned
  · cases assigned
  · next ref old resolved =>
    cases assigned
    rintro layer other ⟨frame, found, same⟩
    by_cases written : ref.index = other.index
    · refine ⟨frame.insert sym v, ?_, fun x => ?_⟩
      · simp [setInFrame, Array.getElem?_modify, written, found]
      · have bound := inFrame?_of_resolve? resolved
        simp only [inFrame?, written, found] at bound
        have known : sym ∈ frame.names := by
          by_contra absent
          rw [Frame.find?_eq_none_iff.mpr absent] at bound
          cases bound
        rw [Frame.mem_names_insert, ← same x]
        exact or_iff_right_of_imp fun eq => eq ▸ known
    · refine ⟨frame, ?_, same⟩
      simp [setInFrame, Array.getElem?_modify, written, found]

end Store

end Describes

end ControlStash
