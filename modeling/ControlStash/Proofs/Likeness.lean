import Mathlib.Data.List.Forall2
import ControlStash.Command.Locals
import ControlStash.Operator
import ControlStash.Proofs.Bisimilar
import ControlStash.Store.Show

/-!
# Trees and values alike

Two programs that are spelled differently may still do the same. To say so of whole runs, a relation
on trees is carried over to everything in which trees are kept: closures hold the bodies of their
functions, frames and arrays hold closures, and the control stack holds commands.

* `Command.Alike R` compares the root of two trees and relates their children by `R`. The spellings
  of a declaration and of a loop may differ.
* `Rewritten rule` relates a tree to those that come about when any set of its nodes is rewritten by
  `rule`, wherever they are.
* `Value.Alike R` and `Store.Alike R` relate values and stores that differ in the bodies of closures
  only. Looking up, assigning, comparing and printing cannot tell them apart.
-/

namespace ControlStash

/-! ## Related lists and results -/

section Lists

variable {α β : Type} {r : α → β → Prop} {as : List α} {bs : List β}

theorem getElem?_of_forall₂ (related : List.Forall₂ r as bs) (i : Nat) :
    Option.Rel r as[i]? bs[i]? := by
  induction related generalizing i with
  | nil => exact .none
  | cons head _ ih =>
    cases i with
    | zero => exact .some head
    | succ i => exact ih i

theorem forall₂_modify {f : α → α} {g : β → β} (related : List.Forall₂ r as bs) (i : Nat)
    (kept : ∀ a b, r a b → r (f a) (g b)) : List.Forall₂ r (as.modify i f) (bs.modify i g) := by
  induction related generalizing i with
  | nil => cases i <;> exact .nil
  | cons head rest ih =>
    cases i with
    | zero => exact .cons (kept _ _ head) rest
    | succ i => exact .cons head (ih i)

theorem forall₂_set {a : α} {b : β} (related : List.Forall₂ r as bs) (i : Nat) (new : r a b) :
    List.Forall₂ r (as.set i a) (bs.set i b) := by
  induction related generalizing i with
  | nil => exact .nil
  | cons head rest ih =>
    cases i with
    | zero => exact .cons new rest
    | succ i => exact .cons head (ih i)

/-- Two computations that may fail come to the same error, or to related values. -/
inductive Coincide {ε α β : Type} (r : α → β → Prop) : Except ε α → Except ε β → Prop
  | ok {a b} : r a b → Coincide r (.ok a) (.ok b)
  | error {e} : Coincide r (.error e) (.error e)

end Lists

/-! ## Trees -/

namespace Command

/-- Two trees have roots of one kind, up to the spelling of declarations and loops, with the same
data and with children that are related. -/
inductive Alike (R : Command → Command → Prop) : Command → Command → Prop
  | lit {value} : Alike R (.lit value) (.lit value)
  | name {sym} : Alike R (.name sym) (.name sym)
  | unary {op a a'} : R a a' → Alike R (.unary op a) (.unary op a')
  | binary {op a a' b b'} : R a a' → R b b' → Alike R (.binary op a b) (.binary op a' b')
  | function {sym params body body'} : R body body' →
    Alike R (.function sym params body) (.function sym params body')
  | logical {op a a' b b'} : R a a' → R b b' → Alike R (.logical op a b) (.logical op a' b')
  | conditional {a a' b b' c c'} : R a a' → R b b' → R c c' →
    Alike R (.conditional a b c) (.conditional a' b' c')
  | call {callee callee' args args'} : R callee callee' → List.Forall₂ R args args' →
    Alike R (.call callee args) (.call callee' args')
  | assign {sym a a'} : R a a' → Alike R (.assign sym a) (.assign sym a')
  | lambda {params body body'} : R body body' → Alike R (.lambda params body) (.lambda params body')
  | arrayOf {elements elements'} : List.Forall₂ R elements elements' →
    Alike R (.arrayOf elements) (.arrayOf elements')
  | lengthOf {a a'} : R a a' → Alike R (.lengthOf a) (.lengthOf a')
  | index {a a' b b'} : R a a' → R b b' → Alike R (.index a b) (.index a' b')
  | indexAssign {a a' b b' c c'} : R a a' → R b b' → R c c' →
    Alike R (.indexAssign a b c) (.indexAssign a' b' c')
  | seq {stmts stmts'} : List.Forall₂ R stmts stmts' → Alike R (.seq stmts) (.seq stmts')
  | branch {a a' b b' alt alt'} : R a a' → R b b' → Option.Rel R alt alt' →
    Alike R (.branch a b alt) (.branch a' b' alt')
  | block {body body'} : R body body' → Alike R (.block body) (.block body')
  | declare {form form' sym a a'} : R a a' → Alike R (.declare form sym a) (.declare form' sym a')
  | ret {a a'} : R a a' → Alike R (.ret a) (.ret a')
  | loop {form form' a a' b b'} : R a a' → R b b' → Alike R (.loop form a b) (.loop form' a' b')
  | go {callee callee' args args'} : R callee callee' → List.Forall₂ R args args' →
    Alike R (.go callee args) (.go callee' args')
  | attempt {a a' sym b b'} : R a a' → R b b' → Alike R (.attempt a sym b) (.attempt a' sym b')
  | throw {a a'} : R a a' → Alike R (.throw a) (.throw a')
  | unrecognized : Alike R .unrecognized .unrecognized

end Command

/-- The second tree comes about from the first when any set of its nodes is rewritten by a rule. A
node that stays is of the same kind, and its children may be rewritten. -/
inductive Rewritten (rule : Command → Command → Prop) : Command → Command → Prop
  | keep {c d} : Command.Alike (Rewritten rule) c d → c.tag = d.tag → Rewritten rule c d
  | turn {c d e} : Command.Alike (Rewritten rule) c d → c.tag = d.tag → rule d e →
    Rewritten rule c e

namespace Rewritten

variable {rule : Command → Command → Prop}

/-- A node is kept with its children rewritten, and may then be rewritten itself. -/
theorem exists_alike {c e : Command} (rewritten : Rewritten rule c e) :
    ∃ d, c.Alike (Rewritten rule) d ∧ c.tag = d.tag ∧ (d = e ∨ rule d e) := by
  cases rewritten with
  | keep alike tag => exact ⟨_, alike, tag, .inl rfl⟩
  | turn alike tag turned => exact ⟨_, alike, tag, .inr turned⟩

mutual

/-- Nothing need be rewritten. -/
theorem refl (rule : Command → Command → Prop) (c : Command) : Rewritten rule c c := by
  refine .keep ?_ rfl
  cases c with
  | lit => exact .lit
  | name => exact .name
  | unary _ a => exact .unary (refl rule a)
  | binary _ a b => exact .binary (refl rule a) (refl rule b)
  | function _ _ body => exact .function (refl rule body)
  | logical _ a b => exact .logical (refl rule a) (refl rule b)
  | conditional a b c => exact .conditional (refl rule a) (refl rule b) (refl rule c)
  | call callee args => exact .call (refl rule callee) (reflAll rule args)
  | assign _ a => exact .assign (refl rule a)
  | lambda _ body => exact .lambda (refl rule body)
  | arrayOf elements => exact .arrayOf (reflAll rule elements)
  | lengthOf a => exact .lengthOf (refl rule a)
  | index a b => exact .index (refl rule a) (refl rule b)
  | indexAssign a b c => exact .indexAssign (refl rule a) (refl rule b) (refl rule c)
  | seq stmts => exact .seq (reflAll rule stmts)
  | branch a b alt => exact .branch (refl rule a) (refl rule b) (reflOption rule alt)
  | block body => exact .block (refl rule body)
  | declare _ _ a => exact .declare (refl rule a)
  | ret a => exact .ret (refl rule a)
  | loop _ a b => exact .loop (refl rule a) (refl rule b)
  | go callee args => exact .go (refl rule callee) (reflAll rule args)
  | attempt a _ b => exact .attempt (refl rule a) (refl rule b)
  | throw a => exact .throw (refl rule a)
  | unrecognized => exact .unrecognized

theorem reflAll (rule : Command → Command → Prop) (cs : List Command) :
    List.Forall₂ (Rewritten rule) cs cs := by
  cases cs with
  | nil => exact .nil
  | cons c cs => exact .cons (refl rule c) (reflAll rule cs)

theorem reflOption (rule : Command → Command → Prop) (c : Option Command) :
    Option.Rel (Rewritten rule) c c := by
  cases c with
  | none => exact .none
  | some c => exact .some (refl rule c)

end

mutual

/-- A rule that keeps the names that a node declares may be used anywhere without changing those
that a body declares. -/
theorem addLocals (keeps : ∀ d e, rule d e → ∀ known, d.addLocals known = e.addLocals known)
    (c : Command) {e : Command} (rewritten : Rewritten rule c e) (known : List String) :
    c.addLocals known = e.addLocals known := by
  obtain ⟨d, alike, -, turned⟩ := rewritten.exists_alike
  have below : c.addLocals known = d.addLocals known := by
    cases alike with
    | seq all => exact addLocalsAll keeps _ all known
    | _ => rfl
  rcases turned with rfl | turned
  · exact below
  · exact below.trans (keeps d e turned known)

theorem addLocalsAll (keeps : ∀ d e, rule d e → ∀ known, d.addLocals known = e.addLocals known)
    (cs : List Command) {es : List Command} (rewritten : List.Forall₂ (Rewritten rule) cs es)
    (known : List String) : Command.addLocalsAll cs known = Command.addLocalsAll es known := by
  cases rewritten with
  | nil => rfl
  | cons head rest =>
    rw [Command.addLocalsAll, Command.addLocalsAll, addLocals keeps _ head,
      addLocalsAll keeps _ rest]

end

end Rewritten

/-! ## Values -/

/-- Whether a value is a closure. -/
def Value.isClosure : Value → Bool
  | .closure _ => true
  | _ => false

/-- Two values are the same, or closures that differ in their bodies only. -/
inductive Value.Alike (R : Command → Command → Prop) : Value → Value → Prop
  | closure {stamp params body body' env} : R body body' →
    Alike R (.closure ⟨stamp, params, body, env⟩) (.closure ⟨stamp, params, body', env⟩)
  | same {v} : v.isClosure = false → Alike R v v

variable {R : Command → Command → Prop}

namespace Value.Alike

variable {v w : Value}

theorem displayScalar_eq (alike : v.Alike R w) : v.displayScalar = w.displayScalar := by
  cases alike <;> rfl

theorem sameScalar_eq {v' w' : Value} (left : v.Alike R w) (right : v'.Alike R w') :
    v.sameScalar v' = w.sameScalar w' := by
  cases left with
  | closure =>
    cases right with
    | closure => rfl
    | same => cases v' <;> rfl
  | same =>
    cases right with
    | closure => cases v <;> rfl
    | same => rfl

/-- Apart from closures, only a value itself is alike to it. -/
theorem eq_of_plain (alike : v.Alike R w) (plain : v.isClosure = false) : w = v := by
  cases alike with
  | closure => cases plain
  | same => rfl

end Value.Alike

theorem UnaryOp.apply_alike {v w : Value} (op : UnaryOp) (alike : v.Alike R w) :
    op.apply v = op.apply w := by
  cases alike with
  | closure => cases op <;> rfl
  | same => rfl

/-! ## Stores -/

/-- Two frames bind the same names, in the same order, to values alike. -/
def Frame.Alike (R : Command → Command → Prop) (frame frame' : Frame) : Prop :=
  List.Forall₂ (fun a b => a.1 = b.1 ∧ a.2.Alike R b.2) frame.bindings frame'.bindings

namespace Frame

variable {frame frame' : Frame} {sym : String} {v w : Value}

theorem Alike.find? (alike : frame.Alike R frame') (sym : String) :
    Option.Rel (Value.Alike R) (frame.find? sym) (frame'.find? sym) := by
  obtain ⟨bindings⟩ := frame
  obtain ⟨bindings'⟩ := frame'
  change List.Forall₂ _ bindings bindings' at alike
  unfold Frame.find?
  dsimp only
  induction alike with
  | nil => exact .none
  | @cons a b _ _ head _ ih =>
    obtain ⟨x, v⟩ := a
    obtain ⟨y, w⟩ := b
    obtain ⟨rfl, values⟩ := head
    simp only [List.lookup_cons]
    cases sym == x with
    | true => exact .some values
    | false => exact ih

theorem Alike.insert (alike : frame.Alike R frame') (sym : String) (values : v.Alike R w) :
    (frame.insert sym v).Alike R (frame'.insert sym w) := by
  obtain ⟨bindings⟩ := frame
  obtain ⟨bindings'⟩ := frame'
  change List.Forall₂ _ bindings bindings' at alike
  show List.Forall₂ _ (insertInto sym v bindings) (insertInto sym w bindings')
  induction alike with
  | nil => exact .cons ⟨rfl, values⟩ .nil
  | @cons a b _ _ head rest ih =>
    obtain ⟨x, v⟩ := a
    obtain ⟨y, w⟩ := b
    obtain ⟨rfl, old⟩ := head
    unfold insertInto
    split
    · exact .cons ⟨rfl, values⟩ rest
    · exact .cons ⟨rfl, old⟩ ih

theorem Alike.ofBindings {bindings bindings' : List (String × Value)}
    (alike : List.Forall₂ (fun a b => a.1 = b.1 ∧ a.2.Alike R b.2) bindings bindings') :
    (Frame.ofBindings bindings).Alike R (.ofBindings bindings') := by
  have folded : ∀ frame frame' : Frame, frame.Alike R frame' →
      Frame.Alike R (bindings.foldl (fun frame b => frame.insert b.1 b.2) frame)
        (bindings'.foldl (fun frame b => frame.insert b.1 b.2) frame') := by
    induction alike with
    | nil => exact fun _ _ => id
    | @cons a b _ _ head _ ih =>
      obtain ⟨x, v⟩ := a
      obtain ⟨y, w⟩ := b
      obtain ⟨rfl, values⟩ := head
      exact fun frame frame' frames => ih _ _ (frames.insert x values)
  exact folded ⟨[]⟩ ⟨[]⟩ .nil

end Frame

/-- Two stores hold frames and arrays alike at the same places. -/
structure Store.Alike (R : Command → Command → Prop) (store store' : Store) : Prop where
  frames : List.Forall₂ (Frame.Alike R) store.frames.toList store'.frames.toList
  arrays : List.Forall₂ (fun a b => List.Forall₂ (Value.Alike R) a.toList b.toList)
    store.arrays.toList store'.arrays.toList
  stamps : store.stamps = store'.stamps

namespace Store.Alike

variable {store store' : Store} {env : Env} {sym : String} {v w : Value}

theorem size_frames (alike : store.Alike R store') : store.frames.size = store'.frames.size :=
  alike.frames.length_eq

theorem size_arrays (alike : store.Alike R store') : store.arrays.size = store'.arrays.size :=
  alike.arrays.length_eq

theorem inFrame? (alike : store.Alike R store') (ref : FrameRef) (sym : String) :
    Option.Rel (Value.Alike R) (store.inFrame? ref sym) (store'.inFrame? ref sym) := by
  have frames := getElem?_of_forall₂ alike.frames ref.index
  rw [Array.getElem?_toList, Array.getElem?_toList] at frames
  unfold Store.inFrame?
  generalize store.frames[ref.index]? = found, store'.frames[ref.index]? = found' at frames ⊢
  cases frames with
  | none => exact .none
  | some frame => exact frame.find? sym

theorem resolve? (alike : store.Alike R store') (sym : String) (refs : List FrameRef) :
    Option.Rel (fun a b => a.1 = b.1 ∧ a.2.Alike R b.2) (store.resolve? sym refs)
      (store'.resolve? sym refs) := by
  induction refs with
  | nil => exact .none
  | cons ref refs ih =>
    have here := alike.inFrame? ref sym
    unfold Store.resolve?
    generalize store.inFrame? ref sym = found, store'.inFrame? ref sym = found' at here ⊢
    cases here with
    | none => exact ih
    | some values => exact .some ⟨rfl, values⟩

theorem lookup (alike : store.Alike R store') (env : Env) (sym : String) :
    Coincide (Value.Alike R) (store.lookup env sym) (store'.lookup env sym) := by
  have resolved := alike.resolve? sym env.frames
  unfold Store.lookup
  generalize store.resolve? sym env.frames = found, store'.resolve? sym env.frames = found'
    at resolved ⊢
  cases resolved with
  | none => exact .error
  | @some a b values =>
    obtain ⟨ref, v⟩ := a
    obtain ⟨ref', w⟩ := b
    obtain ⟨rfl, values⟩ := values
    cases values with
    | closure body => exact .ok (.closure body)
    | same plain => cases v <;> first | exact .error | exact .ok (.same plain)

theorem pushFrame {frame frame' : Frame} (alike : store.Alike R store')
    (frames : frame.Alike R frame') (env : Env) :
    (store.pushFrame frame env).1 = (store'.pushFrame frame' env).1 ∧
      (store.pushFrame frame env).2.Alike R (store'.pushFrame frame' env).2 := by
  refine ⟨?_, ?_, alike.arrays, alike.stamps⟩
  · simp only [Store.pushFrame, alike.size_frames]
  · simp only [Store.pushFrame, Array.toList_push]
    exact List.rel_append alike.frames (.cons frames .nil)

/-- Either no frame can be made in either store, or the same environment with one more is made in
both. -/
theorem extend {values values' : List Value} (alike : store.Alike R store') (env : Env)
    (names : List String) (all : List.Forall₂ (Value.Alike R) values values') :
    (∃ e, store.extend env names values = .error e ∧ store'.extend env names values' = .error e) ∨
      ∃ inner grown grown', store.extend env names values = .ok (inner, grown) ∧
        store'.extend env names values' = .ok (inner, grown') ∧ grown.Alike R grown' := by
  have zipped : ∀ {values values'} (names : List String),
      List.Forall₂ (Value.Alike R) values values' →
      List.Forall₂ (fun a b : String × Value => a.1 = b.1 ∧ a.2.Alike R b.2)
        (names.zip values) (names.zip values') := by
    intro values values' names all
    induction all generalizing names with
    | nil => simp
    | cons head _ ih =>
      cases names with
      | nil => exact .nil
      | cons name names => exact .cons ⟨rfl, head⟩ (ih names)
  obtain ⟨same, grown⟩ := alike.pushFrame (.ofBindings (zipped names all)) env
  unfold Store.extend
  rw [← all.length_eq]
  split
  · refine .inr ⟨_, _, (store'.pushFrame _ env).2, rfl, ?_, grown⟩
    exact congrArg Except.ok (Prod.ext same.symm rfl)
  · exact .inl ⟨_, rfl, rfl⟩

theorem assign (alike : store.Alike R store') (env : Env) (sym : String) (values : v.Alike R w) :
    Coincide (Store.Alike R) (store.assign env sym v) (store'.assign env sym w) := by
  have resolved := alike.resolve? sym env.frames
  unfold Store.assign
  generalize store.resolve? sym env.frames = found, store'.resolve? sym env.frames = found'
    at resolved ⊢
  cases resolved with
  | none => exact .error
  | @some a b same =>
    obtain ⟨ref, old⟩ := a
    obtain ⟨ref', old'⟩ := b
    obtain ⟨rfl, -⟩ := same
    refine .ok ⟨?_, alike.arrays, alike.stamps⟩
    simp only [Store.setInFrame, Array.toList_modify]
    exact forall₂_modify alike.frames ref.index fun _ _ frames => frames.insert sym values

theorem newArray {elements elements' : Array Value} (alike : store.Alike R store')
    (all : List.Forall₂ (Value.Alike R) elements.toList elements'.toList) :
    (store.newArray elements).1 = (store'.newArray elements').1 ∧
      (store.newArray elements).2.Alike R (store'.newArray elements').2 := by
  refine ⟨?_, alike.frames, ?_, alike.stamps⟩
  · simp only [Store.newArray, alike.size_arrays]
  · simp only [Store.newArray, Array.toList_push]
    exact List.rel_append alike.arrays (.cons all .nil)

theorem elements (alike : store.Alike R store') (ref : ArrayRef) :
    List.Forall₂ (Value.Alike R) (store.elements ref).toList (store'.elements ref).toList := by
  have arrays := getElem?_of_forall₂ alike.arrays ref.index
  rw [Array.getElem?_toList, Array.getElem?_toList] at arrays
  unfold Store.elements
  generalize store.arrays[ref.index]? = found, store'.arrays[ref.index]? = found' at arrays ⊢
  cases arrays with
  | none => exact .nil
  | some all => exact all

theorem size_elements (alike : store.Alike R store') (ref : ArrayRef) :
    (store.elements ref).size = (store'.elements ref).size :=
  (alike.elements ref).length_eq

theorem isEmpty_elements (alike : store.Alike R store') (ref : ArrayRef) :
    (store.elements ref).isEmpty = (store'.elements ref).isEmpty := by
  unfold Array.isEmpty
  rw [alike.size_elements]

theorem element? (alike : store.Alike R store') (ref : ArrayRef) (n : Nat) :
    Option.Rel (Value.Alike R) (store.element? ref n) (store'.element? ref n) := by
  have all := getElem?_of_forall₂ (alike.elements ref) n
  rw [Array.getElem?_toList, Array.getElem?_toList] at all
  exact all

theorem setElement (alike : store.Alike R store') (ref : ArrayRef) (n : Nat)
    (values : v.Alike R w) :
    (store.setElement ref n v).Alike R (store'.setElement ref n w) := by
  refine ⟨alike.frames, ?_, alike.stamps⟩
  simp only [Store.setElement, Array.toList_modify]
  refine forall₂_modify alike.arrays ref.index fun a b all => ?_
  rw [Array.toList_setIfInBounds, Array.toList_setIfInBounds]
  exact forall₂_set all n values

theorem newClosure {body body' : Command} (alike : store.Alike R store') (params : List String)
    (env : Env) (bodies : R body body') :
    (Value.closure (store.newClosure params body env).1).Alike R
        (.closure (store'.newClosure params body' env).1) ∧
      (store.newClosure params body env).2.Alike R (store'.newClosure params body' env).2 := by
  simp only [Store.newClosure, alike.stamps]
  exact ⟨.closure bodies, alike.frames, alike.arrays, rfl⟩

end Store.Alike

/-! ## Comparing and printing -/

theorem Value.Alike.flip {v w : Value} (alike : v.Alike R w) : w.Alike (flip R) v := by
  cases alike with
  | closure bodies => exact .closure bodies
  | same plain => exact .same plain

theorem Store.Alike.flip {store store' : Store} (alike : store.Alike R store') :
    store'.Alike (flip R) store := by
  refine ⟨List.Forall₂.flip (alike.frames.imp fun _ _ bindings => ?_),
    List.Forall₂.flip (alike.arrays.imp fun _ _ elements => ?_), alike.stamps.symm⟩
  · exact List.Forall₂.flip (bindings.imp fun _ _ bound => ⟨bound.1.symm, bound.2.flip⟩)
  · exact List.Forall₂.flip (elements.imp fun _ _ values => values.flip)

namespace Store.Alike

variable {store store' : Store} {v v' w w' : Value}

/-- What shows that values are bisimilar shows it of values alike. -/
theorem bisimilar (alike : store.Alike R store') (left : v.Alike R v') (right : w.Alike R w')
    (bisimilar : store.Bisimilar v w) : store'.Bisimilar v' w' := by
  -- the bisimulation relates what is alike to bisimilar values of the other store
  refine ⟨fun v' w' => ∃ w, (∃ v, v.Alike R v' ∧ store.Bisimilar v w) ∧ w.Alike R w',
    fun v' w' related => ?_, w, ⟨v, left, bisimilar⟩, right⟩
  obtain ⟨w, ⟨v, left, bisimilar⟩, right⟩ := related
  cases bisimulation_bisimilar v w bisimilar with
  | same ref =>
    obtain rfl := left.eq_of_plain rfl
    obtain rfl := right.eq_of_plain rfl
    exact .same ref
  | @arrays a b elements =>
    obtain rfl := left.eq_of_plain rfl
    obtain rfl := right.eq_of_plain rfl
    have left : List.Forall₂ (fun v' w => ∃ v, v.Alike R v' ∧ store.Bisimilar v w)
        (store'.elements a).toList (store.elements b).toList :=
      forall₂_trans (fun _ v _ alike bisimilar => ⟨v, alike, bisimilar⟩)
        (List.Forall₂.flip (alike.elements a)) elements
    exact .arrays (forall₂_trans (fun _ w _ related alike => ⟨w, related, alike⟩) left
      (alike.elements b))
  | scalars same =>
    rw [left.sameScalar_eq right] at same
    exact .scalars same

/-- Equality cannot tell values alike apart. -/
theorem equal_eq (alike : store.Alike R store') (left : v.Alike R v') (right : w.Alike R w') :
    store.equal v w = store'.equal v' w' := by
  refine Bool.eq_iff_iff.mpr ?_
  rw [equal_eq_true_iff, equal_eq_true_iff]
  exact ⟨alike.bisimilar left right, alike.flip.bisimilar left.flip right.flip⟩

end Store.Alike

theorem BinaryOp.apply_alike {store store' : Store} {a a' b b' : Value} (op : BinaryOp)
    (alike : store.Alike R store') (left : a.Alike R a') (right : b.Alike R b') :
    op.apply store a b = op.apply store' a' b' := by
  have equal := alike.equal_eq left right
  have equals : BinaryOp.equals store a b = BinaryOp.equals store' a' b' := by
    cases left with
    | closure =>
      cases right with
      | closure => exact equal
      | same => cases b <;> exact equal
    | same =>
      cases right with
      | closure => cases a <;> exact equal
      | same => cases a <;> cases b <;> first | rfl | exact equal
  cases op
  case eq | ne => simp only [apply, equals]
  -- no other operator looks at the store
  all_goals
    cases left with
    | closure =>
      cases right with
      | closure => rfl
      | same => cases b <;> rfl
    | same =>
      cases right with
      | closure => cases a <;> rfl
      | same => first | rfl | (cases a <;> cases b <;> rfl)

/-! ## Printing -/

namespace Store

/-- Two pieces of a text are alike if they write values alike. -/
inductive Piece.Alike (R : Command → Command → Prop) : Piece → Piece → Prop
  | value {v w} : v.Alike R w → Alike R (.value v) (.value w)
  | separator : Alike R .separator .separator
  | close {ref} : Alike R (.close ref) (.close ref)

variable {store store' : Store} {v w : Value} {pieces pieces' : List Piece}
  {scalar : Value → String}

theorem elementPieces_alike {values values' : List Value}
    (all : List.Forall₂ (Value.Alike R) values values')
    (later : List.Forall₂ (Piece.Alike R) pieces pieces') :
    List.Forall₂ (Piece.Alike R) (elementPieces values pieces) (elementPieces values' pieces') := by
  induction all with
  | nil => exact later
  | cons head rest ih =>
    cases rest with
    | nil => exact .cons (.value head) later
    | cons => exact .cons (.value head) (.cons .separator ih)

theorem exists_of_array_cons {ref : ArrayRef}
    (all : List.Forall₂ (Piece.Alike R) (.value (.array ref) :: pieces) pieces') :
    ∃ rest, pieces' = .value (.array ref) :: rest ∧ List.Forall₂ (Piece.Alike R) pieces rest := by
  cases all with
  | cons head rest =>
    obtain ⟨values⟩ := head
    obtain rfl := values.eq_of_plain rfl
    exact ⟨_, rfl, rest⟩

/-- Where the text of a scalar is the same for values alike, so is the text of an array. -/
theorem Alike.writePieces_eq (alike : store.Alike R store')
    (scalars : ∀ v w, v.Alike R w → scalar v = scalar w) (room : Nat)
    (opened : Std.HashSet ArrayRef) (all : List.Forall₂ (Piece.Alike R) pieces pieces')
    (out : String) :
    store.writePieces scalar room opened pieces out =
      store'.writePieces scalar room opened pieces' out := by
  fun_induction Store.writePieces store scalar room opened pieces out generalizing pieces' with
  | case1 =>
    cases all
    rw [writePieces.eq_1]
  | case2 room opened out pieces ih =>
    cases all with
    | cons head rest =>
      cases head
      rw [writePieces.eq_2, ih rest]
  | case3 room opened out ref pieces ih =>
    cases all with
    | cons head rest =>
      cases head
      rw [writePieces.eq_3, ih rest]
  | case4 room opened out ref pieces empty ih =>
    obtain ⟨pieces', rfl, rest⟩ := exists_of_array_cons all
    rw [alike.isEmpty_elements] at empty
    conv_rhs => unfold writePieces
    rw [ih rest, if_pos empty]
  | case5 room opened out ref pieces filled open_ ih =>
    obtain ⟨pieces', rfl, rest⟩ := exists_of_array_cons all
    rw [alike.isEmpty_elements] at filled
    conv_rhs => unfold writePieces
    rw [ih rest, if_neg filled, if_pos open_]
  | case6 opened out ref pieces filled closed ih =>
    obtain ⟨pieces', rfl, rest⟩ := exists_of_array_cons all
    rw [alike.isEmpty_elements] at filled
    rw [ih rest, writePieces.eq_4, if_neg filled, if_neg closed]
  | case7 opened out ref pieces filled closed room ih =>
    obtain ⟨pieces', rfl, rest⟩ := exists_of_array_cons all
    rw [alike.isEmpty_elements] at filled
    rw [ih (elementPieces_alike (alike.elements ref) (.cons .close rest)), writePieces.eq_5,
      if_neg filled, if_neg closed]
  | case8 room opened out v pieces noArray ih =>
    cases all with
    | cons head rest =>
      cases head with
      | @value _ w values =>
        have noArray' : ∀ ref, w = .array ref → False := fun ref eq => by
          subst eq
          exact noArray ref (values.flip.eq_of_plain rfl)
        rw [ih rest, writePieces.eq_6 _ _ _ _ _ _ _ noArray', scalars _ _ values]

/-- Where the text of a scalar is the same for values alike, so is the text of a value. -/
theorem Alike.render_eq (alike : store.Alike R store') (values : v.Alike R w)
    (scalars : ∀ v w, v.Alike R w → scalar v = scalar w) :
    store.render scalar v = store'.render scalar w := by
  cases values with
  | closure bodies => exact scalars _ _ (.closure bodies)
  | same plain =>
    cases v
    case array ref =>
      unfold render
      rw [alike.size_arrays]
      exact alike.writePieces_eq scalars _ _ (.cons (.value (.same rfl)) .nil) _
    all_goals rfl

/-- Values alike are printed the same. -/
theorem Alike.display_eq (alike : store.Alike R store') (values : v.Alike R w) :
    store.display v = store'.display w :=
  alike.render_eq values fun _ _ values => values.displayScalar_eq

end Store

end ControlStash
