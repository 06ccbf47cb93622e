import ControlStash.Proofs.Footing
import ControlStash.Proofs.Threshold
import ControlStash.Proofs.Wrapping

/-!
# Arithmetic programs

Trees of integer literals, negations, sums, differences and products are the programs whose use of
steps and of the control stack can be read off exactly. A literal takes one step and an operator
two, one to schedule its operands and one to work on their values. While the left operand is
evaluated the right one and the operator lie below it, and while the right one is evaluated only the
operator.

`Segment` is a part of a run with an exact price: so many steps, and so much height of the control
stack. Under limits that allow for the price the machine passes, under others it is stopped by one
of them. Segments are put together by `Segment.andThen`, and the segment of a tree is put together
along the tree, on top of any items and values (`Arithmetic.segment`).
-/

namespace ControlStash

open Machine (of)

/-! ## Segments of a run -/

/-- The part of a run from machine `a` to machine `b`, which takes `n` steps and a control stack of
height `h`. It does not change what contexts share. -/
inductive Segment (setting : Setting) (s : Shared) (a b : Machine) (n h : Nat) : Prop
  | passed : a.steps + n ≤ setting.limits.steps → h ≤ setting.limits.depth →
    b.steps = a.steps + n →
    (∀ {result m' s'}, Ends setting b s result m' s' → Ends setting a s result m' s') →
    Segment setting s a b n h
  | late {m' : Machine} : setting.limits.steps < a.steps + n →
    Ends setting a s (.error (.stepLimitExceeded setting.limits.steps)) m' s →
    Segment setting s a b n h
  | overflowed {m' : Machine} : setting.limits.depth < h →
    Ends setting a s (.error (.controlStackOverflow setting.limits.depth)) m' s →
    Segment setting s a b n h

namespace Segment

variable {setting : Setting} {s : Shared} {a b c : Machine} {n n' h h' : Nat} {K : List Item}
  {S : List Value} {env : Env} {k : Nat}

/-- What follows a segment needs to be looked at only if the segment has been passed. -/
theorem andThen (first : Segment setting s a b n h)
    (next : h ≤ setting.limits.depth → Segment setting s b c n' h') :
    Segment setting s a c (n + n') (max h h') := by
  cases first with
  | passed steps room counted back =>
    cases next room with
    | passed steps' room' counted' back' =>
      exact .passed (by omega) (Nat.max_le.mpr ⟨room, room'⟩) (by omega) (back ∘ back')
    | late few ends => exact .late (by omega) (back ends)
    | overflowed low ends => exact .overflowed (by omega) (back ends)
  | late few ends => exact .late (by omega) ends
  | overflowed low ends => exact .overflowed (by omega) ends

/-- A height that the limit allows for adds nothing to the price. -/
theorem widen (segment : Segment setting s a b n 0) (room : h ≤ setting.limits.depth) :
    Segment setting s a b n h := by
  cases segment with
  | passed steps _ counted back => exact .passed steps room counted back
  | late few ends => exact .late few ends
  | overflowed low _ => exact absurd low (Nat.not_lt_zero _)

/-- A step that schedules nothing. -/
theorem ofNext {item : Item} (counted : b.steps = k + 1)
    (goes : k < setting.limits.steps →
      (of (item :: K) S env k).advance setting .main s = .next b s) :
    Segment setting s (of (item :: K) S env k) b 1 0 := by
  rcases Nat.lt_or_ge k setting.limits.steps with within | reached
  · exact .passed within (Nat.zero_le _) counted (.next (goes within))
  · exact .late (Nat.lt_succ_of_le reached) (.stop (Machine.advance_of_limit_le rfl reached))

/-- The step that puts the plan of a command in its place. -/
theorem ofPlan {c : Command} (planned : c.isPlanned = true) :
    Segment setting s (of (.command c :: K) S env k)
      (of (c.plan env S.length ++ K) S env (k + 1)) 1
      ((c.plan env S.length).length + K.length) := by
  rcases Nat.lt_or_ge k setting.limits.steps with within | reached
  · have expands : (of (.command c :: K) S env k).advance setting .main s =
        (of K S env (k + 1)).schedule setting.limits (c.plan env S.length) env s :=
      (Machine.advance_command within).trans (Machine.expand_of_isPlanned planned)
    rcases Nat.lt_or_ge setting.limits.depth ((c.plan env S.length).length + K.length) with
      low | fits
    · exact .overflowed low (.stop (expands.trans (if_neg (Nat.not_le.mpr low))))
    · exact .passed within fits rfl (.next (expands.trans (Machine.schedule_of fits)))
  · exact .late (Nat.lt_succ_of_le reached) (.stop (Machine.advance_of_limit_le rfl reached))

end Segment

/-! ## Trees -/

/-- A tree of integer literals and operators that wrap around. -/
inductive Arithmetic where
  | lit (n : Int64)
  | neg (operand : Arithmetic)
  | binary (op : WrappingOp) (left right : Arithmetic)

namespace Arithmetic

/-- The tree as a program has it. -/
def command : Arithmetic → Command
  | lit n => .lit (.int n)
  | neg a => .unary .neg a.command
  | binary op a b => .binary op.op a.command b.command

/-- The integer that the tree stands for, without bounds. -/
def exact : Arithmetic → Int
  | lit n => n.toInt
  | neg a => -a.exact
  | binary op a b => op.exact a.exact b.exact

/-- The value of the tree, where every operator wraps around. -/
def value : Arithmetic → Int64
  | lit n => n
  | neg a => -a.value
  | binary op a b => op.word a.value b.value

/-- The number of literals. -/
def literals : Arithmetic → Nat
  | lit _ => 1
  | neg a => a.literals
  | binary _ a b => a.literals + b.literals

/-- The number of operators. -/
def operators : Arithmetic → Nat
  | lit _ => 0
  | neg a => a.operators + 1
  | binary _ a b => a.operators + b.operators + 1

/-- The number of steps that the tree takes. -/
def steps (e : Arithmetic) : Nat :=
  e.literals + 2 * e.operators

/-- The height of the control stack that the tree takes. -/
def need : Arithmetic → Nat
  | lit _ => 0
  | neg a => max 2 (1 + a.need)
  | binary _ a b => max 3 (max (2 + a.need) (1 + b.need))

/-- Wrapping around at every operator comes to the same as doing it once at the end. -/
theorem wraps_value (e : Arithmetic) : Wraps e.exact e.value := by
  induction e with
  | lit n => exact wraps_toInt n
  | neg a ih => exact wraps_neg ih
  | binary op a b left right => exact WrappingOp.wraps_word left right

theorem goFree_command (e : Arithmetic) : e.command.GoFree := by
  induction e with
  | lit n => rfl
  | neg a ih => exact Bool.and_eq_true_iff.mpr ⟨rfl, ih⟩
  | binary op a b left right =>
    exact Bool.and_eq_true_iff.mpr ⟨Bool.and_eq_true_iff.mpr ⟨rfl, left⟩, right⟩

theorem ofRoot_command (e : Arithmetic) : Program.ofRoot e.command = ⟨e.command⟩ := by
  cases e <;> rfl

/-- A tree is evaluated in a segment of its own, on top of whatever lies below it. -/
theorem segment (setting : Setting) (s : Shared) (e : Arithmetic) {K : List Item} (S : List Value)
    (env : Env) (k : Nat) (room : K.length ≤ setting.limits.depth) :
    Segment setting s (of (.command e.command :: K) S env k)
      (of K (.int e.value :: S) env (k + e.steps)) e.steps (K.length + e.need) := by
  induction e generalizing K S k with
  | lit n =>
    exact (Segment.ofNext rfl fun within => Machine.advance_command within).widen room
  | neg a ih =>
    have scheduled : Segment setting s (of (.command (neg a).command :: K) S env k)
        (of (.command a.command :: .instruction (.unary .neg) :: K) S env (k + 1)) 1
        (2 + K.length) := .ofPlan rfl
    have operand (fits : 2 + K.length ≤ setting.limits.depth) :=
      ih (K := .instruction (.unary .neg) :: K) S (k + 1) (by rw [List.length_cons]; omega)
    have worked : Segment setting s
        (of (.instruction (.unary .neg) :: K) (.int a.value :: S) env (k + 1 + a.steps))
        (of K (.int (-a.value) :: S) env (k + 1 + a.steps + 1)) 1 0 :=
      .ofNext rfl fun within => Machine.advance_instruction within
    have counted : (neg a).steps = 1 + (a.steps + 1) := by
      simp only [steps, literals, operators]
      omega
    have height : K.length + (neg a).need =
        max (2 + K.length) (max (K.length + 1 + a.need) 0) := by
      simp only [need]
      omega
    rw [counted, height, show k + (1 + (a.steps + 1)) = k + 1 + a.steps + 1 by omega]
    exact scheduled.andThen fun fits => (operand fits).andThen fun _ => worked
  | binary op a b left right =>
    have scheduled : Segment setting s (of (.command (binary op a b).command :: K) S env k)
        (of (.command a.command :: .command b.command :: .instruction (.binary op.op) :: K) S env
          (k + 1)) 1 (3 + K.length) := .ofPlan rfl
    have first (fits : 3 + K.length ≤ setting.limits.depth) :=
      left (K := .command b.command :: .instruction (.binary op.op) :: K) S (k + 1)
        (by simp only [List.length_cons]; omega)
    have second (fits : 3 + K.length ≤ setting.limits.depth) :=
      right (K := .instruction (.binary op.op) :: K) (.int a.value :: S) (k + 1 + a.steps)
        (by rw [List.length_cons]; omega)
    have worked : Segment setting s
        (of (.instruction (.binary op.op) :: K) (.int b.value :: .int a.value :: S) env
          (k + 1 + a.steps + b.steps))
        (of K (.int (op.word a.value b.value) :: S) env (k + 1 + a.steps + b.steps + 1)) 1 0 := by
      refine .ofNext rfl fun within => ?_
      rw [Machine.advance_instruction within]
      simp [Machine.execute, of, op.apply_op]
    have counted : (binary op a b).steps = 1 + (a.steps + (b.steps + 1)) := by
      simp only [steps, literals, operators]
      omega
    have height : K.length + (binary op a b).need =
        max (3 + K.length) (max (K.length + 2 + a.need) (max (K.length + 1 + b.need) 0)) := by
      simp only [need]
      omega
    rw [counted, height, show k + (1 + (a.steps + (b.steps + 1))) =
      k + 1 + a.steps + b.steps + 1 by omega]
    exact scheduled.andThen fun fits =>
      (first fits).andThen fun _ => (second fits).andThen fun _ => worked

end Arithmetic

/-! ## Programs -/

/-- The price of an arithmetic program is exact. Its value is the integer that it stands for,
wrapped around once. Under limits that allow for its steps and for the height of control stack that
it needs, the program gives this value and has taken just these steps; under any others it fails for
a limit that does not. It ends in any case. -/
theorem arithmetic_price_exact (e : Arithmetic) (limits : Limits) (traced : Bool) :
    Wraps e.exact e.value ∧
    (∃ enough, ∀ fuel, enough ≤ fuel →
      ∃ report, (Program.ofRoot e.command).run limits traced fuel = some report) ∧
    ∀ fuel report, (Program.ofRoot e.command).run limits traced fuel = some report →
      if e.steps ≤ limits.steps ∧ e.need ≤ limits.depth then
        report.result = .ok (.int e.value) ∧ report.steps = e.steps
      else
        limits.steps < e.steps ∧ report.result = .error (.stepLimitExceeded limits.steps) ∨
          limits.depth < e.need ∧ report.result = .error (.controlStackOverflow limits.depth) := by
  refine ⟨e.wraps_value, ?_, fun fuel report ran => ?_⟩
  · rw [e.ofRoot_command, Program.run_eq_runUnder]
    obtain ⟨result, m, s, ends⟩ := (Program.solo (p := ⟨e.command⟩) e.goFree_command).ends
    obtain ⟨enough, runs⟩ := Program.runUnder_of_ends traced ends
    refine ⟨enough, fun fuel more => ?_⟩
    obtain ⟨report, ran, -⟩ := runs fuel more
    exact ⟨report, ran⟩
  · rw [e.ofRoot_command, Program.run_eq_runUnder] at ran
    obtain ⟨result, m, s, ends, shows⟩ := Program.ends_of_runUnder e.goFree_command ran
    rw [shows.result, shows.steps]
    have tree := e.segment (K := []) (Program.settingUnder ⟨e.command⟩ .economical limits)
      (Program.shared ⟨e.command⟩) [] (Program.globals ⟨e.command⟩).1 0 (Nat.zero_le _)
    rw [List.length_nil, Nat.zero_add, Nat.zero_add] at tree
    rcases tree with ⟨steps, room, -, back⟩ | ⟨few, stopped⟩ | ⟨low, stopped⟩
    · obtain ⟨rfl, rfl, -⟩ := ends.deterministic (back (.stop rfl))
      rw [Machine.steps_of, Nat.zero_add] at steps
      rw [if_pos ⟨steps, room⟩]
      exact ⟨rfl, rfl⟩
    · obtain ⟨rfl, -⟩ := ends.deterministic stopped
      rw [Machine.steps_of, Nat.zero_add] at few
      rw [if_neg fun enough => absurd enough.1 (Nat.not_le.mpr few)]
      exact .inl ⟨few, rfl⟩
    · obtain ⟨rfl, -⟩ := ends.deterministic stopped
      rw [if_neg fun enough => absurd enough.2 (Nat.not_le.mpr low)]
      exact .inr ⟨low, rfl⟩

end ControlStash
