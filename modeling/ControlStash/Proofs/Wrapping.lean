import Mathlib.Data.Int.ModEq
import ControlStash.Operator

/-!
# Integers that wrap around

Programs compute with integers of 64 bits. An operator gives the exact result if there is a word for
it, and otherwise the one word that is congruent to it modulo `2 ^ 64`: `Wraps n c` says that `c` is
this word for the exact result `n`. What the operators give is said through it for all words at once
(`integer_operators_exact`).

Division has a zero to refuse. A quotient is the exact one, cut off toward zero, and leaves the
range for a single pair of words only; a remainder never does.
-/

namespace ControlStash

/-- The exact result `n`, wrapped around, is `c`: no other word is congruent to it. -/
structure Wraps (n : Int) (c : Int64) : Prop where
  congruent : c.toInt ≡ n [ZMOD 2 ^ 64]
  only : ∀ d : Int64, d.toInt ≡ n [ZMOD 2 ^ 64] → d = c

section Words

variable {a b c d : Int64} {n m : Int}

/-- Words that are congruent are the same. -/
theorem word_eq_of_modEq (congruent : c.toInt ≡ d.toInt [ZMOD 2 ^ 64]) : c = d := by
  have residue (x : Int64) : (x.toInt % (2 ^ 64 : Nat)).bmod (2 ^ 64) = x.toInt := by
    rw [Int.emod_bmod]
    exact x.toInt_bmod
  refine Int64.toInt_inj.mp ?_
  calc c.toInt = (c.toInt % (2 ^ 64 : Nat)).bmod (2 ^ 64) := (residue c).symm
    _ = (d.toInt % (2 ^ 64 : Nat)).bmod (2 ^ 64) := congrArg (Int.bmod · (2 ^ 64)) congruent
    _ = d.toInt := residue d

theorem wraps_of_modEq (congruent : c.toInt ≡ n [ZMOD 2 ^ 64]) : Wraps n c :=
  ⟨congruent, fun _ other => word_eq_of_modEq (other.trans congruent.symm)⟩

theorem wraps_of_bmod (residue : c.toInt = n.bmod (2 ^ 64)) : Wraps n c := by
  refine wraps_of_modEq ?_
  rw [residue]
  exact Int.bmod_emod

theorem Wraps.of_modEq (wraps : Wraps n c) (congruent : n ≡ m [ZMOD 2 ^ 64]) : Wraps m c :=
  wraps_of_modEq (wraps.congruent.trans congruent)

/-- An exact result for which there is a word is given as it is. -/
theorem wraps_toInt (c : Int64) : Wraps c.toInt c :=
  wraps_of_modEq rfl

theorem Wraps.unique (first : Wraps n c) (second : Wraps n d) : c = d :=
  second.only c first.congruent

end Words

/-! ## Sums, differences and products -/

/-- The operators that give a word for all words. -/
inductive WrappingOp where
  | add
  | sub
  | mul
  deriving DecidableEq, Repr

namespace WrappingOp

/-- The operator of programs. -/
def op : WrappingOp → BinaryOp
  | add => .add
  | sub => .sub
  | mul => .mul

/-- The exact result. -/
def exact : WrappingOp → Int → Int → Int
  | add => (· + ·)
  | sub => (· - ·)
  | mul => (· * ·)

/-- The word that is given. -/
def word : WrappingOp → Int64 → Int64 → Int64
  | add => (· + ·)
  | sub => (· - ·)
  | mul => (· * ·)

theorem apply_op (store : Store) (o : WrappingOp) (a b : Int64) :
    o.op.apply store (.int a) (.int b) = .ok (.int (o.word a b)) := by
  cases o <;> rfl

/-- Operands may be wrapped around before or after. -/
theorem wraps_word {o : WrappingOp} {n m : Int} {a b : Int64} (left : Wraps n a)
    (right : Wraps m b) : Wraps (o.exact n m) (o.word a b) := by
  cases o with
  | add =>
    exact (wraps_of_bmod (Int64.toInt_add a b)).of_modEq (left.congruent.add right.congruent)
  | sub =>
    exact (wraps_of_bmod (Int64.toInt_sub a b)).of_modEq (left.congruent.sub right.congruent)
  | mul =>
    exact (wraps_of_bmod (Int64.toInt_mul a b)).of_modEq (left.congruent.mul right.congruent)

end WrappingOp

theorem wraps_neg {n : Int} {a : Int64} (operand : Wraps n a) : Wraps (-n) (-a) :=
  (wraps_of_bmod (Int64.toInt_neg a)).of_modEq operand.congruent.neg

/-! ## Quotients and remainders -/

section Division

variable {a b : Int64}

theorem apply_div_of_ne_zero (store : Store) (a : Int64) (nonzero : b ≠ 0) :
    BinaryOp.div.apply store (.int a) (.int b) = .ok (.int (a / b)) :=
  if_neg nonzero

theorem apply_rem_of_ne_zero (store : Store) (a : Int64) (nonzero : b ≠ 0) :
    BinaryOp.rem.apply store (.int a) (.int b) = .ok (.int (a % b)) :=
  if_neg nonzero

/-- The exact quotient of the least word by minus one is the only one that there is no word for. -/
theorem toInt_div_ne_iff :
    (a / b).toInt ≠ a.toInt.tdiv b.toInt ↔ a = Int64.minValue ∧ b = -1 := by
  constructor
  · intro cut
    constructor
    · by_contra other
      exact cut (Int64.toInt_div_of_ne_left a b other)
    · by_contra other
      exact cut (Int64.toInt_div_of_ne_right a b other)
  · rintro ⟨rfl, rfl⟩
    decide

/-- A remainder is nearer to zero than the divisor, and on the side of the dividend. -/
theorem toInt_mod_bounds (a : Int64) (nonzero : b ≠ 0) :
    (a % b).toInt.natAbs < b.toInt.natAbs ∧
      ((a % b).toInt = 0 ∨ (a % b).toInt.sign = a.toInt.sign) := by
  have divisor : 0 < b.toInt.natAbs := by
    rw [Int.natAbs_pos]
    intro zero
    exact nonzero (Int64.toInt_inj.mp zero)
  rw [Int64.toInt_mod]
  refine ⟨?_, ?_⟩
  · rw [Int.natAbs_tmod]
    exact Nat.mod_lt _ divisor
  · rw [Int.sign_tmod]
    split
    · next divides =>
      exact .inl (Int.tmod_eq_zero_of_dvd divides)
    · exact .inr rfl

/-- Quotient and remainder make up the dividend again, also where the quotient is wrapped around. -/
theorem div_mul_add_mod (a b : Int64) : a / b * b + a % b = a := by
  have quotient : Wraps (a.toInt.tdiv b.toInt) (a / b) := wraps_of_bmod (Int64.toInt_div a b)
  have product : Wraps (a.toInt.tdiv b.toInt * b.toInt) (a / b * b) :=
    WrappingOp.wraps_word (o := .mul) quotient (wraps_toInt b)
  have whole : Wraps (a.toInt.tdiv b.toInt * b.toInt + (a % b).toInt) (a / b * b + a % b) :=
    WrappingOp.wraps_word (o := .add) product (wraps_toInt (a % b))
  rw [Int64.toInt_mod, Int.tdiv_mul_add_tmod] at whole
  exact whole.unique (wraps_toInt a)

end Division

/-! ## What programs compute -/

/-- The operators on integers, on all pairs of words. Negation, sum, difference and product are
always given, and are the exact result wrapped around. Quotient and remainder are refused for a
divisor of zero and for nothing else. Any other quotient is the exact one, cut off toward zero and
wrapped around, which changes it for the least word by minus one only; any other remainder is the
exact one, nearer to zero than the divisor and on the side of the dividend. What a program makes of
them by product and sum is the dividend. -/
theorem integer_operators_exact (store : Store) (a b : Int64) :
    (∃ c, UnaryOp.neg.apply (.int a) = .ok (.int c) ∧ Wraps (-a.toInt) c) ∧
    (∃ c, BinaryOp.add.apply store (.int a) (.int b) = .ok (.int c) ∧
      Wraps (a.toInt + b.toInt) c) ∧
    (∃ c, BinaryOp.sub.apply store (.int a) (.int b) = .ok (.int c) ∧
      Wraps (a.toInt - b.toInt) c) ∧
    (∃ c, BinaryOp.mul.apply store (.int a) (.int b) = .ok (.int c) ∧
      Wraps (a.toInt * b.toInt) c) ∧
    (∀ op ∈ [BinaryOp.div, BinaryOp.rem],
      (op.apply store (.int a) (.int b) = .error .divisionByZero ↔ b = 0) ∧
      ∀ e, op.apply store (.int a) (.int b) = .error e → e = .divisionByZero) ∧
    (b ≠ 0 → ∃ q r p,
      BinaryOp.div.apply store (.int a) (.int b) = .ok (.int q) ∧
      BinaryOp.rem.apply store (.int a) (.int b) = .ok (.int r) ∧
      Wraps (a.toInt.tdiv b.toInt) q ∧
      (q.toInt ≠ a.toInt.tdiv b.toInt ↔ a = Int64.minValue ∧ b = -1) ∧
      (a = Int64.minValue ∧ b = -1 → q = Int64.minValue) ∧
      r.toInt = a.toInt.tmod b.toInt ∧
      r.toInt.natAbs < b.toInt.natAbs ∧ (r.toInt = 0 ∨ r.toInt.sign = a.toInt.sign) ∧
      BinaryOp.mul.apply store (.int q) (.int b) = .ok (.int p) ∧
      BinaryOp.add.apply store (.int p) (.int r) = .ok (.int a)) := by
  have wrapping (o : WrappingOp) : ∃ c, o.op.apply store (.int a) (.int b) = .ok (.int c) ∧
      Wraps (o.exact a.toInt b.toInt) c :=
    ⟨_, o.apply_op store a b, WrappingOp.wraps_word (wraps_toInt a) (wraps_toInt b)⟩
  refine ⟨⟨-a, rfl, wraps_neg (wraps_toInt a)⟩, wrapping .add, wrapping .sub, wrapping .mul, ?_,
    fun nonzero => ?_⟩
  · intro op member
    by_cases zero : b = 0
    · have refused : op.apply store (.int a) (.int b) = .error .divisionByZero := by
        simp only [List.mem_cons, List.not_mem_nil, or_false] at member
        rcases member with rfl | rfl <;> exact if_pos zero
      refine ⟨⟨fun _ => zero, fun _ => refused⟩, fun e failed => ?_⟩
      rw [refused] at failed
      exact (Except.error.inj failed).symm
    · have given : ∃ c, op.apply store (.int a) (.int b) = .ok (.int c) := by
        simp only [List.mem_cons, List.not_mem_nil, or_false] at member
        rcases member with rfl | rfl
        · exact ⟨_, apply_div_of_ne_zero store a zero⟩
        · exact ⟨_, apply_rem_of_ne_zero store a zero⟩
      obtain ⟨c, given⟩ := given
      rw [given]
      exact ⟨⟨nofun, fun here => absurd here zero⟩, nofun⟩
  · have bounds := toInt_mod_bounds a nonzero
    refine ⟨a / b, a % b, a / b * b, apply_div_of_ne_zero store a nonzero,
      apply_rem_of_ne_zero store a nonzero, wraps_of_bmod (Int64.toInt_div a b), toInt_div_ne_iff,
      ?_, Int64.toInt_mod a b, bounds.1, bounds.2, rfl, ?_⟩
    · rintro ⟨rfl, rfl⟩
      exact Int64.minValue_div_neg_one
    · have made := WrappingOp.apply_op store .add (a / b * b) (a % b)
      rw [show WrappingOp.word .add (a / b * b) (a % b) = a from div_mul_add_mod a b] at made
      exact made

end ControlStash
