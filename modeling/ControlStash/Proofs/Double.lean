import Mathlib
import ControlStash.Json.Token

/-!
# Doubles that are read from text

A number in a text is read as a significand, which is scaled by a power of ten with one
multiplication or division at a time. Whatever the number, the double that comes out of it is
finite: a product out of range is refused, and a quotient by ten or more is in range, even if
rounding carries it up by one binary place.

The first half of the module is about doubles alone. A double is *in range* (`InRange`) if its
exponent is one that its bits can hold; finite doubles unpack to such values, and such values are
packed into finite doubles.
-/

namespace ControlStash.Double

open Float.Model (Format UnpackedFloat totalExponent)
open Float.Model.UnpackedFloat

/-- The greatest binary exponent of a double whose mantissa is an integer of 53 bits. -/
abbrev maxExponent : Int := 971

/-- A value that is no infinity and whose exponent a double can hold. -/
def InRange : UnpackedFloat → Prop
  | .notANumber => False
  | .infinity _ => False
  | .zero _ => True
  | .finite _ _ e _ => e ≤ maxExponent

/-! ## Packing -/

/-- Whether bits are those of a finite double is told by their exponent field. -/
theorem isFinite_unpack {bits : BitVec 64}
    (ordinary : @unpackExponent Format.binary64 bits ≠ -1#_) :
    (unpack Format.binary64 bits).isFinite = true := by
  unfold unpack
  simp only [if_neg ordinary]
  split
  · split <;> rfl
  · rfl

theorem isNaN_unpack {bits : BitVec 64}
    (empty : @unpackMantissa Format.binary64 bits = 0) :
    (unpack Format.binary64 bits).isNaN = false := by
  unfold unpack
  simp only [empty]
  split
  · rfl
  · split <;> rfl

/-- A value in range is packed into a finite double. -/
theorem isFinite_unpack_pack {f : UnpackedFloat} (inRange : InRange f) :
    (unpack Format.binary64 (pack Format.binary64 f)).isFinite = true := by
  refine isFinite_unpack ?_
  fun_cases pack Format.binary64 f with
  | case1 | case2 => exact inRange.elim
  | case3 s => simp [packedZero]
  | case4 s m e positive biased tooLarge =>
    have small : e ≤ 971 := inRange
    have field : biased = (e + (1023 : Nat) + (52 : Nat)).toNat := rfl
    have tooLarge : 2 ^ 11 ≤ biased + 1 := tooLarge
    omega
  | case5 s m e positive bits biased fits normal =>
    have fits : ¬ 2 ^ 11 ≤ biased + 1 := fits
    rw [unpackExponent_packComponents]
    intro full
    have full := congrArg BitVec.toNat full
    simp only [BitVec.toNat_ofNat, BitVec.neg_one_eq_allOnes, BitVec.toNat_allOnes] at full
    omega
  | case6 s m e positive bits biased fits subnormal =>
    rw [unpackExponent_packComponents]
    decide

/-- A value that is a number is packed into a double that is a number. -/
theorem isNaN_unpack_pack {f : UnpackedFloat} (number : f.isNaN = false) :
    (unpack Format.binary64 (pack Format.binary64 f)).isNaN = false := by
  cases f with
  | notANumber => cases number
  | infinity s => exact isNaN_unpack (by simp [pack, packedInfinity])
  | zero s => exact isNaN_unpack (by simp [pack, packedZero])
  | finite s m e positive =>
    by_cases inRange : e ≤ 971
    · have finite := isFinite_unpack_pack (f := .finite s m e positive) inRange
      revert finite
      cases unpack Format.binary64 (pack Format.binary64 (.finite s m e positive)) <;>
        simp [isFinite, isNaN]
    · refine isNaN_unpack ?_
      have tooLarge : 2 ^ 11 ≤ (e + (1023 : Nat) + (52 : Nat)).toNat + 1 := by omega
      have infinite : pack Format.binary64 (.finite s m e positive) =
          packedInfinity Format.binary64 s := if_pos tooLarge
      rw [infinite]
      simp [packedInfinity]

/-- The mantissa of a double has at most 53 bits, and its exponent is in range. -/
theorem bounds_of_unpack {bits : BitVec 64} {s : Sign} {m : Nat} {e : Int} {positive : 0 < m}
    (unpacked : unpack Format.binary64 bits = .finite s m e positive) :
    m.log2 ≤ 52 ∧ e ≤ 971 := by
  have field := (@unpackExponent Format.binary64 bits).isLt
  have fraction := (@unpackMantissa Format.binary64 bits).isLt
  revert unpacked
  fun_cases unpack Format.binary64 bits with
  | case1 | case2 | case3 => nofun
  | case4 mantissa exponent value sign bit ordinary zero nonzero =>
    intro unpacked
    injection unpacked with _ mantissa_eq value_eq
    have bound : mantissa.toNat < 2 ^ 52 := fraction
    have field : exponent.toNat = 0 := congrArg BitVec.toNat zero
    have biased : value = (exponent.toNat : Int) - ((1023 : Nat) + (52 : Nat)) := rfl
    rw [← mantissa_eq, ← value_eq]
    exact ⟨Nat.le_of_lt_succ ((Nat.log2_lt (by omega)).mpr (by omega)), by omega⟩
  | case5 mantissa exponent value sign bit ordinary nonzero =>
    intro unpacked
    injection unpacked with _ mantissa_eq value_eq
    have bound : (1#1 ++ mantissa).toNat < 2 ^ 53 := (1#1 ++ mantissa).isLt
    have field : exponent.toNat ≠ 2047 := fun full => ordinary (BitVec.eq_of_toNat_eq full)
    have biased : value = (exponent.toNat : Int) - ((1023 : Nat) + (52 : Nat)) := rfl
    have below : exponent.toNat < 2 ^ 11 := exponent.isLt
    rw [← mantissa_eq, ← value_eq]
    exact ⟨Nat.le_of_lt_succ ((Nat.log2_lt (by omega)).mpr bound), by omega⟩

/-! ## Rounding -/

theorem mantissa_shiftRight (em : ExtendedMantissa) (n : Nat) :
    (em >>> n).mantissa = em.mantissa / 2 ^ n := by
  induction n with
  | zero => simp [HShiftRight.hShiftRight, Nat.repeat]
  | succ n ih =>
    show (ExtendedMantissa.shiftRightOne (em >>> n)).mantissa = _
    simp only [ExtendedMantissa.shiftRightOne, ih, Nat.div_div_eq_div_mul, Nat.pow_succ]

theorem mantissa_ofMantissaAndAccuracy (m : Nat) (accuracy : Accuracy) :
    (ExtendedMantissa.ofMantissaAndAccuracy m accuracy).mantissa = m := by
  cases accuracy with
  | exact => rfl
  | inexact order => cases order <;> rfl

theorem roundedMantissa_le (em : ExtendedMantissa) : em.roundedMantissa ≤ em.mantissa + 1 := by
  obtain ⟨m, round, sticky⟩ := em
  cases round <;> cases sticky <;>
    simp [ExtendedMantissa.roundedMantissa, ExtendedMantissa.accuracy, Accuracy.roundToNearestEven]
  omega

theorem le_roundedMantissa (em : ExtendedMantissa) : em.mantissa ≤ em.roundedMantissa := by
  obtain ⟨m, round, sticky⟩ := em
  cases round <;> cases sticky <;>
    simp [ExtendedMantissa.roundedMantissa, ExtendedMantissa.accuracy, Accuracy.roundToNearestEven]

theorem targetExponent_binary64 (t : Int) :
    Format.binary64.targetExponent t = max (t - 53) (-1074) := rfl

theorem log2_le_log2 {m n : Nat} (le : m ≤ n) : m.log2 ≤ n.log2 := by
  rw [Nat.log2_eq_log_two, Nat.log2_eq_log_two]
  exact Nat.log_mono_right le

theorem log2_div_two_pow (m n : Nat) : (m / 2 ^ n).log2 = m.log2 - n := by
  rw [Nat.log2_eq_log_two, Nat.log2_eq_log_two, Nat.log_div_base_pow]

theorem log2_shiftLeft_le (m k : Nat) : (m <<< k).log2 ≤ m.log2 + k := by
  have back := log2_div_two_pow (m <<< k) k
  rw [Nat.shiftLeft_eq, Nat.mul_div_cancel _ (Nat.two_pow_pos k), ← Nat.shiftLeft_eq] at back
  omega

theorem log2_succ_le (m : Nat) : (m + 1).log2 ≤ m.log2 + 1 := by
  rw [← Nat.lt_succ_iff, Nat.log2_lt (Nat.succ_ne_zero m)]
  have below := @Nat.lt_log2_self m
  calc m + 1 ≤ 2 ^ (m.log2 + 1) := below
    _ < 2 ^ (m.log2 + 1 + 1) := Nat.pow_lt_pow_right (by decide) (Nat.lt_succ_self _)

theorem exponent_shiftToTargetExponent (m : Nat) (e : Int) (accuracy : Accuracy) :
    (shiftToTargetExponent Format.binary64 m e accuracy).2 =
      max e (max (totalExponent m e - 53) (-1074)) := by
  unfold shiftToTargetExponent shiftToExponent
  rw [targetExponent_binary64]
  dsimp only
  omega

theorem log2_shiftToTargetExponent (m : Nat) (e : Int) (accuracy : Accuracy) :
    (shiftToTargetExponent Format.binary64 m e accuracy).1.mantissa.log2 =
      m.log2 - (max (totalExponent m e - 53) (-1074) - e).toNat := by
  unfold shiftToTargetExponent shiftToExponent
  rw [targetExponent_binary64, mantissa_shiftRight, mantissa_ofMantissaAndAccuracy,
    log2_div_two_pow]

/-- Rounding may carry the mantissa up by one binary place. -/
theorem log2_roundedMantissa_le (m : Nat) (e : Int) (accuracy : Accuracy) :
    (shiftToTargetExponent Format.binary64 m e accuracy).1.roundedMantissa.log2 ≤
      m.log2 - (max (totalExponent m e - 53) (-1074) - e).toNat + 1 := by
  calc (shiftToTargetExponent Format.binary64 m e accuracy).1.roundedMantissa.log2
      ≤ ((shiftToTargetExponent Format.binary64 m e accuracy).1.mantissa + 1).log2 :=
        log2_le_log2 (roundedMantissa_le _)
    _ ≤ (shiftToTargetExponent Format.binary64 m e accuracy).1.mantissa.log2 + 1 := log2_succ_le _
    _ = m.log2 - (max (totalExponent m e - 53) (-1074) - e).toNat + 1 := by
        rw [log2_shiftToTargetExponent]

/-- Rounding stays in range if there is room for one more binary place. -/
theorem inRange_roundWithAccuracy (s : Sign) {m : Nat} {e : Int} (accuracy : Accuracy)
    (small : totalExponent m e ≤ 1023) (fine : e ≤ 970) :
    InRange (roundWithAccuracy Format.binary64 s m e accuracy) := by
  have carried := log2_roundedMantissa_le m e accuracy
  have first := exponent_shiftToTargetExponent m e accuracy
  unfold roundWithAccuracy
  generalize shiftToTargetExponent Format.binary64 m e accuracy = once at carried first ⊢
  have second := exponent_shiftToTargetExponent once.1.roundedMantissa once.2 .exact
  dsimp only
  generalize shiftToTargetExponent Format.binary64 once.1.roundedMantissa once.2 .exact = twice
    at second ⊢
  split
  · trivial
  · show twice.2 ≤ (971 : Int)
    unfold totalExponent at *
    omega

/-! ## Arithmetic -/

/-- The value that a double unpacks to. -/
def value (x : Float) : UnpackedFloat :=
  x.toModel.unpack

theorem isFinite_of_value {x : Float} (number : (value x).isNaN = false)
    (bounded : x.isInf = false) : x.isFinite = true := by
  have bounded : (value x).isInf = false := bounded
  show (value x).isFinite = true
  revert number bounded
  cases value x <;> simp [isNaN, isInf, isFinite]

theorem isFinite_neg {x : Float} (finite : x.isFinite = true) : (-x).isFinite = true := by
  have finite : (value x).isFinite = true := finite
  refine isFinite_unpack_pack (f := (value x).neg) ?_
  cases unpacked : value x with
  | notANumber | infinity => rw [unpacked] at finite; cases finite
  | zero s => trivial
  | finite s m e positive => exact (bounds_of_unpack unpacked).2

/-- An integer of 64 bits is far from the end of the range. -/
theorem inRange_round (s : Sign) {m : Nat} (bound : m < 2 ^ 64) :
    InRange (UnpackedFloat.round Format.binary64 s m 0) := by
  have places : m.log2 ≤ 64 :=
    calc m.log2 ≤ (2 ^ 64).log2 := log2_le_log2 (Nat.le_of_lt bound)
      _ = 64 := Nat.log2_two_pow
  unfold UnpackedFloat.round decreaseExponent
  rw [targetExponent_binary64]
  dsimp only
  generalize (0 - max (totalExponent m 0 - 53) (-1074) : Int).toNat = k
  have shifted := log2_shiftLeft_le m k
  refine inRange_roundWithAccuracy s .exact ?_ (by omega)
  unfold totalExponent
  omega

theorem isFinite_toFloat (n : UInt64) : n.toFloat.isFinite = true := by
  refine isFinite_unpack_pack (f := ofUInt64 Format.binary64 n) ?_
  have bound : n.toNat < 2 ^ 64 := n.toNat_lt
  unfold ofUInt64 ofNat ofInt UnpackedFloat.normalize
  split
  · exact inRange_round _ (by omega)
  · trivial
  · exact inRange_round _ (by omega)

theorem isNaN_mul {a b : UnpackedFloat} (left : a.isFinite = true) (right : b.isFinite = true) :
    (a.mul Format.binary64 b).isNaN = false := by
  cases a with
  | notANumber | infinity => cases left
  | zero s =>
    cases b with
    | notANumber | infinity => cases right
    | zero | finite => rfl
  | finite s m e positive =>
    cases b with
    | notANumber | infinity => cases right
    | zero => rfl
    | finite t n d positive' =>
      unfold mul roundWithAccuracy
      dsimp only
      split <;> rfl

/-- A product of finite doubles that is not out of range is finite. -/
theorem isFinite_mul {x y : Float} (left : x.isFinite = true) (right : y.isFinite = true)
    (bounded : (x * y).isInf = false) : (x * y).isFinite = true :=
  isFinite_of_value (isNaN_unpack_pack (isNaN_mul left right)) bounded

/-- Whether a double is at least two. -/
def atLeastTwo (y : Float) : Bool :=
  match value y with
  | .finite _ m e _ => 2 ≤ totalExponent m e
  | _ => false

/-- A quotient by at least two leaves room for a binary place. -/
theorem divCore_bounds {m n : Nat} {e d : Int} (bits : m.log2 ≤ 52) (exponent : e ≤ 971)
    (nonzero : n ≠ 0) (large : 2 ≤ totalExponent n d) :
    totalExponent (divCore Format.binary64 m e n d).1
        (divCore Format.binary64 m e n d).2.1 ≤ 1023 ∧
      (divCore Format.binary64 m e n d).2.1 ≤ 970 := by
  unfold divCore
  rw [targetExponent_binary64]
  dsimp only
  generalize target :
    min (e - d) (max (totalExponent m e - totalExponent n d - 53) (-1074)) = t
  generalize places : (e - d - t).toNat = k
  have quotient : (m <<< k / n).log2 ≤ m.log2 + k - n.log2 :=
    calc (m <<< k / n).log2 ≤ (m <<< k / 2 ^ n.log2).log2 :=
          log2_le_log2 (Nat.div_le_div_left (Nat.log2_self_le nonzero) (Nat.two_pow_pos _))
      _ = (m <<< k).log2 - n.log2 := log2_div_two_pow _ _
      _ ≤ m.log2 + k - n.log2 := Nat.sub_le_sub_right (log2_shiftLeft_le m k) _
  unfold totalExponent at *
  omega

/-- A quotient of a finite double by at least two is finite. -/
theorem isFinite_div {x y : Float} (finite : x.isFinite = true) (large : atLeastTwo y = true) :
    (x / y).isFinite = true := by
  refine isFinite_unpack_pack (f := (value x).div Format.binary64 (value y)) ?_
  have finite : (value x).isFinite = true := finite
  unfold atLeastTwo at large
  split at large
  · next t n d positive divisor =>
    rw [divisor]
    cases dividend : value x with
    | notANumber | infinity => rw [dividend] at finite; cases finite
    | zero s => trivial
    | finite s m e positive' =>
      obtain ⟨bits, exponent⟩ := bounds_of_unpack dividend
      obtain ⟨total, fine⟩ := divCore_bounds bits exponent (Nat.ne_of_gt positive)
        (of_decide_eq_true large)
      exact inRange_roundWithAccuracy _ _ total fine
  · cases large

/-! ## Powers of ten -/

theorem toNat_one_append (fraction : BitVec 52) :
    (1#1 ++ fraction).toNat = 2 ^ 52 + fraction.toNat := by
  rw [BitVec.toNat_append, ← Nat.shiftLeft_add_eq_or_of_lt fraction.isLt]
  simp

theorem log2_one_append (fraction : BitVec 52) : (1#1 ++ fraction).toNat.log2 = 52 := by
  have bound := fraction.isLt
  rw [Nat.log2_eq_iff (by rw [toNat_one_append]; omega), toNat_one_append]
  omega

/-- The mantissa of a normal double has its implicit bit on top. -/
theorem unpack_normal (bits : BitVec 64)
    (ordinary : @unpackExponent Format.binary64 bits ≠ -1#_)
    (nonzero : @unpackExponent Format.binary64 bits ≠ 0#_) :
    ∃ s m positive, unpack Format.binary64 bits =
      .finite s m ((@unpackExponent Format.binary64 bits).toNat - 1075 : Int) positive ∧
      m.log2 = 52 :=
  ⟨_, _, _, (if_neg ordinary).trans (if_neg nonzero), log2_one_append _⟩

/-- A mantissa of 53 bits is packed with its exponent. -/
theorem unpackExponent_pack (s : Sign) {m : Nat} {e : Int} (positive : 0 < m)
    (full : m.log2 = 52) (low : -1074 ≤ e) (high : e ≤ 971) :
    ((unpackExponent (pack Format.binary64 (.finite s m e positive))).toNat : Int) = e + 1075 := by
  have fits : ¬ 2 ^ 11 ≤ (e + (1023 : Nat) + (52 : Nat)).toNat + 1 := by omega
  have packed : pack Format.binary64 (.finite s m e positive) =
      packComponents Format.binary64 s (BitVec.ofNat 11 (e + (1023 : Nat) + (52 : Nat)).toNat)
        (BitVec.ofNat 52 m) :=
    (if_neg fits).trans (if_pos (congrArg (· + 1) full))
  rw [packed, unpackExponent_packComponents, BitVec.toNat_ofNat]
  show ((_ % 2 ^ 11 : Nat) : Int) = _
  omega

/-- A value with a mantissa of 53 bits that is in range comes back with the exponent it had. -/
theorem unpack_pack_normal (s : Sign) {m : Nat} {e : Int} (positive : 0 < m)
    (full : m.log2 = 52) (low : -1074 ≤ e) (high : e ≤ 971) :
    ∃ t n positive', unpack Format.binary64 (pack Format.binary64 (.finite s m e positive)) =
      .finite t n e positive' ∧ n.log2 = 52 := by
  have field := unpackExponent_pack s positive full low high
  obtain ⟨t, n, positive', unpacked, bits⟩ := unpack_normal
    (pack Format.binary64 (.finite s m e positive))
    (fun ones => by rw [ones] at field; change ((2047 : Nat) : Int) = _ at field; omega)
    (fun zero => by rw [zero] at field; change ((0 : Nat) : Int) = _ at field; omega)
  refine ⟨t, n, positive', ?_, bits⟩
  rw [unpacked]
  congr 1
  omega

/-- Rounding a mantissa of 53 bits or more to a normal double does not take it below a power
of two. -/
theorem roundWithAccuracy_normal (s : Sign) {m : Nat} {e : Int} (accuracy : Accuracy)
    (wide : 52 ≤ m.log2) (low : -1021 ≤ totalExponent m e) :
    ∃ r d positive, roundWithAccuracy Format.binary64 s m e accuracy = .finite s r d positive ∧
      r.log2 = 52 ∧ totalExponent m e - 53 ≤ d := by
  have carried := log2_roundedMantissa_le m e accuracy
  have kept := log2_le_log2
    (le_roundedMantissa (shiftToTargetExponent Format.binary64 m e accuracy).1)
  have first := exponent_shiftToTargetExponent m e accuracy
  rw [log2_shiftToTargetExponent] at kept
  unfold roundWithAccuracy
  generalize shiftToTargetExponent Format.binary64 m e accuracy = once at carried kept first ⊢
  have second := exponent_shiftToTargetExponent once.1.roundedMantissa once.2 .exact
  have bits := log2_shiftToTargetExponent once.1.roundedMantissa once.2 .exact
  dsimp only
  generalize shiftToTargetExponent Format.binary64 once.1.roundedMantissa once.2 .exact = twice
    at second bits ⊢
  unfold totalExponent at *
  have full : twice.1.mantissa.log2 = 52 := by omega
  have nonzero : twice.1.mantissa ≠ 0 := by
    intro zero
    rw [zero] at full
    cases full
  exact ⟨_, _, _, dif_neg nonzero, full, by omega⟩

/-- A power of ten that is rounded is the product of a significand with a power of ten. -/
theorem ofScientific_eq {k : Nat} (large : 23 ≤ k) (bound : k ≤ 308) :
    (Float.ofScientific 1 false k).toModel =
      .pack (roundWithAccuracy Format.binary64 .positive (2 ^ 53 * 10 ^ k) (-53) .exact) := by
  have slow : ¬ (1 < 2 ^ 53 ∧ k ≤ 22) := by omega
  have below : ¬ (k : Int) > 2 ^ 11 := by omega
  have above : ¬ (k : Int) < -(2 ^ 11 + (Nat.log2 1 : Nat)) := by omega
  have up : 0 ≤ (k : Int) := by omega
  unfold Float.ofScientific
  rw [dif_neg slow]
  show Float.Model.pack (Float.Model.UnpackedFloat.ofScientific Format.binary64 1 (k : Int)) = _
  refine congrArg Float.Model.pack ?_
  unfold Float.Model.UnpackedFloat.ofScientific
  rw [dif_neg (by decide : ¬ 1 = 0), if_neg below, if_neg above, if_pos up]
  rfl

/-- The bits of the powers of ten that are rounded and are not close to the end of the range. -/
theorem log2_power_bounds {k : Nat} (large : 23 ≤ k) (inside : k < 308) :
    76 ≤ (10 ^ k).log2 ∧ (10 ^ k).log2 ≤ 1019 := by
  have lowest : (10 ^ 23).log2 = 76 := by decide +kernel
  have highest : (10 ^ 153 * 10 ^ 154).log2 = 1019 := by decide +kernel
  have lower : 10 ^ 23 ≤ 10 ^ k := Nat.pow_le_pow_right (by decide) large
  have upper : 10 ^ k ≤ 10 ^ 153 * 10 ^ 154 :=
    (Nat.pow_le_pow_right (by decide) (by omega)).trans_eq (Nat.pow_add 10 153 154)
  exact ⟨lowest.symm.trans_le (log2_le_log2 lower), (log2_le_log2 upper).trans_eq highest⟩

/-- A power of ten that is rounded is not taken below two. -/
theorem atLeastTwo_rounded {k : Nat} (large : 23 ≤ k) (inside : k < 308) :
    atLeastTwo (Float.ofScientific 1 false k) = true := by
  obtain ⟨low, high⟩ := log2_power_bounds large inside
  have scaled := log2_div_two_pow (2 ^ 53 * 10 ^ k) 53
  rw [Nat.mul_div_cancel_left _ (by decide)] at scaled
  have total : totalExponent (2 ^ 53 * 10 ^ k) (-53) = (10 ^ k).log2 + 1 := by
    unfold totalExponent
    omega
  obtain ⟨r, d, positive, rounded, full, least⟩ := roundWithAccuracy_normal .positive
    (m := 2 ^ 53 * 10 ^ k) (e := -53) .exact (by omega) (by omega)
  have inRange := inRange_roundWithAccuracy .positive (m := 2 ^ 53 * 10 ^ k) (e := -53) .exact
    (by omega) (by omega)
  rw [rounded] at inRange
  have inRange : d ≤ 971 := inRange
  obtain ⟨s, n, positive', unpacked, bits⟩ :=
    unpack_pack_normal .positive positive full (by omega) inRange
  have value_eq : value (Float.ofScientific 1 false k) = .finite s n d positive' := by
    unfold value
    rw [ofScientific_eq large (Nat.le_of_lt inside), rounded]
    exact unpacked
  unfold atLeastTwo
  rw [value_eq]
  refine decide_eq_true ?_
  unfold totalExponent
  omega

/-- The powers of ten that a number is scaled by. Up to `10 ^ 22` they are exact, and above they are
rounded once. -/
theorem atLeastTwo_power {k : Nat} (positive : k ≠ 0) (bound : k ≤ 308) :
    atLeastTwo (Float.ofScientific 1 false k) = true := by
  have table : ∀ k < 23, k ≠ 0 → atLeastTwo (Float.ofScientific 1 false k) = true := by
    decide +kernel
  rcases Nat.lt_or_ge k 23 with small | large
  · exact table k small positive
  rcases Nat.lt_or_eq_of_le bound with inside | rfl
  · exact atLeastTwo_rounded large inside
  · decide +kernel

theorem isFinite_of_atLeastTwo {y : Float} (large : atLeastTwo y = true) : y.isFinite = true := by
  show (value y).isFinite = true
  unfold atLeastTwo at large
  split at large
  · next unpacked => rw [unpacked]; rfl
  · cases large

theorem isFinite_power {k : Nat} (bound : k ≤ 308) :
    (Float.ofScientific 1 false k).isFinite = true := by
  by_cases zero : k = 0
  · subst zero
    decide +kernel
  · exact isFinite_of_atLeastTwo (atLeastTwo_power zero bound)

/-- Division by a power of ten keeps a double finite. -/
theorem isFinite_div_power {x : Float} {k : Nat} (finite : x.isFinite = true) (positive : k ≠ 0)
    (bound : k ≤ 308) : (x / Float.ofScientific 1 false k).isFinite = true :=
  isFinite_div finite (atLeastTwo_power positive bound)

end ControlStash.Double

namespace ControlStash.Json

open Double

/-! ## Numbers -/

/-- Scaling by a power of ten gives a finite double or none. -/
theorem isFinite_scale? {x y : Float} {exponent : Int} {fuel : Nat} (finite : x.isFinite = true)
    (scaled : scale? x exponent fuel = some y) : y.isFinite = true := by
  fun_induction scale? x exponent fuel with
  | case1 => exact Option.some.inj scaled ▸ finite
  | case2 => cases scaled
  | case3 x exponent fuel near power up product bounded =>
    rw [← Option.some.inj scaled]
    exact isFinite_mul finite (isFinite_power near) (Bool.not_eq_true _ ▸ bounded)
  | case4 x exponent fuel near power down =>
    rw [← Option.some.inj scaled]
    exact isFinite_div_power finite (by omega) near
  | case5 => exact Option.some.inj scaled ▸ finite
  | case6 => cases scaled
  | case7 x exponent fuel far nonzero down ih =>
    exact ih (isFinite_div_power finite (by decide) (by decide)) scaled

/-- Whether a number, if it is a double, is a finite one. -/
def Number.isFinite : Number → Bool
  | .double x => x.isFinite
  | _ => true

theorem isFinite_double? {w : Written} {x : Float} (read : w.double? = some x) :
    x.isFinite = true := by
  obtain ⟨y, magnitude, rfl⟩ := Option.map_eq_some_iff.mp read
  have finite : y.isFinite = true := by
    split at magnitude
    · exact isFinite_scale? (isFinite_toFloat _) magnitude
    · dsimp only at magnitude
      split at magnitude
      · split at magnitude
        · cases magnitude
        · rw [← Option.some.inj magnitude]
          decide +kernel
      · exact isFinite_scale? (isFinite_toFloat _) magnitude
  split
  · exact isFinite_neg finite
  · exact finite

theorem isFinite_number? {w : Written} {n : Number} (read : w.number? = some n) :
    n.isFinite = true := by
  have double : w.double?.map .double = some n → n.isFinite = true := by
    intro read
    obtain ⟨x, magnitude, rfl⟩ := Option.map_eq_some_iff.mp read
    exact isFinite_double? magnitude
  unfold Written.number? at read
  split at read
  · dsimp only at read
    split at read
    · exact double read
    · split at read
      · rw [← Option.some.inj read]
        rfl
      · split at read
        · rw [← Option.some.inj read]
          exact isFinite_neg (isFinite_toFloat _)
        · rw [← Option.some.inj read]
          rfl
  · exact double read

theorem isFinite_scanUnsigned? {negative : Bool} {cs rest : List Char} {n : Number}
    (read : scanUnsigned? negative cs = some (n, rest)) : n.isFinite = true := by
  unfold scanUnsigned? at read
  split at read
  · cases read
  · split at read
    · cases read
    · split at read
      · cases read
      · obtain ⟨m, number, eq⟩ := Option.map_eq_some_iff.mp read
        obtain ⟨rfl, -⟩ := Prod.mk.inj eq
        exact isFinite_number? number

theorem isFinite_scanNumber? {cs rest : List Char} {n : Number}
    (read : scanNumber? cs = some (n, rest)) : n.isFinite = true := by
  unfold scanNumber? at read
  split at read <;> exact isFinite_scanUnsigned? read

theorem isFinite_first? {cs rest : List Char} {n : Number}
    (read : Token.first? cs = some (.number n, rest)) : n.isFinite = true := by
  revert read
  fun_cases Token.first? cs with
  | case7 cs =>
    intro read
    obtain ⟨_, -, eq⟩ := Option.map_eq_some_iff.mp read
    cases eq
  | case11 =>
    intro read
    obtain ⟨_, number, eq⟩ := Option.map_eq_some_iff.mp read
    cases eq
    exact isFinite_scanNumber? number
  | _ =>
    intro read
    cases read

/-- Every double among the tokens of a text is finite. -/
theorem isFinite_scan {cs : List Char} {n : Number} (among : .number n ∈ Token.scan cs) :
    n.isFinite = true := by
  rw [Token.scan_eq] at among
  split at among
  · cases among
  · next c cs' solid =>
    split at among
    · cases among with
      | tail _ among => cases among
    · next token rest first =>
      have shorter : rest.length < cs.length :=
        calc rest.length < (c :: cs').length := Token.length_of_first? first
          _ ≤ cs.length := solid ▸ length_dropWhile_le isBlank cs
      cases among with
      | head => exact isFinite_first? first
      | tail _ among => exact isFinite_scan among
termination_by cs.length

end ControlStash.Json
