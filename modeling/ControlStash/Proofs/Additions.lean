import Mathlib
import ControlStash.Proofs.Ledger
import ControlStash.Proofs.Threshold

/-!
# Additions to the counter

What one call to add after the other makes of the counter of a wait group when nothing else moves it.
A call is refused exactly when it would bring the counter below zero, and then it changes nothing.
The counter is the sum of the accepted deltas as long as that sum has stayed within the range of
integers. An addition that leads beyond the range stops at its upper end, and what it is cut off by
is lost for good (`counter_of_additions`): a counter that comes back from there reaches zero before
everything that was added has been taken off again (`additions_cut_off`).
-/

namespace ControlStash

namespace WaitGroup

variable {group : WaitGroup} {delta : Int64}

/-! ## One call -/

/-- The group after a call to add, which leaves it as it was if it is refused. -/
def attempt (group : WaitGroup) (delta : Int64) : WaitGroup :=
  (group.add delta).toOption.getD group

/-- A call is not refused. -/
def accepts (group : WaitGroup) (delta : Int64) : Bool :=
  (group.add delta).isOk

/-- By how much a call is cut off at the upper end of the range. -/
def excess (group : WaitGroup) (delta : Int64) : Int :=
  max 0 (group.counter.toInt + delta.toInt - Int64.maxValue.toInt)

theorem attempt_of_ok {group' : WaitGroup} (added : group.add delta = .ok group') :
    group.attempt delta = group' := by
  rw [attempt, added]
  rfl

theorem attempt_of_error {refused : Int64} (added : group.add delta = .error refused) :
    group.attempt delta = group := by
  rw [attempt, added]
  rfl

theorem excess_nonneg (group : WaitGroup) (delta : Int64) : 0 ≤ group.excess delta :=
  Int.le_max_left _ _

/-- Starting from a counter that is not negative, only the upper end of the range can cut a sum
off. -/
theorem toInt_saturatingAdd_of_nonneg {a b : Int64} (nonneg : 0 ≤ a) :
    (saturatingAdd a b).toInt = min Int64.maxValue.toInt (a.toInt + b.toInt) := by
  have counted : 0 ≤ a.toInt := Int64.le_iff_toInt_le.mp nonneg
  have lowest : Int64.minValue.toInt ≤ b.toInt := Int64.minValue_le_toInt b
  have lower := Int64.toInt_minValue
  have upper := Int64.toInt_maxValue
  rw [toInt_saturatingAdd]
  omega

/-- A call is refused if it would bring the counter below zero. -/
theorem add_of_neg (nonneg : 0 ≤ group.counter)
    (below : group.counter.toInt + delta.toInt < 0) :
    ∃ refused, group.add delta = .error refused ∧
      refused.toInt = group.counter.toInt + delta.toInt := by
  have upper := Int64.toInt_maxValue
  have sum : (saturatingAdd group.counter delta).toInt = group.counter.toInt + delta.toInt := by
    rw [toInt_saturatingAdd_of_nonneg nonneg]
    omega
  have negative : saturatingAdd group.counter delta < 0 :=
    Int64.lt_iff_toInt_lt.mpr (sum ▸ below)
  exact ⟨_, if_pos negative, sum⟩

/-- Every other call is accepted. -/
theorem add_of_not_neg (nonneg : 0 ≤ group.counter)
    (above : ¬ group.counter.toInt + delta.toInt < 0) :
    ∃ group', group.add delta = .ok group' ∧ 0 ≤ group'.counter ∧
      group'.counter.toInt = min Int64.maxValue.toInt (group.counter.toInt + delta.toInt) := by
  have upper := Int64.toInt_maxValue
  have sum := toInt_saturatingAdd_of_nonneg (b := delta) nonneg
  have notNegative : ¬ saturatingAdd group.counter delta < 0 := by
    rw [Int64.lt_iff_toInt_lt, sum, Int64.toInt_zero]
    omega
  obtain ⟨group', added⟩ : ∃ group', group.add delta = .ok group' := by
    unfold add
    rw [if_neg notNegative]
    split <;> exact ⟨_, rfl⟩
  have described := added_of_add added
  exact ⟨group', added, described.nonneg, described.counter ▸ sum⟩

theorem accepts_iff (nonneg : 0 ≤ group.counter) :
    group.accepts delta = true ↔ ¬ group.counter.toInt + delta.toInt < 0 := by
  by_cases below : group.counter.toInt + delta.toInt < 0
  · obtain ⟨_, added, -⟩ := add_of_neg nonneg below
    simp [accepts, added, Except.isOk, Except.toBool, below]
  · obtain ⟨_, added, -⟩ := add_of_not_neg nonneg below
    simp [accepts, added, Except.isOk, Except.toBool, below]

theorem attempt_nonneg (nonneg : 0 ≤ group.counter) (delta : Int64) :
    0 ≤ (group.attempt delta).counter := by
  by_cases below : group.counter.toInt + delta.toInt < 0
  · obtain ⟨_, added, -⟩ := add_of_neg nonneg below
    exact (attempt_of_error added).symm ▸ nonneg
  · obtain ⟨_, added, nonneg', -⟩ := add_of_not_neg nonneg below
    exact (attempt_of_ok added).symm ▸ nonneg'

theorem counter_attempt (nonneg : 0 ≤ group.counter) :
    (group.attempt delta).counter.toInt =
      if group.counter.toInt + delta.toInt < 0 then group.counter.toInt
      else min Int64.maxValue.toInt (group.counter.toInt + delta.toInt) := by
  by_cases below : group.counter.toInt + delta.toInt < 0
  · obtain ⟨_, added, -⟩ := add_of_neg nonneg below
    rw [attempt_of_error added, if_pos below]
  · obtain ⟨_, added, -, counter⟩ := add_of_not_neg nonneg below
    rw [attempt_of_ok added, if_neg below, counter]

/-! ## A sequence of calls -/

/-- The group after one call after the other. -/
def addAll (group : WaitGroup) (deltas : List Int64) : WaitGroup :=
  deltas.foldl attempt group

/-- The deltas of the calls that are accepted. -/
def accepted (group : WaitGroup) : List Int64 → List Int64
  | [] => []
  | delta :: deltas =>
    if group.accepts delta then delta :: (group.attempt delta).accepted deltas
    else (group.attempt delta).accepted deltas

/-- What the accepted deltas come to, in integers without bounds. -/
def granted (group : WaitGroup) (deltas : List Int64) : Int :=
  ((group.accepted deltas).map Int64.toInt).sum

/-- By how much all calls together are cut off. -/
def lost (group : WaitGroup) : List Int64 → Int
  | [] => 0
  | delta :: deltas => group.excess delta + (group.attempt delta).lost deltas

@[simp]
theorem granted_nil : group.granted [] = 0 :=
  rfl

theorem granted_single :
    group.granted [delta] = if group.accepts delta then delta.toInt else 0 := by
  rw [granted, accepted]
  split <;> simp [accepted]

theorem granted_cons (deltas : List Int64) :
    group.granted (delta :: deltas) =
      group.granted [delta] + (group.attempt delta).granted deltas := by
  rw [granted_single, granted, accepted]
  split
  · rw [List.map_cons, List.sum_cons, granted]
  · rw [Int.zero_add, granted]

/-- What a call adds to the counter is what it is granted less what it is cut off by. -/
theorem counter_attempt_eq (nonneg : 0 ≤ group.counter) (delta : Int64) :
    (group.attempt delta).counter.toInt =
      group.counter.toInt + group.granted [delta] - group.excess delta := by
  have upper := Int64.toInt_maxValue
  simp only [counter_attempt nonneg, granted_single, accepts_iff nonneg, excess]
  split <;> omega

/-- A call that is cut off leaves the counter at the upper end of the range. -/
theorem counter_attempt_of_excess (nonneg : 0 ≤ group.counter) (cut : group.excess delta ≠ 0) :
    (group.attempt delta).counter.toInt = Int64.maxValue.toInt := by
  have upper := Int64.toInt_maxValue
  rw [excess] at cut
  rw [counter_attempt nonneg]
  split <;> omega

theorem addAll_nonneg (nonneg : 0 ≤ group.counter) (deltas : List Int64) :
    0 ≤ (group.addAll deltas).counter := by
  induction deltas generalizing group with
  | nil => exact nonneg
  | cons delta deltas ih => exact ih (attempt_nonneg nonneg delta)

/-- The counter is ahead by what has been granted less what has been lost. -/
theorem counter_addAll (nonneg : 0 ≤ group.counter) (deltas : List Int64) :
    (group.addAll deltas).counter.toInt =
      group.counter.toInt + group.granted deltas - group.lost deltas := by
  induction deltas generalizing group with
  | nil => simp [addAll, lost]
  | cons delta deltas ih =>
    calc ((group.attempt delta).addAll deltas).counter.toInt
        = (group.attempt delta).counter.toInt + (group.attempt delta).granted deltas -
            (group.attempt delta).lost deltas := ih (attempt_nonneg nonneg delta)
      _ = group.counter.toInt + group.granted (delta :: deltas) - group.lost (delta :: deltas) := by
        rw [counter_attempt_eq nonneg delta, granted_cons deltas, lost]
        omega

theorem lost_nonneg (group : WaitGroup) (deltas : List Int64) : 0 ≤ group.lost deltas := by
  induction deltas generalizing group with
  | nil => exact Int.le_refl 0
  | cons delta deltas ih => exact Int.add_nonneg (excess_nonneg group delta) (ih _)

/-- Nothing is lost exactly as long as what has been granted stays within the range. -/
theorem lost_eq_zero_iff (nonneg : 0 ≤ group.counter) (deltas : List Int64) :
    group.lost deltas = 0 ↔ ∀ earlier, earlier <+: deltas →
      group.counter.toInt + group.granted earlier ≤ Int64.maxValue.toInt := by
  have start (group : WaitGroup) :
      group.counter.toInt + group.granted [] ≤ Int64.maxValue.toInt := by
    rw [granted_nil, Int.add_zero]
    exact Int64.toInt_le _
  induction deltas generalizing group with
  | nil => exact ⟨fun _ _ early => List.prefix_nil.mp early ▸ start group, fun _ => rfl⟩
  | cons delta deltas ih =>
    have call := counter_attempt_eq nonneg delta
    have rest := ih (attempt_nonneg nonneg delta)
    have least := excess_nonneg group delta
    have leastRest := lost_nonneg (group.attempt delta) deltas
    rw [lost]
    constructor
    · intro none earlier early
      rcases List.prefix_cons_iff.mp early with rfl | ⟨later, rfl, early'⟩
      · exact start group
      · have within := rest.mp (by omega) later early'
        rw [granted_cons later]
        omega
    · intro within
      have whole : group.excess delta = 0 := by
        by_contra cut
        have full := counter_attempt_of_excess nonneg cut
        have first := within [delta] (List.cons_prefix_cons.mpr ⟨rfl, List.nil_prefix⟩)
        omega
      have none : (group.attempt delta).lost deltas = 0 := by
        refine rest.mpr fun earlier early => ?_
        have later := within (delta :: earlier) (List.cons_prefix_cons.mpr ⟨rfl, early⟩)
        rw [granted_cons earlier] at later
        omega
      omega

end WaitGroup

/-- The counter of a new wait group after a sequence of additions is what the accepted deltas come to
in integers without bounds, less what they were cut off by at the upper end of the range. Nothing is
cut off exactly as long as no sum of accepted deltas has left the range. One more call is refused if
and only if it would bring the counter below zero; the complaint then names the sum, and the group
stays as it is. Otherwise the counter goes to the sum or, at most, to the upper end of the range. A
program's call does to the group just this. -/
theorem counter_of_additions (deltas : List Int64) (delta : Int64) :
    let fresh : WaitGroup := {}
    let group := fresh.addAll deltas
    let sum := group.counter.toInt + delta.toInt
    group.counter.toInt = fresh.granted deltas - fresh.lost deltas ∧
    (fresh.lost deltas = 0 ↔
      ∀ earlier, earlier <+: deltas → fresh.granted earlier ≤ Int64.maxValue.toInt) ∧
    (if sum < 0 then
      (∃ refused, group.add delta = .error refused ∧ refused.toInt = sum) ∧
        fresh.addAll (deltas ++ [delta]) = group
    else
      ∃ group', group.add delta = .ok group' ∧ fresh.addAll (deltas ++ [delta]) = group' ∧
        group'.counter.toInt = min Int64.maxValue.toInt sum) ∧
    ∀ (role : Role) (shared : Shared),
      (Native.waitGroupAdd.call role { shared with group := group } [.int delta]).shared.group =
        fresh.addAll (deltas ++ [delta]) := by
  intro fresh group sum
  have zero : fresh.counter.toInt = 0 := rfl
  have begun : 0 ≤ fresh.counter := Int64.le_refl 0
  have nonneg : 0 ≤ group.counter := WaitGroup.addAll_nonneg begun deltas
  have next : fresh.addAll (deltas ++ [delta]) = group.attempt delta := by
    rw [WaitGroup.addAll, List.foldl_append]
    rfl
  refine ⟨?_, ?_, ?_, ?_⟩
  · rw [← Int.zero_add (fresh.granted deltas), ← zero]
    exact WaitGroup.counter_addAll begun deltas
  · have whole := WaitGroup.lost_eq_zero_iff begun deltas
    simp only [zero, Int.zero_add] at whole
    exact whole
  · rw [next]
    split
    · next below =>
      obtain ⟨refused, added, named⟩ := WaitGroup.add_of_neg nonneg below
      exact ⟨⟨refused, added, named⟩, WaitGroup.attempt_of_error added⟩
    · next above =>
      obtain ⟨group', added, -, counter⟩ := WaitGroup.add_of_not_neg nonneg above
      exact ⟨group', added, WaitGroup.attempt_of_ok added, counter⟩
  · intro role shared
    rw [next]
    unfold Native.call
    dsimp only
    cases added : group.add delta with
    | ok group' => exact (WaitGroup.attempt_of_ok added).symm
    | error refused => exact (WaitGroup.attempt_of_error added).symm

/-- All three calls are accepted and what they add is one more than what they take off. Yet the
counter is zero, and a fourth call that takes the one off again is refused. -/
theorem additions_cut_off :
    let fresh : WaitGroup := {}
    let deltas := [Int64.maxValue, 1, -Int64.maxValue]
    fresh.accepted deltas = deltas ∧ fresh.granted deltas = 1 ∧
      (fresh.addAll deltas).counter.toInt = 0 ∧
      ¬ (fresh.addAll deltas).counter.toInt = fresh.granted deltas ∧
      ¬ fresh.granted deltas + (-1 : Int64).toInt < 0 ∧
      (fresh.addAll deltas).accepts (-1) = false := by
  decide

end ControlStash
