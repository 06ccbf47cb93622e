import ControlStash.Proofs.Errand

/-!
# The books of the wait group

The wait group counts the goroutines that are running and those of them that wait, and notes whether
the main context waits or is done. A `Roster` has the stances of all contexts beside the group, and
`Roster.Books` says that the group's numbers are those of the stances. Each action of a world is a step
of its roster (`World.step_roster`), and each step keeps the books (`Roster.Books.step`), so the books
are right in every reachable world (`World.Accounted.reachable`).

A sleeper is awake once more signals have been given than when it last looked. `Roster.Alert` is what a
step has to keep of this: either it gives a signal, or it leaves the reason to sleep in place.
-/

namespace ControlStash

open WaitGroup (Deed Does)

/-! ## Operations on the group -/

namespace WaitGroup

theorem toInt_counter_finished {group : WaitGroup} (counted : 0 ≤ group.counter) :
    group.finished.counter.toInt = max (group.counter.toInt - 1) 0 := by
  have lower : 0 ≤ group.counter.toInt := Int64.le_iff_toInt_le.mp counted
  have upper := group.counter.toInt_lt
  have less : (group.counter - 1).toInt = group.counter.toInt - 1 := by
    rw [Int64.toInt_sub, Int64.toInt_one]
    exact Int.bmod_eq_of_le (by omega) (by omega)
  have chosen : group.finished.counter =
      if group.counter - 1 ≤ 0 then 0 else group.counter - 1 := rfl
  rw [chosen]
  split
  · next low =>
    have low := Int64.le_iff_toInt_le.mp low
    rw [less, Int64.toInt_zero] at low
    rw [Int64.toInt_zero]
    omega
  · next high =>
    have high := mt Int64.le_iff_toInt_le.mpr high
    rw [less, Int64.toInt_zero] at high
    rw [less]
    omega

/-- What a sum that is not refused leaves of the group. -/
structure Added (group : WaitGroup) (delta : Int64) (group' : WaitGroup) : Prop where
  running : group'.running = group.running
  blocked : group'.blocked = group.blocked
  mainWaiting : group'.mainWaiting = group.mainWaiting
  closed : group'.closed = group.closed
  counter : group'.counter = saturatingAdd group.counter delta
  nonneg : 0 ≤ group'.counter
  signals : group'.signals = group.signals + 1 ∨ group'.signals = group.signals ∧ 0 < group'.counter

theorem Added.signals_le {group group' : WaitGroup} {delta : Int64}
    (added : Added group delta group') : group.signals ≤ group'.signals := by
  rcases added.signals with more | ⟨same, -⟩ <;> omega

theorem added_of_add {group group' : WaitGroup} {delta : Int64}
    (added : group.add delta = .ok group') : Added group delta group' := by
  unfold add at added
  dsimp only at added
  split at added
  · cases added
  · next notBelow =>
    have nonneg : 0 ≤ saturatingAdd group.counter delta := Int64.not_lt.mp notBelow
    split at added
    · cases added
      exact ⟨rfl, rfl, rfl, rfl, rfl, nonneg, .inl rfl⟩
    · next nonzero =>
      cases added
      refine ⟨rfl, rfl, rfl, rfl, rfl, nonneg, .inr ⟨rfl, ?_⟩⟩
      exact Int64.lt_of_le_of_ne nonneg (Ne.symm nonzero)

/-- What a context that looks at the group finds, and the group after it. -/
inductive Looks (role : Role) (group : WaitGroup) : Verdict → WaitGroup → Prop
  | released : ¬ 0 < group.counter → Looks role group .released (group.leave role)
  | deadlocked : 0 < group.counter → group.live = 0 →
    Looks role group (.deadlocked group.counter) (group.leave role)
  | asleep : 0 < group.counter → group.live ≠ 0 → Looks role group .asleep group

theorem looks_of_look {role : Role} {group group' : WaitGroup} {found : Verdict}
    (looked : group.look role = (found, group')) : Looks role group found group' := by
  unfold look verdict at looked
  by_cases positive : 0 < group.counter
  · by_cases alone : group.live = 0
    · simp only [if_pos positive, if_pos alone, Prod.mk.injEq] at looked
      obtain ⟨rfl, rfl⟩ := looked
      exact .deadlocked positive alone
    · simp only [if_pos positive, if_neg alone, Prod.mk.injEq] at looked
      obtain ⟨rfl, rfl⟩ := looked
      exact .asleep positive alone
  · simp only [if_neg positive, Prod.mk.injEq] at looked
    obtain ⟨rfl, rfl⟩ := looked
    exact .released positive

end WaitGroup

/-! ## Rosters -/

/-- The wait group and the stances of all contexts. -/
structure Roster where
  main : Stance
  goroutines : List Stance
  group : WaitGroup

/-- The contexts that a deed adds. -/
def WaitGroup.Deed.newcomers : Deed → List Stance
  | .start => [.busy]
  | _ => []

/-- The stances of the goroutines, in order of their numbers. -/
def Commons.stances (c : Commons) : List Stance :=
  c.goroutines.toList.map (·.stance)

/-- The stances of all contexts of a world, and its wait group. -/
def World.roster (w : World) : Roster :=
  ⟨w.main.stance, w.commons.stances, w.commons.shared.group⟩

namespace Roster

/-- A context does something to the group, or a goroutine is given up that was about to be launched. -/
inductive Step : Roster → Deed → Roster → Prop
  | main {r : Roster} {deed : Deed} {stance : Stance} {group : WaitGroup} :
    Does .main r.main r.group deed stance group →
    Step r deed ⟨stance, r.goroutines ++ deed.newcomers, group⟩
  | goroutine {r : Roster} {deed : Deed} {place : Nat} {old stance : Stance} {group : WaitGroup} :
    r.goroutines[place]? = some old → Does .goroutine old r.group deed stance group →
    Step r deed ⟨r.main, r.goroutines.set place stance ++ deed.newcomers, group⟩
  | abandon {r : Roster} {place : Nat} : r.goroutines[place]? = some .busy →
    Step r .abandon ⟨r.main, r.goroutines.set place .gone, r.group.abandoned⟩

/-- The numbers of the group are those of the stances. -/
structure Books (r : Roster) : Prop where
  running : r.group.running = r.goroutines.countP (· ≠ .gone)
  blocked : r.group.blocked = r.goroutines.countP (·.isWaiting)
  mainWaiting : r.group.mainWaiting = r.main.isWaiting
  closed : r.group.closed = r.main.hasLeft
  notClosing : ∀ stance ∈ r.goroutines, stance ≠ .closing
  nonneg : 0 ≤ r.group.counter
  since : ∀ n, .waiting n ∈ r.main :: r.goroutines → n ≤ r.group.signals

/-- A sleeper has something to sleep for and somebody who can wake it, or is about to be woken by the
main context. -/
def Alert (r : Roster) : Prop :=
  .waiting r.group.signals ∈ r.main :: r.goroutines →
    0 < r.group.counter ∧ (0 < r.group.live ∨ r.main = .closing)

end Roster

/-- How a count changes when one element does. -/
theorem countP_set_of_getElem? {α : Type} {xs : List α} {place : Nat} {old : α}
    (found : xs[place]? = some old) (new : α) (p : α → Bool) :
    (xs.set place new).countP p + (if p old then 1 else 0) =
      xs.countP p + (if p new then 1 else 0) := by
  obtain ⟨bound, rfl⟩ := List.getElem?_eq_some_iff.mp found
  rw [List.countP_set bound]
  have counted : p xs[place] = true → 0 < xs.countP p := fun holds =>
    List.countP_pos_iff.mpr ⟨_, List.getElem_mem bound, holds⟩
  split
  · next holds =>
    have positive := counted holds
    omega
  · omega

namespace Roster.Books

variable {r : Roster} {new : Stance} {group : WaitGroup}

/-- Every goroutine is busy, waits or is gone. -/
theorem countP_busy (books : r.Books) :
    r.goroutines.countP (· = .busy) + r.goroutines.countP (·.isWaiting) =
      r.goroutines.countP (· ≠ .gone) := by
  have notClosing := books.notClosing
  generalize r.goroutines = stances at notClosing
  induction stances with
  | nil => rfl
  | cons stance stances ih =>
    have rest := ih fun other member => notClosing other (List.mem_cons_of_mem _ member)
    have here := notClosing stance List.mem_cons_self
    simp only [List.countP_cons]
    cases stance with
    | closing => exact absurd rfl here
    | _ =>
      simp only [Stance.isWaiting, decide_true, reduceCtorEq, decide_false, ne_eq, not_true_eq_false,
        not_false_eq_true, Bool.false_eq_true, if_true, if_false] at rest ⊢
      omega

/-- No more goroutines wait than are running. -/
theorem blocked_le_running (books : r.Books) : r.group.blocked ≤ r.group.running := by
  have busy := books.countP_busy
  rw [books.blocked, books.running]
  omega

/-- The contexts that can still change the counter are the busy ones. -/
theorem live_eq (books : r.Books) :
    r.group.live = (r.main :: r.goroutines).countP (· = .busy) := by
  have busy := books.countP_busy
  have main : (!r.group.closed && !r.group.mainWaiting) = decide (r.main = .busy) := by
    rw [books.closed, books.mainWaiting]
    cases r.main <;> rfl
  unfold WaitGroup.live
  rw [main, books.running, books.blocked, List.countP_cons]
  omega

/-- If nobody can change the counter any more, every context waits or has left. -/
theorem not_busy_of_live (books : r.Books) (alone : r.group.live = 0) {stance : Stance}
    (member : stance ∈ r.main :: r.goroutines) : stance ≠ .busy := by
  rw [books.live_eq, List.countP_eq_zero] at alone
  have notBusy := alone stance member
  simpa using notBusy

/-- The main context changes its stance. -/
theorem byMain (books : r.Books) (newcomers : List Stance)
    (busy : ∀ stance ∈ newcomers, stance = .busy)
    (running : group.running = r.group.running + newcomers.length)
    (blocked : group.blocked = r.group.blocked) (mainWaiting : group.mainWaiting = new.isWaiting)
    (closed : group.closed = new.hasLeft) (nonneg : 0 ≤ group.counter)
    (signals : r.group.signals ≤ group.signals) (since : ∀ n, new = .waiting n → n ≤ group.signals) :
    Books ⟨new, r.goroutines ++ newcomers, group⟩ := by
  have counted : newcomers.countP (· ≠ .gone) = newcomers.length := by
    refine List.countP_eq_length.mpr fun stance member => ?_
    rw [busy stance member]
    rfl
  have idle : newcomers.countP (·.isWaiting) = 0 := by
    refine List.countP_eq_zero.mpr fun stance member => ?_
    rw [busy stance member]
    exact Bool.false_ne_true
  refine ⟨?_, ?_, mainWaiting, closed, fun stance member => ?_, nonneg, fun n waits => ?_⟩
  · rw [List.countP_append, counted, running, books.running]
  · rw [List.countP_append, idle, blocked, books.blocked]
    rfl
  · rcases List.mem_append.mp member with old | added
    · exact books.notClosing stance old
    · rw [busy stance added]
      simp
  · rcases List.mem_cons.mp waits with mine | other
    · exact since n mine.symm
    · rcases List.mem_append.mp other with old | added
      · exact Nat.le_trans (books.since n (List.mem_cons_of_mem _ old)) signals
      · cases busy _ added

/-- A goroutine changes its stance. -/
theorem byGoroutine (books : r.Books) {place : Nat} {old : Stance}
    (found : r.goroutines[place]? = some old) (newcomers : List Stance)
    (busy : ∀ stance ∈ newcomers, stance = .busy)
    (running : group.running + (if old ≠ .gone then 1 else 0) =
      r.group.running + (if new ≠ .gone then 1 else 0) + newcomers.length)
    (blocked : group.blocked + (if old.isWaiting then 1 else 0) =
      r.group.blocked + (if new.isWaiting then 1 else 0))
    (mainWaiting : group.mainWaiting = r.group.mainWaiting) (closed : group.closed = r.group.closed)
    (notClosing : new ≠ .closing) (nonneg : 0 ≤ group.counter)
    (signals : r.group.signals ≤ group.signals) (since : ∀ n, new = .waiting n → n ≤ group.signals) :
    Books ⟨r.main, r.goroutines.set place new ++ newcomers, group⟩ := by
  have moved : Books ⟨r.main, r.goroutines.set place new,
      { group with running := group.running - newcomers.length }⟩ := by
    have counted := countP_set_of_getElem? found new (· ≠ .gone)
    have idle := countP_set_of_getElem? found new (·.isWaiting)
    simp only [decide_eq_true_eq] at counted
    refine ⟨?_, ?_, mainWaiting.trans books.mainWaiting, closed.trans books.closed,
      fun stance member => ?_, nonneg, fun n waits => ?_⟩
    · have before := books.running
      dsimp only
      omega
    · have before := books.blocked
      dsimp only
      omega
    · rcases List.mem_or_eq_of_mem_set member with member | rfl
      · exact books.notClosing stance member
      · exact notClosing
    · rcases List.mem_cons.mp waits with main | other
      · exact Nat.le_trans (books.since n (main ▸ List.mem_cons_self)) signals
      · rcases List.mem_or_eq_of_mem_set other with member | mine
        · exact Nat.le_trans (books.since n (List.mem_cons_of_mem _ member)) signals
        · exact since n mine.symm
  refine moved.byMain newcomers busy ?_ rfl moved.mainWaiting moved.closed nonneg (Nat.le_refl _)
    fun n waits => moved.since n (waits ▸ List.mem_cons_self)
  -- The newcomers have been taken off the number of those running, which has them all.
  have counted : newcomers.length ≤ group.running := by
    have present : (if old ≠ .gone then 1 else 0) ≤ r.group.running := by
      rw [books.running]
      split
      · next stays =>
        exact List.countP_pos_iff.mpr ⟨old, List.mem_of_getElem? found, by simpa using stays⟩
      · exact Nat.zero_le _
    omega
  dsimp only
  omega

/-- The main context begins to wait, and has not looked yet. -/
theorem enterMain (books : r.Books) (busy : r.main = .busy) :
    Books ⟨.waiting r.group.signals, r.goroutines, r.group.enter .main⟩ := by
  have closed : r.group.closed = false := by
    rw [books.closed, busy]
    rfl
  have entered : Books ⟨.waiting r.group.signals, r.goroutines ++ [], r.group.enter .main⟩ := by
    refine books.byMain [] (by simp) rfl rfl rfl closed books.nonneg (Nat.le_refl _) ?_
    rintro n ⟨⟩
    exact Nat.le_refl _
  rwa [List.append_nil] at entered

/-- A goroutine begins to wait, and has not looked yet. -/
theorem enterGoroutine (books : r.Books) {place : Nat} (found : r.goroutines[place]? = some .busy) :
    Books ⟨r.main, r.goroutines.set place (.waiting r.group.signals), r.group.enter .goroutine⟩ := by
  have entered : Books ⟨r.main, r.goroutines.set place (.waiting r.group.signals) ++ [],
      r.group.enter .goroutine⟩ := by
    refine books.byGoroutine found [] (by simp) rfl rfl rfl rfl (by simp) books.nonneg
      (Nat.le_refl _) ?_
    rintro n ⟨⟩
    exact Nat.le_refl _
  rwa [List.append_nil] at entered

variable {found : WaitGroup.Verdict} {n : Nat}

/-- The main context looks at the group, and stops waiting unless it goes back to sleep. -/
theorem lookMain (books : r.Books) (waits : r.main = .waiting n)
    (looks : WaitGroup.Looks .main r.group found group) :
    Books ⟨found.stance group.signals, r.goroutines, group⟩ := by
  have closed : r.group.closed = false := by
    rw [books.closed, waits]
    rfl
  have left : Books ⟨.busy, r.goroutines ++ [], r.group.leave .main⟩ :=
    books.byMain [] (by simp) rfl rfl rfl closed books.nonneg (Nat.le_succ _) nofun
  rw [List.append_nil] at left
  cases looks with
  | released notPositive => exact left
  | deadlocked positive alone => exact left
  | asleep positive others =>
    have mainWaiting : r.group.mainWaiting = true := by
      rw [books.mainWaiting, waits]
      rfl
    have slept : Books ⟨.waiting r.group.signals, r.goroutines ++ [], r.group⟩ := by
      refine books.byMain [] (by simp) rfl rfl mainWaiting closed books.nonneg (Nat.le_refl _) ?_
      rintro n ⟨⟩
      exact Nat.le_refl _
    rwa [List.append_nil] at slept

/-- A goroutine looks at the group, and stops waiting unless it goes back to sleep. -/
theorem lookGoroutine (books : r.Books) {place : Nat}
    (waits : r.goroutines[place]? = some (.waiting n))
    (looks : WaitGroup.Looks .goroutine r.group found group) :
    Books ⟨r.main, r.goroutines.set place (found.stance group.signals), group⟩ := by
  have positive : 0 < r.group.blocked := by
    rw [books.blocked]
    exact List.countP_pos_iff.mpr ⟨_, List.mem_of_getElem? waits, rfl⟩
  have left : Books ⟨r.main, r.goroutines.set place .busy ++ [], r.group.leave .goroutine⟩ := by
    refine books.byGoroutine waits [] (by simp) rfl ?_ rfl rfl (by simp) books.nonneg
      (Nat.le_succ _) nofun
    simp only [WaitGroup.leave, WaitGroup.signal, Stance.isWaiting, if_true, Bool.false_eq_true,
      if_false]
    omega
  rw [List.append_nil] at left
  cases looks with
  | released notPositive => exact left
  | deadlocked positive alone => exact left
  | asleep positive others =>
    have slept : Books ⟨r.main, r.goroutines.set place (.waiting r.group.signals) ++ [], r.group⟩ := by
      refine books.byGoroutine waits [] (by simp) rfl rfl rfl rfl (by simp) books.nonneg
        (Nat.le_refl _) ?_
      rintro n ⟨⟩
      exact Nat.le_refl _
    rwa [List.append_nil] at slept

/-- Whatever the main context does, the books are kept. -/
theorem doesMain (books : r.Books) {deed : Deed} (does : Does .main r.main r.group deed new group) :
    Books ⟨new, r.goroutines ++ deed.newcomers, group⟩ := by
  generalize before : r.main = old at does
  cases does with
  | rest =>
    subst before
    exact books.byMain [] (by simp) rfl rfl books.mainWaiting books.closed books.nonneg
      (Nat.le_refl _) fun n waits => books.since n (waits ▸ List.mem_cons_self)
  | add added =>
    have added := WaitGroup.added_of_add added
    refine books.byMain [] (by simp) added.running added.blocked ?_ ?_ added.nonneg
      added.signals_le nofun
    · rw [added.mainWaiting, books.mainWaiting, before]
    · rw [added.closed, books.closed, before]
  | wait waited =>
    have looked := (books.enterMain before).lookMain rfl (WaitGroup.looks_of_look waited)
    rw [← List.append_nil r.goroutines] at looked
    exact looked
  | look looked =>
    have looked := books.lookMain before (WaitGroup.looks_of_look looked)
    rw [← List.append_nil r.goroutines] at looked
    exact looked
  | start =>
    have mainWaiting := books.mainWaiting
    have closed := books.closed
    rw [before] at mainWaiting closed
    exact books.byMain [.busy] (by simp) rfl rfl mainWaiting closed books.nonneg (Nat.le_refl _) nofun
  | finish other => cases other
  | close =>
    have mainWaiting := books.mainWaiting
    rw [before] at mainWaiting
    exact books.byMain [] (by simp) rfl rfl mainWaiting rfl books.nonneg (Nat.le_refl _) nofun
  | signal =>
    have mainWaiting := books.mainWaiting
    have closed := books.closed
    rw [before] at mainWaiting closed
    exact books.byMain [] (by simp) rfl rfl mainWaiting closed books.nonneg (Nat.le_succ _) nofun

/-- A goroutine that is not gone is counted. -/
theorem running_pos (books : r.Books) {place : Nat} {stance : Stance}
    (here : r.goroutines[place]? = some stance) (stays : stance ≠ .gone) : 0 < r.group.running := by
  rw [books.running]
  exact List.countP_pos_iff.mpr ⟨stance, List.mem_of_getElem? here, by simpa using stays⟩

/-- Whatever a goroutine does, the books are kept. -/
theorem doesGoroutine (books : r.Books) {deed : Deed} {place : Nat} {old : Stance}
    (here : r.goroutines[place]? = some old) (does : Does .goroutine old r.group deed new group) :
    Books ⟨r.main, r.goroutines.set place new ++ deed.newcomers, group⟩ := by
  cases does with
  | rest =>
    have member := List.mem_of_getElem? here
    exact books.byGoroutine here [] (by simp) rfl rfl rfl rfl (books.notClosing _ member)
      books.nonneg (Nat.le_refl _)
      fun n waits => books.since n (List.mem_cons_of_mem _ (waits ▸ member))
  | add added =>
    have added := WaitGroup.added_of_add added
    refine books.byGoroutine here [] (by simp) ?_ ?_ added.mainWaiting added.closed (by simp)
      added.nonneg added.signals_le nofun
    · rw [added.running]
      rfl
    · rw [added.blocked]
  | wait waited =>
    obtain ⟨bound, -⟩ := List.getElem?_eq_some_iff.mp here
    have looked := (books.enterGoroutine here).lookGoroutine (List.getElem?_set_self bound)
      (WaitGroup.looks_of_look waited)
    rw [List.set_set, ← List.append_nil (List.set _ _ (WaitGroup.Verdict.stance _ _))] at looked
    exact looked
  | look looked =>
    have looked := books.lookGoroutine here (WaitGroup.looks_of_look looked)
    rw [← List.append_nil (List.set _ _ _)] at looked
    exact looked
  | start =>
    exact books.byGoroutine here [.busy] (by simp) rfl rfl rfl rfl (by simp) books.nonneg
      (Nat.le_refl _) nofun
  | finish =>
    have positive := books.running_pos here (by simp)
    have nonneg : 0 ≤ r.group.finished.counter := by
      rw [Int64.le_iff_toInt_le, WaitGroup.toInt_counter_finished books.nonneg]
      exact Int.le_max_right _ _
    refine books.byGoroutine here [] (by simp) ?_ rfl rfl rfl (by simp) nonneg (Nat.le_succ _) nofun
    exact Nat.sub_add_cancel positive
  | close other => cases other
  | signal other => cases other

/-- A goroutine is given up that was about to be launched. -/
theorem abandon (books : r.Books) {place : Nat} (here : r.goroutines[place]? = some .busy) :
    Books ⟨r.main, r.goroutines.set place .gone, r.group.abandoned⟩ := by
  have positive := books.running_pos here (by simp)
  have left : Books ⟨r.main, r.goroutines.set place .gone ++ [], r.group.abandoned⟩ := by
    refine books.byGoroutine here [] (by simp) ?_ rfl rfl rfl (by simp) books.nonneg
      (Nat.le_succ _) nofun
    exact Nat.sub_add_cancel positive
  rwa [List.append_nil] at left

/-- Every step keeps the books. -/
theorem step {deed : Deed} {r' : Roster} (books : r.Books) (step : r.Step deed r') : r'.Books := by
  cases step with
  | main does => exact books.doesMain does
  | goroutine here does => exact books.doesGoroutine here does
  | abandon here => exact books.abandon here

end Roster.Books

/-! ## Sleepers -/

/-- A deed gives a signal, or there is a reason to sleep after it, or it leaves the reasons that there
were. The main context that closes the group is the exception, since its signal comes later. -/
theorem WaitGroup.Does.reason {role : Role} {old new : Stance} {group group' : WaitGroup}
    {deed : Deed} (does : Does role old group deed new group') :
    (group.signals < group'.signals ∧ ∀ n, new ≠ .waiting n) ∨
      (0 < group'.counter ∧ 0 < group'.live) ∨
      (group'.signals = group.signals ∧ (new = old ∨ new = .closing) ∧
        (0 < group.counter → 0 < group'.counter) ∧ (group.live ≤ group'.live ∨ new = .closing)) := by
  have looks : ∀ {group group' : WaitGroup} {found : Verdict}, Looks role group found group' →
      (group.signals < group'.signals ∧ ∀ n, found.stance group'.signals ≠ .waiting n) ∨
        (0 < group'.counter ∧ 0 < group'.live) := by
    intro group group' found looks
    have signalled : group.signals < (group.leave role).signals := by
      cases role <;> exact Nat.lt_succ_self _
    cases looks with
    | released notPositive => exact .inl ⟨signalled, nofun⟩
    | deadlocked positive alone => exact .inl ⟨signalled, nofun⟩
    | asleep positive others => exact .inr ⟨positive, Nat.pos_of_ne_zero others⟩
  cases does with
  | rest => exact .inr (.inr ⟨rfl, .inl rfl, id, .inl (Nat.le_refl _)⟩)
  | add added =>
    have added := added_of_add added
    rcases added.signals with more | ⟨same, positive⟩
    · exact .inl ⟨more ▸ Nat.lt_succ_self _, nofun⟩
    · refine .inr (.inr ⟨same, .inl rfl, fun _ => positive, .inl (Nat.le_of_eq ?_)⟩)
      simp only [live, added.running, added.blocked, added.closed, added.mainWaiting]
  | wait waited =>
    have entered : (group.enter role).signals = group.signals := by cases role <;> rfl
    rcases looks (looks_of_look waited) with signalled | reason
    · rw [entered] at signalled
      exact .inl signalled
    · exact .inr (.inl reason)
  | look looked =>
    rcases looks (looks_of_look looked) with signalled | reason
    · exact .inl signalled
    · exact .inr (.inl reason)
  | start =>
    refine .inr (.inr ⟨rfl, .inl rfl, id, .inl ?_⟩)
    unfold live started
    dsimp only
    omega
  | finish => exact .inl ⟨Nat.lt_succ_self _, nofun⟩
  | close => exact .inr (.inr ⟨rfl, .inr rfl, id, .inr rfl⟩)
  | signal => exact .inl ⟨Nat.lt_succ_self _, nofun⟩

namespace Roster.Alert

variable {r : Roster} {new : Stance} {group : WaitGroup} {deed : Deed}

/-- Newcomers do not sleep. -/
theorem mem_of_asleep {stances : List Stance} {n : Nat}
    (asleep : .waiting n ∈ stances ++ deed.newcomers) : .waiting n ∈ stances := by
  rcases List.mem_append.mp asleep with old | added
  · exact old
  · cases deed <;> simp [WaitGroup.Deed.newcomers] at added

/-- Whatever the main context does, sleepers keep their reasons or are woken. -/
theorem doesMain (alert : r.Alert) (books : r.Books)
    (does : Does .main r.main r.group deed new group) :
    Alert ⟨new, r.goroutines ++ deed.newcomers, group⟩ := by
  intro asleep
  have sleeper : new = .waiting group.signals ∨ .waiting group.signals ∈ r.goroutines := by
    rcases List.mem_cons.mp asleep with main | other
    · exact .inl main.symm
    · exact .inr (mem_of_asleep other)
  rcases does.reason with ⟨signalled, awake⟩ | ⟨positive, others⟩ | ⟨same, stays, counter, live⟩
  · rcases sleeper with main | other
    · exact absurd main (awake _)
    · have earlier := books.since _ (List.mem_cons_of_mem _ other)
      omega
  · exact ⟨positive, .inl others⟩
  · have before : .waiting r.group.signals ∈ r.main :: r.goroutines := by
      rw [← same]
      rcases sleeper with main | other
      · rcases stays with old | closing
        · exact List.mem_cons.mpr (.inl (main.symm.trans old))
        · rw [closing] at main
          cases main
      · exact List.mem_cons_of_mem _ other
    obtain ⟨positive, others⟩ := alert before
    refine ⟨counter positive, ?_⟩
    rcases live with more | closing
    · rcases others with others | closing
      · exact .inl (Nat.lt_of_lt_of_le others more)
      · rcases stays with old | closing'
        · exact .inr (old.trans closing)
        · exact .inr closing'
    · exact .inr closing

/-- Whatever a goroutine does, sleepers keep their reasons or are woken. -/
theorem doesGoroutine (alert : r.Alert) (books : r.Books) {place : Nat} {old : Stance}
    (here : r.goroutines[place]? = some old) (does : Does .goroutine old r.group deed new group) :
    Alert ⟨r.main, r.goroutines.set place new ++ deed.newcomers, group⟩ := by
  intro asleep
  have sleeper : new = .waiting group.signals ∨ .waiting group.signals ∈ r.main :: r.goroutines := by
    rcases List.mem_cons.mp asleep with main | other
    · exact .inr (List.mem_cons.mpr (.inl main))
    · rcases List.mem_or_eq_of_mem_set (mem_of_asleep other) with member | mine
      · exact .inr (List.mem_cons_of_mem _ member)
      · exact .inl mine.symm
  have notClosing : new ≠ .closing := by
    cases does with
    | rest => exact books.notClosing _ (List.mem_of_getElem? here)
    | @wait found => cases found <;> simp [WaitGroup.Verdict.stance]
    | @look found => cases found <;> simp [WaitGroup.Verdict.stance]
    | close other => cases other
    | _ => simp
  rcases does.reason with ⟨signalled, awake⟩ | ⟨positive, others⟩ | ⟨same, stays, counter, live⟩
  · rcases sleeper with mine | other
    · exact absurd mine (awake _)
    · have earlier := books.since _ other
      omega
  · exact ⟨positive, .inl others⟩
  · have before : .waiting r.group.signals ∈ r.main :: r.goroutines := by
      rw [← same]
      rcases sleeper with mine | other
      · have unchanged := stays.resolve_right notClosing
        rw [← mine, unchanged]
        exact List.mem_cons_of_mem _ (List.mem_of_getElem? here)
      · exact other
    obtain ⟨positive, others⟩ := alert before
    have more := live.resolve_right notClosing
    exact ⟨counter positive, others.imp_left fun others => Nat.lt_of_lt_of_le others more⟩

/-- Every step keeps the reasons of sleepers, or wakes them. -/
theorem step {r' : Roster} (alert : r.Alert) (books : r.Books) (step : r.Step deed r') : r'.Alert := by
  cases step with
  | main does => exact alert.doesMain books does
  | goroutine here does => exact alert.doesGoroutine books here does
  | abandon here =>
    intro asleep
    have earlier : r.group.abandoned.signals ≤ r.group.signals := by
      rcases List.mem_cons.mp asleep with main | other
      · exact books.since _ (List.mem_cons.mpr (.inl main))
      · rcases List.mem_or_eq_of_mem_set other with member | mine
        · exact books.since _ (List.mem_cons_of_mem _ member)
        · cases mine
    exact absurd earlier (Nat.not_succ_le_self _)

end Roster.Alert

/-! ## Actions as steps of the roster -/

namespace Commons

variable {c : Commons}

theorem getElem?_stances (place : Nat) :
    c.stances[place]? = (c.goroutines[place]?).map (·.stance) := by
  simp [stances]

theorem getElem?_stances_of {place : Nat} {phase : GoroutinePhase}
    (there : c.goroutines[place]? = some phase) : c.stances[place]? = some phase.stance := by
  rw [getElem?_stances, there]
  rfl

theorem stances_setPhase (id : Nat) (phase : GoroutinePhase) :
    (c.setPhase id phase).stances = c.stances.set (id - 1) phase.stance := by
  simp [stances, setPhase, List.map_set]

/-- A goroutine that changes its phase and not its stance does not show on the roster. -/
theorem stances_setPhase_self {id : Nat} {old new : GoroutinePhase}
    (found : c.phase? id = some old) (same : new.stance = old.stance) :
    (c.setPhase id new).stances = c.stances := by
  rw [stances_setPhase, same]
  refine List.ext_getElem? fun place => ?_
  rw [List.getElem?_set]
  split
  · next here =>
    subst here
    unfold phase? at found
    obtain ⟨bound, -⟩ := Array.getElem?_eq_some_iff.mp found
    rw [if_pos (by simpa [stances] using bound), getElem?_stances, found]
    rfl
  · rfl

end Commons

theorem Native.newcomers_deed (role : Role) (group : WaitGroup) (b : Builtin) (args : List Value) :
    (deed role group b args).newcomers = [] := by
  unfold deed
  rcases ofName? b.name with _ | native
  · rfl
  · cases native with
    | waitGroupAdd =>
      rcases args with _ | ⟨v, _ | ⟨v', args⟩⟩
      · rfl
      · cases v with
        | int delta =>
          dsimp only
          cases group.add delta <;> rfl
        | _ => rfl
      · cases v <;> rfl
    | waitGroupWait => cases args <;> rfl
    | _ => rfl

section Steps

variable {setting : Setting} {role : Role} {c : Commons} {errand? : Nat → Option Errand} {k : Nat}

/-- An action of an activity leaves the stances of goroutines as they are, and adds that of a
goroutine whose number it takes. -/
theorem Activity.stances_act {a : Activity} (errands : Errands errand? c.goroutines)
    (mine : errand? k = a.errand?) :
    (a.act setting role c).2.stances = c.stances ++ (a.deed setting role c.shared).newcomers := by
  cases a with
  | running m =>
    have called : (m.nativeDeed setting.limits role c.shared.group).newcomers = [] := by
      unfold Machine.nativeDeed
      split
      · exact Native.newcomers_deed ..
      · rfl
    unfold act deed Machine.deed
    dsimp only
    cases m.advance setting role c.shared with
    | launch task m' s =>
      simp [Commons.stances, Commons.reap, Commons.onGroup, Deed.newcomers, GoroutinePhase.stance]
    | _ =>
      dsimp only
      rw [called, List.append_nil]
      rfl
  | launching id task m =>
    obtain ⟨place, rfl, -, waits⟩ := errands.reserved k id mine
    have kept : (c.setPhase (place + 1) (.starting task)).stances = c.stances :=
      Commons.stances_setPhase_self waits rfl
    exact kept.trans (List.append_nil _).symm
  | registering id m => exact (List.append_nil _).symm
  | waiting since m =>
    unfold act
    dsimp only
    rcases c.shared.group.look role with ⟨found, group⟩
    cases found <;> exact (List.append_nil _).symm

theorem GoroutinePhase.stances_after {phase : GoroutinePhase} {id : Nat}
    (errands : Errands errand? c.goroutines) (mine : errand? k = phase.errand?) :
    (phase.after setting id c).2.stances = c.stances ++ (phase.deed setting c.shared).newcomers := by
  cases phase with
  | starting task =>
    cases task with
    | body command env => exact (List.append_nil _).symm
    | builtin b args =>
      unfold deed
      dsimp only
      rw [Native.newcomers_deed, List.append_nil]
      rfl
  | active a => exact Activity.stances_act errands mine
  | ended failure => cases failure <;> exact (List.append_nil _).symm
  | _ => exact (List.append_nil _).symm

theorem MainPhase.stances_act {phase : MainPhase} (errands : Errands errand? c.goroutines)
    (mine : errand? k = phase.errand?) :
    (phase.act setting c).commons.stances =
      c.stances ++ (phase.deed setting c.shared).newcomers := by
  cases phase with
  | active a => exact Activity.stances_act errands mine
  | joining result steps taken =>
    cases taken with
    | nil =>
      unfold act
      dsimp only
      split <;> exact (List.append_nil _).symm
    | cons id taken => exact (List.append_nil _).symm
  | _ => exact (List.append_nil _).symm

end Steps

namespace World

variable {setting : Setting} {w : World}

/-- Each action is a step of the roster. -/
theorem step_roster (errands : w.Errands) (context : Context) :
    w.roster.Step (w.deed setting context) (w.act setting context).roster := by
  obtain ⟨main, c⟩ := w
  have still : (World.roster ⟨main, c⟩).Step .rest (World.roster ⟨main, c⟩) := by
    have step := Roster.Step.main (r := World.roster ⟨main, c⟩) .rest
    rwa [show Deed.rest.newcomers = [] from rfl, List.append_nil] at step
  cases context with
  | main =>
    have step := Roster.Step.main (r := World.roster ⟨main, c⟩) (main.does_act setting c)
    have stances : (main.act setting c).commons.stances = _ :=
      MainPhase.stances_act errands (k := 0) rfl
    rw [show (World.roster ⟨main, c⟩).goroutines = c.stances from rfl, ← stances] at step
    exact step
  | goroutine id =>
    rcases found : c.phase? id with _ | phase
    · simp only [World.act, deed, found]
      exact still
    · have here : c.stances[id - 1]? = some phase.stance := Commons.getElem?_stances_of found
      have stances : (phase.after setting id c).2.stances = _ :=
        GoroutinePhase.stances_after errands (errand?_goroutine found)
      obtain ⟨bound, -⟩ := List.getElem?_eq_some_iff.mp here
      have step := Roster.Step.goroutine (r := World.roster ⟨main, c⟩) here
        (phase.does_after setting id c)
      rw [show (World.roster ⟨main, c⟩).goroutines = c.stances from rfl,
        ← List.set_append_left _ _ bound, ← stances, ← Commons.stances_setPhase] at step
      rw [act_goroutine found, deed_goroutine found]
      exact step

/-- A refused launch is a step of the roster; a context that has none to make is not affected. -/
theorem refuse_roster (errands : w.Errands) (reason : String) (context : Context) :
    (w.refuse reason context).roster = w.roster ∨
      w.roster.Step .abandon (w.refuse reason context).roster := by
  -- The starter is busy before and after, so that only the goroutine it gives up shows.
  have abandoned : ∀ {k id}, w.errand? k = some (.launch id) →
      w.roster.Step .abandon ⟨w.main.stance, (w.commons.setPhase id .abandoned).stances,
        w.commons.shared.group.abandoned⟩ := by
    intro k id launch
    obtain ⟨place, rfl, -, waits⟩ := errands.reserved k id launch
    have here : w.roster.goroutines[place]? = some .busy := Commons.getElem?_stances_of waits
    rw [Commons.stances_setPhase]
    exact Roster.Step.abandon here
  have refusal := w.refusal reason context
  generalize w.refuse reason context = w' at refusal
  cases refusal with
  | none => exact .inl rfl
  | main launch =>
    have step := abandoned (k := 0) launch
    rw [MainPhase.stance_of_errand launch] at step
    exact .inr step
  | @goroutine own id a found launch =>
    have mine : w.errand? (own - 1 + 1) = some (.launch id) :=
      (errand?_goroutine found).trans launch
    have there : (w.commons.setPhase id .abandoned).phase? own = some (.active a) :=
      Commons.Effect.refuse.getElem? errands mine found (by simp)
    have kept := Commons.stances_setPhase_self there
      (show GoroutinePhase.stance (.ended (some (.spawnFailed reason))) = _ from
        (Activity.stance_of_errand launch).symm)
    have step := abandoned mine
    rw [← kept] at step
    exact .inr step

/-- The errands fit the goroutines, the books are right, and sleepers have their reasons. -/
structure Accounted (w : World) : Prop where
  errands : w.Errands
  books : w.roster.Books
  alert : w.roster.Alert

theorem Accounted.initial (p : Program) : p.initial.Accounted := by
  refine ⟨World.Errands.initial p, ⟨rfl, rfl, rfl, rfl, nofun, Int64.le_refl _, ?_⟩, ?_⟩
  · intro n waits
    rcases List.mem_cons.mp waits with main | none
    · cases main
    · cases none
  · intro asleep
    rcases List.mem_cons.mp asleep with main | none
    · cases main
    · cases none

theorem Accounted.act (accounted : w.Accounted) (context : Context) :
    (w.act setting context).Accounted :=
  have step := step_roster accounted.errands context
  ⟨accounted.errands.act context, accounted.books.step step,
    accounted.alert.step accounted.books step⟩

theorem Accounted.refuse (accounted : w.Accounted) (reason : String) (context : Context) :
    (w.refuse reason context).Accounted := by
  refine ⟨accounted.errands.refuse reason context, ?_, ?_⟩
  · rcases refuse_roster accounted.errands reason context with same | step
    · rw [same]
      exact accounted.books
    · exact accounted.books.step step
  · rcases refuse_roster accounted.errands reason context with same | step
    · rw [same]
      exact accounted.alert
    · exact accounted.alert.step accounted.books step

/-- The accounts are right in every reachable world. -/
theorem Accounted.reachable {p : Program} (reachable : World.Reachable setting p.initial w) :
    w.Accounted := by
  induction reachable with
  | start => exact .initial p
  | act context _ _ ih => exact ih.act context
  | refuse reason context _ ih => exact ih.refuse reason context

/-- The goroutines of a world. -/
def goroutines (w : World) : List Context :=
  (List.range w.commons.goroutines.size).map fun place => .goroutine (place + 1)

/-- The contexts of a world. -/
def contexts (w : World) : List Context :=
  .main :: w.goroutines

theorem map_stance_goroutines (w : World) : w.goroutines.map w.stance = w.roster.goroutines := by
  refine List.ext_getElem? fun place => ?_
  show _ = w.commons.stances[place]?
  rw [Commons.getElem?_stances]
  by_cases bound : place < w.commons.goroutines.size
  · have found : w.commons.phase? (place + 1) = some w.commons.goroutines[place] :=
      Array.getElem?_eq_getElem bound
    simp only [goroutines, List.map_map, List.getElem?_map, List.getElem?_range bound,
      Array.getElem?_eq_getElem bound, Option.map_some, Function.comp_apply, stance, found]
  · have beyond : w.commons.goroutines.size ≤ place := Nat.le_of_not_lt bound
    simp [goroutines, beyond]

theorem map_stance_contexts (w : World) :
    w.contexts.map w.stance = w.roster.main :: w.roster.goroutines := by
  rw [contexts, List.map_cons, map_stance_goroutines]
  rfl

end World

end ControlStash
