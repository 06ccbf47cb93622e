import ControlStash.Proofs.Ledger

/-!
# Joining and reporting

The main context joins the goroutines that are listed until none is. A goroutine is listed by its
starter only after it has been launched, so the list can be empty while goroutines are still running.
It cannot be once the main context is done: `World.Listed` says that each goroutine which still runs is
on the list, is about to be joined, or has a starter that is about to list it, and the starter has a
smaller number and still runs as well.

A goroutine that ends in a fault files it before it leaves the wait group. `World.Filing` follows one
goroutine along a course, so that a finished run has exactly one entry for each that failed
(`run_joins_and_reports`).
-/

namespace ControlStash

/-! ## Goroutines that are listed -/

/-- Each goroutine that has been launched and still runs is listed, or some context is about to list
it. -/
def Listing (errand? : Nat → Option Errand) (phases : Array GoroutinePhase) (listed : List Nat) :
    Prop :=
  ∀ (place : Nat) (phase : GoroutinePhase), phases[place]? = some phase → phase ≠ .reserved →
    phase.stance ≠ .gone → (∃ k, errand? k = some (.register (place + 1))) ∨ place + 1 ∈ listed

/-- The goroutines that the main context is about to join. -/
def MainPhase.taken : MainPhase → List Nat
  | .joining _ _ taken => taken
  | _ => []

/-- Each goroutine that still runs is listed, is about to be joined, or is about to be listed. -/
def World.Listed (w : World) : Prop :=
  Listing w.errand? w.commons.goroutines (w.commons.handles ++ w.main.taken)

theorem Commons.isGone_eq_false {c : Commons} {place : Nat} {phase : GoroutinePhase}
    (there : c.goroutines[place]? = some phase) (stays : phase.stance ≠ .gone) :
    c.isGone (place + 1) = false := by
  have found : c.phase? (place + 1) = some phase := there
  unfold isGone
  rw [found]
  cases phase with
  | gone => exact absurd rfl stays
  | _ => rfl

namespace Listing

variable {errand? : Nat → Option Errand} {phases : Array GoroutinePhase} {listed listed' : List Nat}
  {c c' : Commons} {e e' : Option Errand} {k : Nat}

theorem mono (listing : Listing errand? phases listed)
    (kept : ∀ place phase, phases[place]? = some phase → phase.stance ≠ .gone →
      place + 1 ∈ listed → place + 1 ∈ listed') : Listing errand? phases listed' := by
  intro place phase there launched stays
  rcases listing place phase there launched stays with registers | member
  · exact .inl registers
  · exact .inr (kept place phase there stays member)

/-- A goroutine that is launched goes on, or it is gone for good. -/
theorem settle (listing : Listing errand? phases listed) {place : Nat} {old new : GoroutinePhase}
    (found : phases[place]? = some old) (launched : old ≠ .reserved)
    (departed : old.stance = .gone → new.stance = .gone) :
    Listing errand? (phases.setIfInBounds place new) listed := by
  intro other phase there launched' stays
  rw [Array.getElem?_setIfInBounds] at there
  split at there
  · next here =>
    subst here
    split at there
    · cases there
      exact listing place old found launched (mt departed stays)
    · cases there
  · exact listing other phase there launched' stays

/-- A context that has nothing to list gets another errand. -/
theorem update (listing : Listing errand? phases listed)
    (other : ∀ id, errand? k ≠ some (.register id)) :
    Listing (Function.update errand? k e') phases listed := by
  intro place phase there launched stays
  rcases listing place phase there launched stays with ⟨k', registers⟩ | member
  · refine .inl ⟨k', ?_⟩
    rw [Function.update_of_ne ?_, registers]
    intro same
    rw [same] at registers
    exact other _ registers
  · exact .inr member

/-- A goroutine is given up, or gets a context that lists it. -/
theorem launch (listing : Listing errand? phases listed) {id : Nat} {new : GoroutinePhase}
    (launch : errand? k = some (.launch id)) (errands : Errands errand? phases)
    (cared : new.stance ≠ .gone → e' = some (.register id)) :
    Listing (Function.update errand? k e') (phases.setIfInBounds (id - 1) new) listed := by
  obtain ⟨own, rfl, -, -⟩ := errands.reserved k id launch
  rw [Nat.add_sub_cancel]
  have updated : Listing (Function.update errand? k e') phases listed :=
    listing.update fun id' registers => by rw [launch] at registers; cases registers
  intro place phase there launched stays
  rw [Array.getElem?_setIfInBounds] at there
  split at there
  · next here =>
    subst here
    split at there
    · cases there
      exact .inl ⟨k, by rw [Function.update_self, cared stays]⟩
    · cases there
  · exact updated place phase there launched stays

/-- An action of a context keeps the invariant, its own phase apart. -/
theorem effect {taken : List Nat} (listing : Listing errand? c.goroutines (c.handles ++ taken))
    (effect : c.Effect e e' c') (errands : Errands errand? c.goroutines) (mine : errand? k = e) :
    Listing (Function.update errand? k e') c'.goroutines (c'.handles ++ taken) := by
  cases effect with
  | work goroutines handles =>
    rw [goroutines, handles, ← mine, Function.update_eq_self]
    exact listing
  | reserve goroutines handles =>
    have updated : Listing (Function.update errand? k (some (.launch (c.goroutines.size + 1))))
        c.goroutines (c'.handles ++ taken) := by
      refine (listing.update (by simp [mine])).mono fun place phase there stays member => ?_
      -- The pass over the list takes off only goroutines that are gone.
      rw [handles]
      rcases List.mem_append.mp member with handle | joining
      · refine List.mem_append_left _ (List.mem_filter.mpr ⟨handle, ?_⟩)
        rw [Commons.isGone_eq_false there stays]
        rfl
      · exact List.mem_append_right _ joining
    intro place phase there launched stays
    rw [goroutines, Array.getElem?_push] at there
    split at there
    · cases there
      exact absurd rfl launched
    · exact updated place phase there launched stays
  | launch => exact listing.launch mine errands fun _ => rfl
  | @register _ id =>
    intro place phase there launched stays
    rcases listing place phase there launched stays with ⟨k', registers⟩ | member
    · by_cases own : k' = k
      · rw [own, mine] at registers
        cases registers
        exact .inr (by simp)
      · exact .inl ⟨k', by rw [Function.update_of_ne own, registers]⟩
    · refine .inr ?_
      rcases List.mem_append.mp member with handle | joining
      · exact List.mem_append_left _ (List.mem_append_left _ handle)
      · exact List.mem_append_right _ joining
  | refuse =>
    have departed : GoroutinePhase.abandoned.stance = .gone := rfl
    exact listing.launch mine errands fun stays => absurd departed stays

end Listing

namespace World

variable {setting : Setting} {main main' : MainPhase} {c c' : Commons} {id : Nat}
  {phase phase' : GoroutinePhase} {w : World}

namespace Listed

/-- An action of the main context keeps the invariant, if it leaves the goroutines alone that it is
about to join. -/
theorem byMain (listed : World.Listed ⟨main, c⟩) (errands : World.Errands ⟨main, c⟩)
    (effect : c.Effect main.errand? main'.errand? c') (same : main'.taken = main.taken) :
    World.Listed ⟨main', c'⟩ := by
  unfold World.Listed
  rw [errands.errand?_byMain effect, same]
  exact Listing.effect listed effect errands rfl

/-- An action of a goroutine keeps the invariant. -/
theorem byGoroutine (listed : World.Listed ⟨main, c⟩) (errands : World.Errands ⟨main, c⟩)
    (found : c.phase? id = some phase) (effect : c.Effect phase.errand? phase'.errand? c')
    (launched : phase ≠ .reserved) (departed : phase.stance = .gone → phase'.stance = .gone) :
    World.Listed ⟨main, c'.setPhase id phase'⟩ := by
  have mine : World.errand? ⟨main, c⟩ (id - 1 + 1) = phase.errand? := errand?_goroutine found
  have here : c'.goroutines[id - 1]? = some phase := effect.getElem? errands mine found launched
  unfold World.Listed
  rw [errands.errand?_byGoroutine found effect launched]
  exact (Listing.effect listed effect errands mine).settle here launched departed

theorem ofProgress_taken (progress : Progress) : (MainPhase.ofProgress progress).taken = [] := by
  cases progress <;> rfl

/-- An action of the main context that it can do keeps the invariant. -/
theorem actMain (listed : World.Listed ⟨main, c⟩) (errands : World.Errands ⟨main, c⟩)
    (acts : main.canAct c = true) : (main.act setting c).Listed := by
  cases main with
  | active a =>
    show World.Listed ⟨.ofProgress (a.act setting .main c).1, (a.act setting .main c).2⟩
    refine listed.byMain errands ?_ (ofProgress_taken _)
    rw [MainPhase.errand?_ofProgress]
    exact a.effect_act setting .main c
  | ended result steps => exact listed.byMain errands (.work rfl rfl) rfl
  | closed result steps => exact listed.byMain errands (.work rfl rfl) rfl
  | joining result steps taken =>
    cases taken with
    | nil =>
      unfold MainPhase.act
      dsimp only
      split
      · exact listed
      · refine Listing.mono listed fun place phase there stays member => ?_
        rcases List.mem_append.mp member with handle | joining
        · exact handle
        · cases joining
    | cons id taken =>
      -- The one that is joined is gone, so it does not matter any more.
      refine Listing.mono listed fun place phase there stays member => ?_
      rcases List.mem_append.mp member with handle | joining
      · exact List.mem_append_left _ handle
      · rcases List.mem_cons.mp joining with same | joining
        · have gone : c.isGone id = true := acts
          have stands : c.goroutines[place]? = some phase := there
          rw [← same, Commons.isGone_eq_false stands stays] at gone
          cases gone
        · exact List.mem_append_right _ joining
  | finished result steps => exact listed

/-- An action of a goroutine keeps the invariant. -/
theorem actGoroutine (listed : w.Listed) (errands : w.Errands) (id : Nat) :
    (w.act setting (.goroutine id)).Listed := by
  obtain ⟨main, c⟩ := w
  rcases found : c.phase? id with _ | phase
  · simp only [World.act, found]
    exact listed
  · rw [act_goroutine found]
    by_cases unlaunched : phase = .reserved
    · subst unlaunched
      rw [show (GoroutinePhase.after setting id .reserved c) = (.reserved, c) from rfl,
        Commons.setPhase_self found]
      exact listed
    · refine listed.byGoroutine errands found (phase.effect_after setting id c) unlaunched
        fun gone => ?_
      rcases GoroutinePhase.stance_eq_gone_iff.mp gone with rfl | rfl <;> rfl

/-- A refused launch keeps the invariant. -/
theorem refuse (listed : w.Listed) (errands : w.Errands) (reason : String) (context : Context) :
    (w.refuse reason context).Listed := by
  have refusal := w.refusal reason context
  generalize w.refuse reason context = w' at refusal
  cases refusal with
  | none => exact listed
  | main launch =>
    have nothing : w.main.taken = [] := by
      obtain ⟨main, c⟩ := w
      cases main with
      | joining result steps taken => cases launch
      | _ => rfl
    refine listed.byMain errands ?_ nothing.symm
    rw [launch]
    exact .refuse
  | @goroutine own id a found launch =>
    have busy : (GoroutinePhase.active a).stance = .busy := Activity.stance_of_errand launch
    refine listed.byGoroutine errands found ?_ (by simp) (by simp [busy])
    rw [show GoroutinePhase.errand? (.active a) = _ from launch]
    exact .refuse

/-- Whatever happens, the invariant is kept. -/
theorem proceed (listed : w.Listed) (errands : w.Errands) {action : Action}
    (allowed : w.Allows action) : (w.proceed setting action).Listed := by
  cases action with
  | act context =>
    cases context with
    | main => exact actMain listed errands allowed.2
    | goroutine id => exact listed.actGoroutine errands id
  | refuse reason context => exact listed.refuse errands reason context
  | relist handles =>
    refine Listing.mono listed fun place phase there stays member => ?_
    rcases List.mem_append.mp member with handle | joining
    · have kept := allowed (place + 1) (Commons.isGone_eq_false there stays)
      exact List.mem_append_left _ (kept.mpr handle)
    · exact List.mem_append_right _ joining

end Listed

/-- If the main context has nothing left to list or to join, no goroutine runs. -/
theorem Listed.all_gone (listed : w.Listed) (errands : w.Errands) (idle : w.main.errand? = none)
    (none : w.commons.handles ++ w.main.taken = []) (place : Nat) :
    ∀ phase, w.commons.goroutines[place]? = some phase → phase.stance = .gone := by
  induction place using Nat.strongRecOn with
  | ind place ih =>
    -- A context with an errand runs, and those with smaller numbers are known not to.
    have noErrand : ∀ k errand, k ≤ place → w.errand? k ≠ some errand := by
      intro k errand smaller runs
      cases k with
      | zero =>
        rw [show w.errand? 0 = w.main.errand? from rfl, idle] at runs
        cases runs
      | succ other =>
        obtain ⟨phase, there, runs⟩ := Option.bind_eq_some_iff.mp runs
        have gone := ih other smaller phase there
        rw [GoroutinePhase.stance_of_errand runs] at gone
        cases gone
    intro phase there
    by_contra stays
    by_cases unlaunched : phase = .reserved
    · subst unlaunched
      obtain ⟨k, launch⟩ := errands.launcher place there
      obtain ⟨other, number, smaller, -⟩ := errands.reserved k _ launch
      exact noErrand k _ (by omega) launch
    · rcases listed place phase there unlaunched stays with ⟨k, registers⟩ | member
      · have smaller := errands.earlier k _ registers
        exact noErrand k _ (by omega) registers
      · rw [none] at member
        cases member

theorem main_act_goroutine (id : Nat) : (w.act setting (.goroutine id)).main = w.main := by
  unfold act
  dsimp only
  split <;> rfl

/-- The main context is done only after it has found nothing more to join. -/
theorem main_of_finished {action : Action} {result : Except Fault Value} {steps : Nat}
    (done : (w.proceed setting action).main = .finished result steps) :
    w.main = .finished result steps ∨
      action = .act .main ∧ w.main = .joining result steps [] ∧ w.commons.handles = [] := by
  have ofProgress : ∀ progress : Progress, MainPhase.ofProgress progress ≠ .finished result steps := by
    intro progress
    cases progress <;> simp [MainPhase.ofProgress]
  cases action with
  | act context =>
    cases context with
    | main =>
      obtain ⟨main, c⟩ := w
      cases main with
      | active a => exact absurd done (ofProgress _)
      | ended _ _ => cases done
      | closed _ _ => cases done
      | joining result' steps' taken =>
        cases taken with
        | nil =>
          simp only [proceed, act, MainPhase.act] at done
          split at done
          · next empty =>
            cases done
            exact .inr ⟨rfl, rfl, empty⟩
          · cases done
        | cons id taken => cases done
      | finished _ _ => exact .inl done
    | goroutine id => exact .inl ((main_act_goroutine id).symm.trans done)
  | refuse reason context =>
    have refusal := w.refusal reason context
    rw [proceed] at done
    generalize w.refuse reason context = w' at refusal done
    cases refusal with
    | none => exact .inl done
    | main launch => cases done
    | goroutine found launch => exact .inl done
  | relist handles => exact .inl done

/-- When the main context is done and no goroutine runs, nothing happens any more. -/
theorem still_of_all_gone {action : Action} {result : Except Fault Value} {steps : Nat}
    (done : w.main = .finished result steps)
    (departed : ∀ phase ∈ w.commons.goroutines, phase.stance = .gone) (allowed : w.Allows action) :
    (w.proceed setting action).commons.goroutines = w.commons.goroutines := by
  cases action with
  | act context =>
    obtain ⟨member, acts⟩ := allowed
    rcases eq_main_or_goroutine member with rfl | ⟨place, phase, rfl, there⟩
    · simp only [canAct, done] at acts
      cases acts
    · have found : w.commons.phase? (place + 1) = some phase := there
      have gone := departed phase (Array.mem_of_getElem? there)
      simp only [canAct, found] at acts
      rcases GoroutinePhase.stance_eq_gone_iff.mp gone with rfl | rfl <;> cases acts
  | refuse reason context =>
    have refusal := w.refusal reason context
    rw [proceed]
    generalize w.refuse reason context = w' at refusal
    cases refusal with
    | none => rfl
    | main launch =>
      rw [done] at launch
      cases launch
    | goroutine found launch =>
      have gone := departed _ (Array.mem_of_getElem? found)
      rw [show GoroutinePhase.stance (.active _) = _ from Activity.stance_of_errand launch] at gone
      cases gone
  | relist handles => rfl

variable {start : World} {past : List (World × Action)}

theorem Course.listed (course : Course setting start past w) (accounted : start.Accounted)
    (listed : start.Listed) : w.Listed := by
  induction course with
  | start => exact listed
  | step action course allowed ih => exact ih.proceed (course.accounted accounted).errands allowed

/-- Once the main context is done, no goroutine runs. -/
theorem Course.all_gone (course : Course setting start past w) (accounted : start.Accounted)
    (listed : start.Listed) (running : ∀ result steps, start.main ≠ .finished result steps)
    {result : Except Fault Value} {steps : Nat} (done : w.main = .finished result steps) :
    ∀ phase ∈ w.commons.goroutines, phase.stance = .gone := by
  induction course with
  | start => exact absurd done (running result steps)
  | @step past w action course allowed ih =>
    rcases main_of_finished done with before | ⟨rfl, joined, empty⟩
    · rw [still_of_all_gone before (ih before) allowed]
      exact ih before
    · have errands := (course.accounted accounted).errands
      have none := (course.listed accounted listed).all_gone errands (by rw [joined]; rfl)
        (by rw [joined, empty]; rfl)
      have same : (w.proceed setting (.act .main)).commons.goroutines = w.commons.goroutines := by
        obtain ⟨main, c⟩ := w
        simp only [proceed, act] at joined empty ⊢
        rw [joined]
        simp only [MainPhase.act, empty]
      intro phase member
      rw [same] at member
      obtain ⟨place, there⟩ := Array.mem_iff_getElem?.mp member
      exact none place phase there

end World

/-! ## Failures that are recorded -/

/-- How far the end of a goroutine has come. -/
inductive Stage where
  | running
  | ended (failure : Option Fault)
  /-- Its failure, if any, is recorded. -/
  | filed

/-- What one action may mean for goroutine `id`, with the failure that the action records. -/
inductive Stage.Step (id : Nat) : Stage → Option (Nat × Fault) → Stage → Prop
  | same {stage : Stage} {files : Option (Nat × Fault)} : (∀ entry ∈ files, entry.1 ≠ id) →
    Step id stage files stage
  | ends {failure : Option Fault} {files : Option (Nat × Fault)} : (∀ entry ∈ files, entry.1 ≠ id) →
    Step id .running files (.ended failure)
  | files {failure : Option Fault} : Step id (.ended failure) (failure.map (id, ·)) .filed

/-- The stage of a goroutine. -/
def GoroutinePhase.stage : GoroutinePhase → Stage
  | .ended failure => .ended failure
  | .recorded => .filed
  | .gone => .filed
  | _ => .running

/-- The stage of goroutine `id`. -/
def Commons.stage (c : Commons) (id : Nat) : Stage :=
  match c.phase? id with
  | some phase => phase.stage
  | none => .running

/-- The failure that an action records. -/
def World.files (w : World) : Action → Option (Nat × Fault)
  | .act (.goroutine id) => (w.fault? (.goroutine id)).map (id, ·)
  | _ => none

namespace Activity

theorem failures_act (setting : Setting) (role : Role) (a : Activity) (c : Commons) :
    (a.act setting role c).2.failures = c.failures := by
  cases a with
  | running m =>
    unfold act
    dsimp only
    cases m.advance setting role c.shared <;> rfl
  | launching id task m => rfl
  | registering id m => rfl
  | waiting since m =>
    unfold act
    dsimp only
    rcases c.shared.group.look role with ⟨found, group⟩
    cases found <;> rfl

end Activity

namespace GoroutinePhase

variable {setting : Setting} {id : Nat} {phase : GoroutinePhase} {c : Commons}

theorem failures_after : (phase.after setting id c).2.failures.toList =
    c.failures.toList ++ (phase.fault?.map (id, ·)).toList := by
  cases phase with
  | starting task =>
    cases task with
    | body command env => exact (List.append_nil _).symm
    | builtin b args => exact (List.append_nil _).symm
  | active a =>
    have kept := congrArg Array.toList (a.failures_act setting .goroutine c)
    exact kept.trans (List.append_nil _).symm
  | ended failure =>
    cases failure with
    | none => exact (List.append_nil _).symm
    | some e => exact Array.toList_push
  | _ => exact (List.append_nil _).symm

/-- The action of a goroutine may end it, and the next one files its failure. -/
theorem stage_after : Stage.Step id phase.stage (phase.fault?.map (id, ·))
    (phase.after setting id c).1.stage := by
  have goes : ∀ new : GoroutinePhase, new.stage = .running ∨ (∃ failure, new.stage = .ended failure) →
      Stage.Step id .running none new.stage := by
    intro new stage
    rcases stage with same | ⟨failure, ended⟩
    · rw [same]
      exact .same nofun
    · rw [ended]
      exact .ends nofun
  have ofReply : ∀ reply : Native.Reply, Stage.Step id .running none (ofReply reply).1.stage := by
    intro reply
    refine goes _ ?_
    cases reply with
    | value v s => exact .inr ⟨_, rfl⟩
    | fault e s => exact .inr ⟨_, rfl⟩
    | asleep s => exact .inl rfl
  cases phase with
  | starting task =>
    cases task with
    | body command env => exact .same nofun
    | builtin b args => exact ofReply _
  | active a =>
    refine goes _ ?_
    unfold after
    dsimp only
    rcases (a.act setting .goroutine c).1 with a' | ⟨e | v, steps⟩
    · exact .inl rfl
    · exact .inr ⟨_, rfl⟩
    · exact .inr ⟨_, rfl⟩
  | waitingBuiltin since => exact ofReply _
  | ended failure => cases failure <;> exact .files
  | _ => exact .same nofun

end GoroutinePhase

namespace Commons

variable {c c' : Commons} {e e' : Option Errand} {errand? : Nat → Option Errand} {k id id' : Nat}
  {old new : GoroutinePhase}

theorem stage_setPhase_self (found : c.phase? id = some old) :
    (c.setPhase id new).stage id = new.stage := by
  obtain ⟨bound, -⟩ := Array.getElem?_eq_some_iff.mp found
  have here : (c.setPhase id new).phase? id = some new :=
    Array.getElem?_setIfInBounds_self_of_lt bound
  simp only [stage, here]

theorem stage_setPhase_ne (apart : id - 1 ≠ id' - 1) : (c.setPhase id new).stage id' = c.stage id' := by
  have there : (c.setPhase id new).phase? id' = c.phase? id' :=
    Array.getElem?_setIfInBounds_ne apart
  simp only [stage, there]

theorem stage_setPhase_of_eq (found : c.phase? id = some old) (same : new.stage = old.stage) :
    (c.setPhase id new).stage id' = c.stage id' := by
  by_cases own : id - 1 = id' - 1
  · have found' : c.phase? id' = some old := by
      unfold phase? at found ⊢
      rw [← own, found]
    have moved : c.setPhase id new = c.setPhase id' new := by
      unfold setPhase
      rw [own]
    rw [moved, stage_setPhase_self found', same]
    simp only [stage, found']
  · exact stage_setPhase_ne own

/-- No other goroutine ends by what a context does. -/
theorem Effect.stage (effect : c.Effect e e' c') (errands : Errands errand? c.goroutines)
    (mine : errand? k = e) (id : Nat) : c'.stage id = c.stage id := by
  have set : ∀ {id' : Nat} {new : GoroutinePhase}, errand? k = some (.launch id') →
      new.stage = .running → (c.setPhase id' new).stage id = c.stage id := by
    intro id' new launch running
    obtain ⟨place, rfl, -, waits⟩ := errands.reserved k id' launch
    have found : c.phase? (place + 1) = some .reserved := waits
    exact stage_setPhase_of_eq found running
  cases effect with
  | work goroutines handles =>
    unfold Commons.stage phase?
    rw [goroutines]
  | reserve goroutines handles =>
    unfold Commons.stage phase?
    rw [goroutines, Array.getElem?_push]
    by_cases last : id - 1 = c.goroutines.size
    · rw [if_pos last, last, Array.getElem?_eq_none (Nat.le_refl _)]
      rfl
    · rw [if_neg last]
  | launch => exact set mine rfl
  | register => rfl
  | refuse => exact set mine rfl

end Commons

namespace World

variable {setting : Setting} {w : World} {action : Action}

theorem of_files {id : Nat} {e : Fault} (filed : w.files action = some (id, e)) :
    action = .act (.goroutine id) ∧ w.fault? (.goroutine id) = some e := by
  unfold files at filed
  split at filed
  · obtain ⟨e', ended, same⟩ := Option.map_eq_some_iff.mp filed
    cases same
    exact ⟨rfl, ended⟩
  · cases filed

/-- The failures after an action. -/
theorem failures_proceed (w : World) (action : Action) :
    (w.proceed setting action).commons.failures.toList =
      w.commons.failures.toList ++ (w.files action).toList := by
  cases action with
  | act context =>
    cases context with
    | main =>
      obtain ⟨main, c⟩ := w
      have kept : (main.act setting c).commons.failures = c.failures := by
        by_cases active : ∃ a, main = .active a
        · obtain ⟨a, rfl⟩ := active
          exact a.failures_act setting .main c
        · obtain ⟨group, handles, same⟩ :=
            main.commons_act setting c fun a running => active ⟨a, running⟩
          rw [same]
      exact (congrArg Array.toList kept).trans (List.append_nil _).symm
    | goroutine id =>
      rcases found : w.commons.phase? id with _ | phase
      · simp [proceed, act, files, fault?, found]
      · unfold proceed files fault?
        dsimp only
        rw [act_goroutine found, found]
        exact phase.failures_after
  | refuse reason context =>
    have kept : (w.refuse reason context).commons.failures = w.commons.failures := by
      have refusal := w.refusal reason context
      generalize w.refuse reason context = w' at refusal
      cases refusal <;> rfl
    exact (congrArg Array.toList kept).trans (List.append_nil _).symm
  | relist handles => exact (List.append_nil _).symm

theorem Accounted.stage_main (accounted : w.Accounted) (id : Nat) :
    (w.act setting .main).commons.stage id = w.commons.stage id := by
  obtain ⟨main, c⟩ := w
  by_cases active : ∃ a, main = .active a
  · obtain ⟨a, rfl⟩ := active
    exact (a.effect_act setting .main c).stage accounted.errands (k := 0) rfl id
  · obtain ⟨group, handles, same⟩ :=
      main.commons_act setting c fun a running => active ⟨a, running⟩
    have kept : (main.act setting c).commons.stage id = c.stage id := by
      rw [same]
      rfl
    exact kept

theorem Accounted.stage_refuse (accounted : w.Accounted) (reason : String) {context : Context}
    (member : context ∈ w.contexts) {id : Nat} (positive : 0 < id) :
    Stage.Step id (w.commons.stage id) none ((w.refuse reason context).commons.stage id) := by
  have refusal := w.refusal reason context
  generalize w.refuse reason context = w' at refusal
  cases refusal with
  | none => exact .same nofun
  | @main id' steps launch =>
    have kept : ((w.commons.setPhase id' .abandoned).onGroup .abandoned).stage id = w.commons.stage id :=
      Commons.Effect.refuse.stage accounted.errands (k := 0) launch id
    rw [kept]
    exact .same nofun
  | @goroutine own id' a found launch =>
    have started := pos_of_mem_contexts member
    have mine := (errand?_goroutine found).trans launch
    have effect : w.commons.Effect _ _ ((w.commons.setPhase id' .abandoned).onGroup .abandoned) :=
      .refuse
    have here := effect.getElem? accounted.errands mine found (by simp)
    by_cases same : id = own
    · subst same
      rw [Commons.stage_setPhase_self here,
        show w.commons.stage id = .running by simp only [Commons.stage, found]; rfl]
      exact .ends nofun
    · rw [Commons.stage_setPhase_ne (by omega), effect.stage accounted.errands mine id]
      exact .same nofun

/-- Each action is a step in the end of each goroutine. -/
theorem Accounted.stage_proceed (accounted : w.Accounted) (allowed : w.Allows action) {id : Nat}
    (positive : 0 < id) :
    Stage.Step id (w.commons.stage id) (w.files action) ((w.proceed setting action).commons.stage id) := by
  cases action with
  | act context =>
    rcases eq_main_or_goroutine allowed.1 with rfl | ⟨place, phase, rfl, there⟩
    · rw [show (w.proceed setting (.act .main)).commons.stage id = _ from accounted.stage_main id]
      exact .same nofun
    · have found : w.commons.phase? (place + 1) = some phase := there
      have mine := errand?_goroutine found
      have others := (phase.effect_after setting (place + 1) w.commons).stage accounted.errands mine id
      have here := phase.phase?_after setting accounted.errands mine found
      unfold World.proceed files fault?
      dsimp only
      rw [act_goroutine found, found]
      by_cases own : id = place + 1
      · subst own
        rw [Commons.stage_setPhase_self here, show w.commons.stage (place + 1) = phase.stage by
          simp only [Commons.stage, found]]
        exact phase.stage_after
      · rw [Commons.stage_setPhase_ne (by omega), others]
        refine .same fun entry filed => ?_
        obtain ⟨e, -, rfl⟩ := Option.map_eq_some_iff.mp filed
        exact Ne.symm own
  | refuse reason context => exact accounted.stage_refuse reason allowed positive
  | relist handles => exact .same nofun

/-- What the past says of goroutine `id` in a stage, and the failures that are recorded for it. -/
inductive Filing (past : List (World × Action)) (id : Nat) : Stage → List (Nat × Fault) → Prop
  | running : (∀ event ∈ past, ∀ failure, event.1.commons.stage id ≠ .ended failure) →
    Filing past id .running []
  | ended {failure : Option Fault} :
    (∀ event ∈ past, ∀ other, event.1.commons.stage id = .ended other → other = failure) →
    Filing past id (.ended failure) []
  | filed {failure : Option Fault} :
    (∀ event ∈ past, ∀ other, event.1.commons.stage id = .ended other → other = failure) →
    (∃ event ∈ past, event.1.commons.stage id = .ended failure) →
    Filing past id .filed (failure.map (id, ·)).toList

/-- The failures that are recorded for goroutine `id`. -/
def entries (w : World) (id : Nat) : List (Nat × Fault) :=
  w.commons.failures.toList.filter (·.1 = id)

variable {past : List (World × Action)} {id : Nat}

theorem Filing.step {stage : Stage} {files : Option (Nat × Fault)} {recorded : List (Nat × Fault)}
    (filing : Filing past id (w.commons.stage id) recorded)
    (step : Stage.Step id (w.commons.stage id) files stage) :
    Filing (past ++ [(w, action)]) id stage (recorded ++ files.toList.filter (·.1 = id)) := by
  have others : ∀ {files : Option (Nat × Fault)}, (∀ entry ∈ files, entry.1 ≠ id) →
      recorded ++ files.toList.filter (·.1 = id) = recorded := by
    intro files other
    rw [List.filter_eq_nil_iff.mpr, List.append_nil]
    intro entry member
    simpa using other entry (Option.mem_toList.mp member)
  generalize now : w.commons.stage id = before at filing step
  cases step with
  | same other =>
    rw [others other]
    cases filing with
    | running none =>
      exact .running (forall_mem_snoc none (by simp [now]))
    | ended unique =>
      exact .ended (forall_mem_snoc unique (by simp [now]))
    | filed unique found =>
      obtain ⟨event, member, ended⟩ := found
      exact .filed (forall_mem_snoc unique (by simp [now]))
        ⟨event, List.mem_append_left _ member, ended⟩
  | ends other =>
    rw [others other]
    cases filing with
    | running none =>
      refine .ended (forall_mem_snoc (fun event member failure ended => ?_) (by simp [now]))
      exact absurd ended (none event member failure)
  | @files failure =>
    cases filing with
    | ended unique =>
      have own : (failure.map (id, ·)).toList.filter (·.1 = id) = (failure.map (id, ·)).toList := by
        cases failure <;> simp
      rw [own, List.nil_append]
      exact .filed (forall_mem_snoc unique (by simp [now])) ⟨(w, action), by simp, now⟩

theorem Course.filing {start : World} (course : Course setting start past w)
    (accounted : start.Accounted) (fresh : start.commons.goroutines = #[])
    (clean : start.commons.failures = #[]) (positive : 0 < id) :
    Filing past id (w.commons.stage id) (w.entries id) := by
  induction course with
  | start =>
    have stage : start.commons.stage id = .running := by
      simp [Commons.stage, Commons.phase?, fresh]
    rw [stage, entries, clean]
    exact .running (List.forall_mem_nil _)
  | @step past w action course allowed ih =>
    have grown : (w.proceed setting action).entries id =
        w.entries id ++ (w.files action).toList.filter (·.1 = id) := by
      unfold entries
      rw [failures_proceed, List.filter_append]
    have step : Stage.Step id (w.commons.stage id) (w.files action)
        ((w.proceed setting action).commons.stage id) :=
      (course.accounted accounted).stage_proceed allowed positive
    rw [grown]
    exact ih.step step

/-- The failures are those that have been recorded, in order. -/
theorem Course.failures_eq {start : World} (course : Course setting start past w)
    (clean : start.commons.failures = #[]) :
    w.commons.failures.toList = past.filterMap fun event => event.1.files event.2 := by
  induction course with
  | start => rw [clean]; rfl
  | @step past w action course allowed ih =>
    rw [failures_proceed, ih, List.filterMap_append]
    cases filed : w.files action <;> simp [filed]

/-- A goroutine ends once. -/
theorem Filing.unique {stage : Stage} {recorded : List (Nat × Fault)}
    (filing : Filing past id stage recorded) {event event' : World × Action} {failure failure' : Option Fault}
    (member : event ∈ past) (member' : event' ∈ past)
    (ended : event.1.commons.stage id = .ended failure)
    (ended' : event'.1.commons.stage id = .ended failure') : failure = failure' := by
  cases filing with
  | running none => exact absurd ended (none event member failure)
  | ended unique => rw [unique event member _ ended, unique event' member' _ ended']
  | filed unique _ => rw [unique event member _ ended, unique event' member' _ ended']

theorem fault?_eq_some_iff {e : Fault} :
    w.fault? (.goroutine id) = some e ↔ w.commons.stage id = .ended (some e) := by
  unfold fault? Commons.stage
  dsimp only
  cases w.commons.phase? id with
  | none => simp
  | some phase => cases phase <;> simp [GoroutinePhase.fault?, GoroutinePhase.stage]

/-! ## The result of a run -/

/-- The main machine has come to an end, with a result after a number of steps. -/
def Returned (past : List (World × Action)) (result : Except Fault Value) (steps : Nat) : Prop :=
  ∃ event ∈ past, event.1.main = .ended result steps

/-- Goroutine `id` has ended in a fault. -/
def Failed (past : List (World × Action)) (id : Nat) (e : Fault) : Prop :=
  0 < id ∧ ∃ event ∈ past, event.1.fault? (.goroutine id) = some e

/-- The failures that have been recorded, in order. -/
def recorded (past : List (World × Action)) : List (Nat × Fault) :=
  past.filterMap fun event => event.1.files event.2

end World

/-- The result that the main machine has come to, and the number of its steps. -/
def MainPhase.result? : MainPhase → Option (Except Fault Value × Nat)
  | .active _ => none
  | .ended result steps => some (result, steps)
  | .closed result steps => some (result, steps)
  | .joining result steps _ => some (result, steps)
  | .finished result steps => some (result, steps)

namespace World

variable {setting : Setting} {start w : World} {past : List (World × Action)}

/-- The main machine comes to a result once. -/
theorem main_result?_proceed (setting : Setting) (w : World) (action : Action) :
    (w.proceed setting action).main.result? = w.main.result? ∨
      w.main.result? = none ∧ ∃ result steps, (w.proceed setting action).main = .ended result steps := by
  have ofProgress : ∀ progress : Progress, (MainPhase.ofProgress progress).result? = none ∨
      ∃ result steps, MainPhase.ofProgress progress = .ended result steps := by
    intro progress
    cases progress with
    | goes a => exact .inl rfl
    | ends result steps => exact .inr ⟨result, steps, rfl⟩
  cases action with
  | act context =>
    cases context with
    | main =>
      obtain ⟨main, c⟩ := w
      cases main with
      | active a => exact (ofProgress _).imp id fun ended => ⟨rfl, ended⟩
      | ended result steps => exact .inl rfl
      | closed result steps => exact .inl rfl
      | joining result steps taken =>
        refine .inl ?_
        cases taken with
        | nil =>
          unfold proceed act MainPhase.act
          dsimp only
          split <;> rfl
        | cons id taken => rfl
      | finished result steps => exact .inl rfl
    | goroutine id => exact .inl (congrArg _ (main_act_goroutine id))
  | refuse reason context =>
    have refusal := w.refusal reason context
    rw [proceed]
    generalize w.refuse reason context = w' at refusal
    cases refusal with
    | none => exact .inl rfl
    | main launch =>
      refine .inr ⟨?_, _, _, rfl⟩
      obtain ⟨main, c⟩ := w
      cases main with
      | active a => rfl
      | _ => cases launch
    | goroutine found launch => exact .inl rfl
  | relist handles => exact .inl rfl

/-- The main context goes by the result that its machine has returned. -/
theorem Course.result? (course : Course setting start past w) (running : start.main.result? = none) :
    (∀ event ∈ past, ∀ result, event.1.main.result? = some result → w.main.result? = some result) ∧
    ∀ result steps, w.main.result? = some (result, steps) →
      w.main = .ended result steps ∨ Returned past result steps := by
  induction course with
  | start =>
    refine ⟨List.forall_mem_nil _, fun result steps has => ?_⟩
    rw [running] at has
    cases has
  | @step past w action course allowed ih =>
    obtain ⟨kept, came⟩ := ih
    rcases main_result?_proceed setting w action with same | ⟨none, result, steps, ended⟩
    · rw [same]
      refine ⟨forall_mem_snoc kept fun _ => id, fun result steps has => .inr ?_⟩
      rcases came result steps has with now | ⟨event, member, then'⟩
      · exact ⟨(w, action), by simp, now⟩
      · exact ⟨event, List.mem_append_left _ member, then'⟩
    · refine ⟨forall_mem_snoc (fun event member result has => ?_) fun result has => ?_,
        fun result' steps' has => .inl ?_⟩
      · rw [kept event member result has] at none
        cases none
      · rw [show w.main.result? = some result from has] at none
        cases none
      · rw [ended] at has ⊢
        cases has
        rfl

/-- What is known of the goroutines of a run when its main context is done. -/
structure Joined (setting : Setting) (past : List (World × Action)) (w : World) : Prop where
  /-- Every goroutine that was launched has run to its end. -/
  complete : ∀ phase ∈ w.commons.goroutines, phase = .gone ∨ phase = .abandoned
  /-- A goroutine that failed has one entry, with its fault. -/
  entry : ∀ id e, Failed past id e → w.entries id = [(id, e)]
  /-- There are no other entries. -/
  failed : ∀ id e, (id, e) ∈ w.commons.failures → Failed past id e
  /-- The entries are in the order in which they were made. -/
  ordered : w.commons.failures.toList = recorded past
  /-- The entry of a goroutine is made before the goroutine leaves the wait group. -/
  before : ∀ id e, Failed past id e → ∀ v, (v, .act (.goroutine id)) ∈ past →
    v.deed setting (.goroutine id) = .finish → (id, e) ∈ v.commons.failures

/-- The main context of a course that starts afresh is done only when everything is joined. -/
theorem Course.joined (course : Course setting start past w) (accounted : start.Accounted)
    (running : start.main.result? = none) (fresh : start.commons.goroutines = #[])
    (clean : start.commons.failures = #[]) {result : Except Fault Value} {steps : Nat}
    (done : w.main = .finished result steps) : w.Joined setting past := by
  have listed : start.Listed := by
    intro place phase there
    rw [fresh] at there
    cases there
  have departed := course.all_gone accounted listed (fun result steps finished => by
    rw [finished] at running
    cases running) done
  have filing : ∀ {id : Nat}, 0 < id → Filing past id (w.commons.stage id) (w.entries id) :=
    course.filing accounted fresh clean
  have entry : ∀ id e, Failed past id e → w.entries id = [(id, e)] := by
    intro id e failed
    obtain ⟨positive, event, member, ended⟩ := failed
    have filing := filing positive
    have ended := fault?_eq_some_iff.mp ended
    generalize stage : w.commons.stage id = stage at filing
    generalize w.entries id = entries at filing
    cases filing with
    | running none => exact absurd ended (none event member _)
    | ended unique =>
      -- A goroutine that has ended just now still runs.
      unfold Commons.stage at stage
      split at stage
      · next phase found =>
        have gone := departed phase (Array.mem_of_getElem? found)
        cases phase with
        | ended failure => cases gone
        | _ => cases stage
      · cases stage
    | filed unique _ =>
      rw [← unique event member _ ended]
      rfl
  refine ⟨fun phase member => GoroutinePhase.stance_eq_gone_iff.mp (departed phase member), entry,
    fun id e member => ?_, course.failures_eq clean, fun id e failed v finishing finishes => ?_⟩
  · rw [← Array.mem_toList_iff, course.failures_eq clean] at member
    obtain ⟨⟨v, action⟩, member, filed⟩ := List.mem_filterMap.mp member
    obtain ⟨rfl, ended⟩ := of_files filed
    obtain ⟨earlier, -, allowed⟩ := course.of_mem member
    exact ⟨pos_of_mem_contexts allowed.1, _, member, ended⟩
  · obtain ⟨positive, event, member, ended⟩ := failed
    obtain ⟨earlier, later, rfl⟩ := List.append_of_mem finishing
    obtain ⟨before, allowed, -⟩ := course.split
    have filed : v.commons.stage id = .filed := by
      rcases found : v.commons.phase? id with _ | phase
      · simp only [deed, found] at finishes
        cases finishes
      · rw [deed_goroutine found, GoroutinePhase.deed_eq_finish_iff] at finishes
        simp only [Commons.stage, found, finishes]
        rfl
    have filing' := before.filing accounted fresh clean positive
    rw [filed] at filing'
    generalize listed : v.entries id = entries at filing'
    cases filing' with
    | filed _ found =>
      obtain ⟨event', member', ended'⟩ := found
      have same := (filing positive).unique member (List.mem_append_left _ member')
        (fault?_eq_some_iff.mp ended) ended'
      subst same
      have here : (id, e) ∈ v.entries id := by
        rw [listed]
        exact List.mem_singleton_self _
      exact Array.mem_toList_iff.mp (List.mem_filter.mp here).1

/-- If a goroutine failed, the first entry is that of one that did. -/
theorem Joined.first (joined : w.Joined setting past) {id : Nat} {e : Fault}
    (failed : Failed past id e) :
    ∃ id e, w.commons.failures[0]? = some (id, e) ∧ (recorded past).head? = some (id, e) ∧
      Failed past id e := by
  have member : (id, e) ∈ w.commons.failures.toList := by
    have listed : (id, e) ∈ w.entries id := by
      rw [joined.entry id e failed]
      exact List.mem_singleton_self _
    exact (List.mem_filter.mp listed).1
  rw [← joined.ordered, List.head?_eq_getElem?, Array.getElem?_toList]
  cases first : w.commons.failures[0]? with
  | none =>
    have empty : w.commons.failures.size = 0 := by simpa using first
    rw [Array.eq_empty_of_size_eq_zero empty] at member
    cases member
  | some entry =>
    exact ⟨entry.1, entry.2, rfl, rfl, joined.failed _ _ (Array.mem_of_getElem? first)⟩

theorem Joined.none (joined : w.Joined setting past) (noFailure : ∀ id e, ¬ Failed past id e) :
    w.commons.failures[0]? = none := by
  cases first : w.commons.failures[0]? with
  | none => rfl
  | some entry => exact absurd (joined.failed _ _ (Array.mem_of_getElem? first)) (noFailure _ _)

end World

/-- A run whose main context is done has waited for everything and lost no failure. Its result is the
value of the main machine exactly if this returned one and no goroutine failed. A fault of the main
machine comes first, and otherwise the result is the failure that was recorded first. -/
theorem run_joins_and_reports (program : Program) (limits : Limits) {past : List (World × Action)}
    {w : World} (course : World.Course (program.setting limits) program.initial past w)
    {result : Except Fault Value} {steps : Nat} (done : w.main = .finished result steps) :
    w.Joined (program.setting limits) past ∧
    World.Returned past result steps ∧
    (∀ v, (∃ n, w.result? = some (.ok v, n)) ↔
      (∃ n, World.Returned past (.ok v) n) ∧ ∀ id e, ¬ World.Failed past id e) ∧
    (∀ e n, World.Returned past (.error e) n → w.result? = some (.error e, n)) ∧
    ∀ v n, World.Returned past (.ok v) n → (∃ id e, World.Failed past id e) →
      ∃ id e, (World.recorded past).head? = some (id, e) ∧ World.Failed past id e ∧
        w.result? = some (.error (.goroutineFailed id e), n) := by
  have joined := course.joined (World.Accounted.initial program) rfl rfl rfl done
  obtain ⟨kept, came⟩ := course.result? rfl
  have returned : World.Returned past result steps := by
    refine (came result steps (by rw [done]; rfl)).resolve_left ?_
    rw [done]
    nofun
  have unique : ∀ {result' n}, World.Returned past result' n → result' = result ∧ n = steps := by
    rintro result' n ⟨event, member, ended⟩
    have same := kept event member (result', n) (by rw [ended]; rfl)
    rw [done] at same
    cases same
    exact ⟨rfl, rfl⟩
  refine ⟨joined, returned, fun v => ⟨?_, ?_⟩, fun e n fails => ?_, fun v n returns failed => ?_⟩
  · rintro ⟨n, ended⟩
    unfold World.result? at ended
    rw [done] at ended
    cases result with
    | error e => cases ended
    | ok v' =>
      dsimp only at ended
      cases first : w.commons.failures[0]? with
      | some entry =>
        rw [first] at ended
        cases ended
      | none =>
        rw [first] at ended
        cases ended
        refine ⟨⟨_, returned⟩, fun id e failed => ?_⟩
        obtain ⟨id', e', entry, -⟩ := joined.first failed
        rw [first] at entry
        cases entry
  · rintro ⟨⟨n, returns⟩, noFailure⟩
    obtain ⟨rfl, rfl⟩ := unique returns
    exact ⟨n, by simp only [World.result?, done, joined.none noFailure]⟩
  · obtain ⟨rfl, rfl⟩ := unique fails
    simp only [World.result?, done]
  · obtain ⟨rfl, rfl⟩ := unique returns
    obtain ⟨id, e, failed⟩ := failed
    obtain ⟨id, e, entry, first, failed⟩ := joined.first failed
    exact ⟨id, e, first, failed, by simp only [World.result?, done, entry]⟩

/-- A goroutine starts another one, which fails, while the main context is joining already. -/
def lateFailure : Program :=
  ⟨.seq [.go (.lambda [] (.goNamed "waitGroupAdd" [.lit (.int (-1))])) [], .lit (.int 7)]⟩

/-- The main context is done. -/
def lateFailure.done : World :=
  (lateFailure.initial.run (lateFailure.setting {}) false 30 ⟨0, World.turnLength⟩ #[]).1

/-- All that has happened until then. -/
def lateFailure.past : List (World × Action) :=
  lateFailure.initial.turns (lateFailure.setting {}) 30 ⟨0, World.turnLength⟩

theorem run_joins_and_reports_lateFailure :
    lateFailure.done.main = .finished (.ok (.int 7)) 6 ∧
    lateFailure.done.Joined (lateFailure.setting {}) lateFailure.past ∧
    World.Failed lateFailure.past 2 (.waitGroupMisuse (-1)) ∧
    lateFailure.done.result? = some (.error (.goroutineFailed 2 (.waitGroupMisuse (-1))), 6) ∧
    ∃ id e, (World.recorded lateFailure.past).head? = some (id, e) ∧
      lateFailure.done.result? = some (.error (.goroutineFailed id e), 6) := by
  have course : World.Course (lateFailure.setting {}) lateFailure.initial lateFailure.past
      lateFailure.done := World.Course.run .start false 30 ⟨0, World.turnLength⟩ #[]
  have finished : lateFailure.done.main = .finished (.ok (.int 7)) 6 := rfl
  have entries : lateFailure.done.commons.failures = #[(2, .waitGroupMisuse (-1))] := rfl
  obtain ⟨joined, returned, -, -, reports⟩ := run_joins_and_reports lateFailure {} course finished
  have failed : World.Failed lateFailure.past 2 (.waitGroupMisuse (-1)) :=
    joined.failed 2 _ (by simp [entries])
  obtain ⟨id, e, first, -, result⟩ := reports _ _ returned ⟨_, _, failed⟩
  exact ⟨finished, joined, failed, rfl, id, e, first, result⟩

end ControlStash
