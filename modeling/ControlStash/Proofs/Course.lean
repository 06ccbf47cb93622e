import ControlStash.Proofs.Waiting

/-!
# Courses of a run

Where a result is about what has happened so far, the world at hand does not tell it. A `World.Course`
is a run together with its past: every action, in order, with the world in which it was made. Besides
actions of contexts and refused launches there are passes over the list of goroutines to be joined. A
context makes one with each start of a goroutine; apart from that passes may come at any time and be
late to notice which goroutines are gone, so nothing shown of courses depends on when this is noticed.

The turns that `World.run` takes are a course (`World.Course.run`).
-/

namespace ControlStash

/-- What can happen in a run. -/
inductive Action where
  | act (context : Context)
  /-- The host refuses the launch that a context is about to make. -/
  | refuse (reason : String) (context : Context)
  /-- A pass over the goroutines listed for joining, which leaves `handles` on the list. -/
  | relist (handles : List Nat)
  deriving DecidableEq

namespace World

/-- The world after an action. -/
def proceed (setting : Setting) (w : World) : Action → World
  | .act context => w.act setting context
  | .refuse reason context => w.refuse reason context
  | .relist handles => { w with commons := { w.commons with handles } }

/-- An action is possible. A pass over the list matters only for goroutines that are gone. -/
def Allows (w : World) : Action → Prop
  | .act context => context ∈ w.contexts ∧ w.canAct context = true
  | .refuse _ context => context ∈ w.contexts
  | .relist handles => ∀ id, w.commons.isGone id = false → (id ∈ handles ↔ id ∈ w.commons.handles)

/-- `past` is what has happened between a start and a world. -/
inductive Course (setting : Setting) (start : World) : List (World × Action) → World → Prop
  | start : Course setting start [] start
  | step {past : List (World × Action)} {w : World} (action : Action) :
    Course setting start past w → w.Allows action →
    Course setting start (past ++ [(w, action)]) (w.proceed setting action)

variable {setting : Setting} {start w v : World} {past earlier later : List (World × Action)}
  {action : Action}

theorem forall_mem_snoc {p : World × Action → Prop} (before : ∀ event ∈ past, p event)
    (last : p (w, action)) : ∀ event ∈ past ++ [(w, action)], p event :=
  List.forall_mem_append.mpr ⟨before, List.forall_mem_singleton.mpr last⟩

/-- The accounts stay right whatever happens. -/
theorem Accounted.proceed (accounted : w.Accounted) (action : Action) :
    (w.proceed setting action).Accounted := by
  cases action with
  | act context => exact accounted.act context
  | refuse reason context => exact accounted.refuse reason context
  | relist handles => exact ⟨accounted.errands, accounted.books, accounted.alert⟩

/-- The accounts are right all along a course. -/
theorem Course.accounted (course : Course setting start past w) (accounted : start.Accounted) :
    w.Accounted := by
  induction course with
  | start => exact accounted
  | step action _ _ ih => exact ih.proceed action

/-- A discipline that every step keeps holds all along a course. -/
theorem Course.obeys {d : Discipline} (kept : d.Kept setting) (course : Course setting start past w)
    (obeys : d.World start) : d.World w := by
  induction course with
  | start => exact obeys
  | step action _ _ ih =>
    cases action with
    | act context => exact kept.act ih context
    | refuse reason context => exact kept.refuse ih reason context
    | relist handles =>
      exact ⟨ih.main, ih.commons.store, ih.commons.goroutines, ih.commons.failures⟩

/-- What comes before an action of the past is a course, and so is what comes after it. -/
theorem Course.split (course : Course setting start (earlier ++ (v, action) :: later) w) :
    Course setting start earlier v ∧ v.Allows action ∧
      Course setting (v.proceed setting action) later w := by
  generalize whole : earlier ++ (v, action) :: later = past at course
  induction course generalizing later with
  | start => cases List.append_eq_nil_iff.mp whole |>.2
  | @step past w last course allowed ih =>
    rcases List.eq_nil_or_concat later with rfl | ⟨later, event, rfl⟩
    · obtain ⟨rfl, same⟩ := List.append_inj' whole rfl
      cases same
      exact ⟨course, allowed, .start⟩
    · rw [List.concat_eq_append, ← List.cons_append, ← List.append_assoc] at whole
      obtain ⟨rfl, same⟩ := List.append_inj' whole rfl
      cases same
      obtain ⟨before, possible, after⟩ := ih rfl
      rw [List.concat_eq_append]
      exact ⟨before, possible, .step last after allowed⟩

/-- A world of the past has a past of its own. -/
theorem Course.of_mem (course : Course setting start past w) (member : (v, action) ∈ past) :
    ∃ earlier, Course setting start earlier v ∧ v.Allows action := by
  obtain ⟨earlier, later, rfl⟩ := List.append_of_mem member
  obtain ⟨before, possible, -⟩ := course.split
  exact ⟨earlier, before, possible⟩

/-! ## Contexts taking turns -/

theorem context_mem_contexts {number : Nat} (acts : w.canAct (context number) = true) :
    context number ∈ w.contexts := by
  cases number with
  | zero => exact List.mem_cons_self
  | succ place =>
    refine List.mem_cons_of_mem _ (mem_goroutines.mpr ⟨place, rfl, ?_⟩)
    simp only [context, canAct] at acts
    split at acts
    · next phase found =>
      obtain ⟨bound, -⟩ := Array.getElem?_eq_some_iff.mp found
      exact bound
    · cases acts

/-- The actions of contexts that take turns. -/
def turns (setting : Setting) : (fuel : Nat) → Turn → World → List (World × Action)
  | 0, _, _ => []
  | fuel + 1, turn, w =>
    match w.choose? turn with
    | none => []
    | some turn =>
      let acting := context turn.number
      (w, .act acting) :: (w.act setting acting).turns setting fuel turn

/-- A run is one of the courses that are possible. -/
theorem Course.run (course : Course setting start past w) (traced : Bool) (fuel : Nat) (turn : Turn)
    (trace : Array (Context × TraceEntry)) :
    Course setting start (past ++ w.turns setting fuel turn)
      (w.run setting traced fuel turn trace).1 := by
  induction fuel generalizing past w turn trace with
  | zero =>
    rw [turns, List.append_nil]
    exact course
  | succ fuel ih =>
    unfold World.run turns
    cases chosen : w.choose? turn with
    | none =>
      rw [List.append_nil]
      exact course
    | some turn' =>
      have acts := canAct_of_choose? chosen
      have acted : Course setting start (past ++ [(w, .act (context turn'.number))])
          (w.act setting (context turn'.number)) :=
        course.step (.act _) ⟨context_mem_contexts acts, acts⟩
      dsimp only
      rw [List.append_cons]
      exact ih acted turn' _

end World

end ControlStash
