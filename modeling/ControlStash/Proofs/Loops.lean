import ControlStash.Proofs.Lockstep
import ControlStash.Proofs.Threshold

/-!
# The two spellings of a loop

A `while` and a `for` with the same condition and body are the same loop, and no program can tell
them apart: the machine schedules the same items for both, and decides in the same way whether to go
round once more. So two programs that differ in the spelling of loops, wherever they are, run side
by side (`World.Abreast`). In each step both machines take items of one kind off control stacks of
one height, and all that differs in their traces is the names of the loops.
-/

namespace ControlStash

/-! ## Respelling -/

/-- A loop may be spelled in either way. -/
inductive LoopSpelling : Command → Command → Prop
  | loop {form form' pred body} : LoopSpelling (.loop form pred body) (.loop form' pred body)

/-- The second tree is the first with any set of its loops spelled in the other way. -/
abbrev Respelled : Command → Command → Prop :=
  Rewritten LoopSpelling

/-- Two tags are the same, or name loops, or name the instructions of loops. -/
inductive SameTag : String → String → Prop
  | same {a} : SameTag a a
  | loops {a b} : a ∈ ["while", "for"] → b ∈ ["while", "for"] → SameTag a b
  | instructions {a b} : a ∈ ["while_i", "for_i"] → b ∈ ["while_i", "for_i"] → SameTag a b

/-- Two steps are traced the same, up to the names of loops. -/
structure TraceEntry.Same (a b : TraceEntry) : Prop where
  tag : SameTag a.tag b.tag
  control : a.control = b.control
  stash : a.stash = b.stash

/-- Two traces are the same step by step, up to the names of loops. -/
def SameTrace (trace trace' : Array (Context × TraceEntry)) : Prop :=
  List.Forall₂ (fun a b => a.1 = b.1 ∧ a.2.Same b.2) trace.toList trace'.toList

theorem SameTrace.push {trace trace' : Array (Context × TraceEntry)} {entry entry' : TraceEntry}
    (same : SameTrace trace trace') (context : Context) (last : entry.Same entry') :
    SameTrace (trace.push (context, entry)) (trace'.push (context, entry')) := by
  unfold SameTrace
  rw [Array.toList_push, Array.toList_push]
  exact List.rel_append same (.cons ⟨rfl, last⟩ .nil)

namespace Respelled

variable {c d : Command} {item item' : Item}

theorem congruence : Command.Congruence Respelled :=
  Rewritten.congruence fun _ _ ⟨⟩ _ => rfl

/-- The root of a tree stays of its kind. -/
theorem alike (respelled : Respelled c d) : c.Alike Respelled d := by
  cases respelled with
  | keep alike => exact alike
  | turn alike tag turned =>
    cases turned
    cases alike with
    | loop pred body => exact .loop pred body

theorem level (items : item.Alike Respelled item') : Machine.Level Respelled item item' := by
  cases items with
  | command respelled => exact .command respelled.alike
  | instruction same => exact .instruction same

theorem tag_command (respelled : Respelled c d) : SameTag c.tag d.tag := by
  have named : ∀ form pred body, (Command.loop form pred body).tag ∈ ["while", "for"] :=
    fun form _ _ => by cases form <;> simp [Command.tag]
  cases respelled with
  | keep alike tag => exact tag ▸ .same
  | turn alike tag turned =>
    cases turned
    rw [tag]
    exact .loops (named _ _ _) (named _ _ _)

theorem tag_item (items : item.Alike Respelled item') : SameTag item.tag item'.tag := by
  have named : ∀ form pred body, (Instruction.loop form pred body).tag ∈ ["while_i", "for_i"] :=
    fun form _ _ => by cases form <;> simp [Instruction.tag]
  cases items with
  | command respelled => exact respelled.tag_command
  | instruction same =>
    cases same with
    | branch | «catch» | same => exact .same
    | loop => exact .instructions (named _ _ _) (named _ _ _)

end Respelled

/-! ## Steps side by side -/

namespace Machine

variable {m m' : Machine} {s s' : Shared}

/-- Machines alike that have taken the same number of steps are cut off by the step limit at the
same time, and otherwise take steps alike. -/
theorem advance_abreast (setting : Setting) (solo : Solo m s) (machines : m.Alike Respelled m')
    (shared : s.Alike Respelled s') (counted : m.steps = m'.steps) :
    (m.advance setting .main s).Alike Respelled (m'.advance setting .main s') ∧
      (m.advance setting .main s).steps = (m'.advance setting .main s').steps := by
  rcases machines.control.pop? with
    ⟨empty, empty'⟩ | ⟨item, item', control, control', top, top', items, -⟩
  · rw [advance_of_empty empty, advance_of_empty empty']
    exact ⟨.stop (finish_alike machines) shared, counted⟩
  · rcases Nat.lt_or_ge m.steps setting.limits.steps with within | reached
    · have within' : m'.steps < setting.limits.steps := counted ▸ within
      have enough := solo.taken_le (Stack.pop?_eq_some_iff.mp top)
      refine ⟨advance_alike Respelled.congruence machines shared top top' (Respelled.level items)
        enough within within', ?_⟩
      rw [(follows_advance top within).steps, (follows_advance top' within').steps, counted]
    · rw [advance_of_limit_le top reached, advance_of_limit_le top' (counted ▸ reached)]
      exact ⟨.stop .error shared, counted⟩

end Machine

/-! ## Runs side by side -/

theorem Shared.Alike.onGroup {R : Command → Command → Prop} {s s' : Shared}
    (shared : s.Alike R s') (f : WaitGroup → WaitGroup) :
    ({ s with group := f s.group } : Shared).Alike R { s' with group := f s'.group } :=
  ⟨shared.store, shared.output, congrArg f shared.group, shared.groupCalls⟩

/-- Two main contexts that have ended are at the same stage of their end, with results alike. -/
inductive MainPhase.Over : MainPhase → MainPhase → Prop
  | ended {result result' k} : Coincide (Value.Alike Respelled) result result' →
    Over (.ended result k) (.ended result' k)
  | closed {result result' k} : Coincide (Value.Alike Respelled) result result' →
    Over (.closed result k) (.closed result' k)
  | joining {result result' k} : Coincide (Value.Alike Respelled) result result' →
    Over (.joining result k []) (.joining result' k [])
  | finished {result result' k} : Coincide (Value.Alike Respelled) result result' →
    Over (.finished result k) (.finished result' k)

namespace World

/-- Two worlds of one context each are side by side. -/
inductive Abreast : World → World → Prop
  | running {m m' s s'} : Solo m s → m.Alike Respelled m' → s.Alike Respelled s' →
    m.steps = m'.steps →
    Abreast (alone (.active (.running m)) s) (alone (.active (.running m')) s')
  | ending {phase phase' s s'} : phase.Over phase' → s.Alike Respelled s' →
    Abreast (alone phase s) (alone phase' s')

variable {setting : Setting} {w w' : World}

/-- The same context is chosen to act. -/
theorem Abreast.choose? (abreast : Abreast w w') (turn : Turn) :
    w.choose? turn = w'.choose? turn := by
  have same : ∀ context, w.canAct context = w'.canAct context := by
    intro context
    cases context with
    | goroutine id => cases abreast <;> rfl
    | main =>
      cases abreast with
      | running => rfl
      | ending phases => cases phases <;> rfl
  have count : w.commons.goroutines.size = w'.commons.goroutines.size := by
    cases abreast <;> rfl
  simp only [World.choose?, World.next?, same, count]

/-- Its action is traced the same. -/
theorem Abreast.traceStep? (abreast : Abreast w w') (limits : Limits) (context : Context) :
    Option.Rel TraceEntry.Same (w.traceStep? limits context) (w'.traceStep? limits context) := by
  cases context with
  | goroutine id => cases abreast <;> exact .none
  | main =>
    cases abreast with
    | ending phases => cases phases <;> exact .none
    | @running m m' s s' solo machines shared counted =>
      show Option.Rel _ (m.traceStep? limits) (m'.traceStep? limits)
      unfold Machine.traceStep?
      rcases machines.control.pop? with
        ⟨empty, empty'⟩ | ⟨item, item', control, control', top, top', items, below⟩
      · simp only [empty, empty']
        exact .none
      · simp only [top, top', ← counted]
        split
        · exact .none
        · exact .some ⟨Respelled.tag_item items, below.size_eq, machines.stash.size_eq⟩

/-- After it the worlds are still side by side. -/
theorem Abreast.act (abreast : Abreast w w') (context : Context) :
    Abreast (w.act setting context) (w'.act setting context) := by
  cases context with
  | goroutine id =>
    cases abreast with
    | running solo machines shared counted => exact .running solo machines shared counted
    | ending phases shared => exact .ending phases shared
  | main =>
    cases abreast with
    | @running m m' s s' solo machines shared counted =>
      -- the step of the first machine is that of a machine alone, and the other's is alike to it
      have both := Machine.advance_abreast setting solo machines shared counted
      generalize other : m'.advance setting .main s' = o at both
      rcases solo.advance setting with ⟨m₁, s₁, goes, -, solo₁⟩ | ⟨result, m₁, s₁, stops⟩
      · rw [goes] at both
        obtain ⟨alike, counted₁⟩ := both
        cases alike with
        | next machines₁ shared₁ =>
          rw [act_alone_next goes, act_alone_next other]
          exact .running solo₁ machines₁ shared₁ counted₁
      · rw [stops] at both
        obtain ⟨alike, counted₁⟩ := both
        cases alike with
        | @stop _ _ _ m₁' _ _ results shared₁ =>
          have counted₁ : m₁.steps = m₁'.steps := counted₁
          rw [act_alone_stop stops, act_alone_stop other, counted₁]
          exact .ending (.ended results) shared₁
    | ending phases shared =>
      cases phases with
      | ended results => exact .ending (.closed results) (shared.onGroup _)
      | closed results => exact .ending (.joining results) (shared.onGroup _)
      | joining results => exact .ending (.finished results) shared
      | finished results => exact .ending (.finished results) shared

/-- Runs that start side by side stay so, and are traced the same. -/
theorem Abreast.run (setting : Setting) (traced : Bool) (fuel : Nat) (turn : Turn)
    (abreast : Abreast w w') {trace trace' : Array (Context × TraceEntry)}
    (before : SameTrace trace trace') :
    Abreast (w.run setting traced fuel turn trace).1 (w'.run setting traced fuel turn trace').1 ∧
      SameTrace (w.run setting traced fuel turn trace).2
        (w'.run setting traced fuel turn trace').2 := by
  induction fuel generalizing w w' turn trace trace' with
  | zero => exact ⟨abreast, before⟩
  | succ fuel ih =>
    unfold World.run
    rw [← abreast.choose? turn]
    cases w.choose? turn with
    | none => exact ⟨abreast, before⟩
    | some turn =>
      refine ih turn (abreast.act _) ?_
      cases traced with
      | false => exact before
      | true =>
        have entries := abreast.traceStep? setting.limits (context turn.number)
        simp only [if_true]
        generalize w.traceStep? setting.limits (context turn.number) = x,
          w'.traceStep? setting.limits (context turn.number) = y at entries ⊢
        cases entries with
        | none => exact before
        | some entry => exact before.push _ entry

/-- What contexts share in the two worlds is alike. -/
theorem Abreast.shared (abreast : Abreast w w') :
    w.commons.shared.Alike Respelled w'.commons.shared := by
  cases abreast with
  | running _ _ shared _ => exact shared
  | ending _ shared => exact shared

/-- Either both runs are finished, with results alike after the same number of steps, or neither is.
-/
theorem Abreast.result? (abreast : Abreast w w') :
    Option.Rel (fun a b => Coincide (Value.Alike Respelled) a.1 b.1 ∧ a.2 = b.2)
      w.result? w'.result? := by
  cases abreast with
  | running => exact .none
  | ending phases =>
    cases phases with
    | finished results =>
      cases results with
      | ok values => exact .some ⟨.ok values, rfl⟩
      | error => exact .some ⟨.error, rfl⟩
    | _ => exact .none

end World

/-! ## Programs -/

/-- Two runs show the same, up to the spelling of loops. -/
structure Report.Same (r r' : Report) : Prop extends Report.Alike Respelled r r' where
  display : ∀ v w, r.result = .ok v → r'.result = .ok w → r.store.display v = r'.store.display w
  steps : r.steps = r'.steps
  trace : SameTrace r.trace r'.trace

/-- The two loops are interchangeable. If a program without goroutines differs from another one in
the spelling of any of its loops, wherever they are, then under the same limits both end, after the
same number of actions and of steps, with the same fault or with values that differ in the bodies of
closures only and are printed the same. They print the same lines, and their traces differ in the
names of loops only. -/
theorem loop_spellings_interchangeable (p q : Program) (goFree : p.body.GoFree)
    (respelled : Respelled p.body q.body) (limits : Limits) (traced : Bool) :
    (∃ enough, ∀ fuel, enough ≤ fuel → (p.run limits traced fuel).isSome) ∧
      ∀ fuel, Option.Rel Report.Same (p.run limits traced fuel) (q.run limits traced fuel) := by
  have congruence := Respelled.congruence
  refine ⟨Program.isSome_runUnder goFree .economical limits traced, fun fuel => ?_⟩
  have start : World.Abreast p.initial q.initial :=
    .running (Program.solo goFree) (Program.machine_alike congruence respelled)
      (Program.shared_alike congruence respelled) rfl
  have ran := start.run (p.settingUnder .economical limits) traced fuel Program.firstTurn
    (.nil : SameTrace #[] #[])
  unfold Program.run Program.runUnder
  rw [← Program.settingUnder_eq congruence respelled]
  generalize p.initial.run _ _ _ _ _ = x, q.initial.run _ _ _ _ _ = y at ran ⊢
  obtain ⟨w, trace⟩ := x
  obtain ⟨w', trace'⟩ := y
  obtain ⟨abreast, traces⟩ := ran
  have shared := abreast.shared
  have results := abreast.result?
  dsimp only at shared results ⊢
  generalize w.result? = first, w'.result? = second at results ⊢
  cases results with
  | none => exact .none
  | @some a b both =>
    obtain ⟨result, steps⟩ := a
    obtain ⟨result', steps'⟩ := b
    obtain ⟨results, rfl⟩ := both
    refine .some ⟨⟨results, shared.store, shared.output⟩, ?_, rfl, traces⟩
    exact Report.Alike.display_eq ⟨results, shared.store, shared.output⟩

/-- A program that goes round a loop once in the body of a function. -/
def oneRound (form : LoopForm) : Program :=
  ⟨.seq [.declare .letForm "on" (.lit (.bool true)),
    .function "turn" [] (.loop form (.name "on")
      (.seq [.callNamed "print" [.lit (.string "round")], .assign "on" (.lit (.bool false))])),
    .callNamed "turn" []]⟩

theorem loop_spellings_interchangeable_oneRound :
    ∃ r r', (oneRound .whileForm).run ⟨100, 20⟩ true 100 = some r ∧
      (oneRound .forForm).run ⟨100, 20⟩ true 100 = some r' ∧ r.output = #["round"] ∧ r.Same r' := by
  have respelled : Respelled (oneRound .whileForm).body (oneRound .forForm).body :=
    .keep (.seq (.cons (.refl _ _) (.cons (.keep (.function
      (.turn (.loop (.refl _ _) (.refl _ _)) rfl .loop)) rfl) (.cons (.refl _ _) .nil)))) rfl
  have same := (loop_spellings_interchangeable (oneRound .whileForm) (oneRound .forForm)
    (by decide) respelled ⟨100, 20⟩ true).2 100
  have ran : ∃ r, (oneRound .whileForm).run ⟨100, 20⟩ true 100 = some r ∧
      r.output = #["round"] := ⟨_, rfl, rfl⟩
  obtain ⟨r, ran, output⟩ := ran
  rw [ran] at same
  generalize other : (oneRound .forForm).run ⟨100, 20⟩ true 100 = x at same
  cases same with
  | some same => exact ⟨r, _, ran, rfl, output, same⟩

end ControlStash
