import ControlStash.Proofs.Lockstep
import ControlStash.Proofs.Threshold

/-!
# Derived forms

Five kinds of nodes are short for others: a named function for a constant that holds a lambda, a
constant for a variable, the two operators that may skip their second operand for conditionals, and
the length of an array for a call. The machine replaces all of them but the constant by what they
are short for, and that takes a step. A program in which some of them are written out does the same
without these steps.

The two programs run side by side, except that the one with the short form now and then takes a step
of its own (`Machine.advance_writtenOut`). Such a step schedules one item, and what is written out
schedules at least as many, so a control stack that is too full for it is too full for both.
-/

namespace ControlStash

/-! ## Writing out -/

/-- What a node is short for. -/
inductive DerivedForm : Command → Command → Prop
  | function {sym params body} : DerivedForm (.function sym params body)
    (.declare .constForm sym (.lambda (params.map (·.name)) body))
  | const {sym expr} : DerivedForm (.declare .constForm sym expr) (.declare .letForm sym expr)
  | and {left right} : DerivedForm (.logical .and left right)
    (.conditional left right (.lit (.bool false)))
  | or {left right} : DerivedForm (.logical .or left right)
    (.conditional left (.lit (.bool true)) right)
  | lengthOf {array} : DerivedForm (.lengthOf array) (.callNamed "array_length" [array])

/-- The second tree is the first with any set of its derived forms written out. -/
abbrev WrittenOut : Command → Command → Prop :=
  Rewritten DerivedForm

namespace WrittenOut

variable {c d : Command}

theorem congruence : Command.Congruence WrittenOut :=
  Rewritten.congruence fun _ _ derived _ => by cases derived <;> rfl

/-- A node stays of its kind, or the machine replaces it by one that is related to what it was
rewritten to. -/
theorem alike_or_plan (written : WrittenOut c d) :
    c.Alike WrittenOut d ∨
      ∃ short, c.isPlanned = true ∧ d.isPlanned = true ∧ WrittenOut short d ∧
        ∀ env height, c.plan env height = [.command short] := by
  cases written with
  | keep alike => exact .inl alike
  | turn alike tag derived =>
    cases derived with
    | const =>
      cases alike with
      | declare expr => exact .inl (.declare expr)
    | function =>
      cases alike with
      | function body =>
        exact .inr ⟨_, rfl, rfl, .keep (.declare (.keep (.lambda body) rfl)) rfl, fun _ _ => rfl⟩
    | and =>
      cases alike with
      | logical left right =>
        exact .inr ⟨_, rfl, rfl, .keep (.conditional left right (.refl _ _)) rfl, fun _ _ => rfl⟩
    | or =>
      cases alike with
      | logical left right =>
        exact .inr ⟨_, rfl, rfl, .keep (.conditional left (.refl _ _) right) rfl, fun _ _ => rfl⟩
    | lengthOf =>
      cases alike with
      | lengthOf array =>
        exact .inr ⟨_, rfl, rfl, .keep (.call (.refl _ _) (.cons array .nil)) rfl, fun _ _ => rfl⟩

end WrittenOut

/-- A command that schedules its plan schedules at least one item. -/
theorem Command.length_plan_pos {c : Command} (planned : c.isPlanned = true) (env : Env)
    (height : Nat) : 1 ≤ (c.plan env height).length := by
  cases c
  case lit | name | lambda | block | unrecognized => cases planned
  case seq stmts => rcases stmts with _ | ⟨stmt, _ | ⟨next, stmts⟩⟩ <;> simp [plan, sequencePlan]
  case logical op left right => cases op <;> exact Nat.le_refl 1
  all_goals simp [plan, operandPlan]

/-! ## Steps -/

namespace Machine

variable {m m' : Machine} {s s' : Shared}

/-- A machine that works on derived forms takes a step alike to that of the machine for which they
are written out, or one to replace a derived form, while the other waits. -/
theorem advance_writtenOut (setting : Setting) (solo : Solo m s) (machines : m.Alike WrittenOut m')
    (shared : s.Alike WrittenOut s') (fewer : m'.steps ≤ m.steps)
    (uncut : (m.advance setting .main s).Faults fun e => ∀ n, e ≠ .stepLimitExceeded n) :
    ((m.advance setting .main s).Alike WrittenOut (m'.advance setting .main s') ∧
        (m'.advance setting .main s').steps ≤ (m.advance setting .main s).steps) ∨
      ∃ m₁, m.advance setting .main s = .next m₁ s ∧ m₁.Alike WrittenOut m' ∧
        m'.steps ≤ m₁.steps := by
  rcases machines.control.pop? with
    ⟨empty, empty'⟩ | ⟨item, item', control, control', top, top', items, below⟩
  · rw [advance_of_empty empty, advance_of_empty empty']
    exact .inl ⟨.stop (finish_alike machines) shared, fewer⟩
  · have within : m.steps < setting.limits.steps := by
      refine Nat.lt_of_not_le fun reached => ?_
      rw [advance_of_limit_le top reached] at uncut
      exact uncut _ rfl
    have within' : m'.steps < setting.limits.steps := Nat.lt_of_le_of_lt fewer within
    have enough := solo.taken_le (Stack.pop?_eq_some_iff.mp top)
    have fewer₁ : (m'.advance setting .main s').steps ≤ (m.advance setting .main s).steps := by
      rw [(follows_advance top within).steps, (follows_advance top' within').steps]
      exact Nat.succ_le_succ fewer
    have together (level : Level WrittenOut item item') :
        (m.advance setting .main s).Alike WrittenOut (m'.advance setting .main s') :=
      advance_alike WrittenOut.congruence machines shared top top' level enough within within'
    cases items with
    | instruction same => exact .inl ⟨together (.instruction same), fewer₁⟩
    | @command c d written =>
      rcases written.alike_or_plan with alike | ⟨short, planned, planned', related, plan⟩
      · exact .inl ⟨together (.command alike), fewer₁⟩
      · have replaced : m.advance setting .main s =
            ({ m with control, steps := m.steps + 1 } : Machine).schedule setting.limits
              [.command short] m.env s := by
          simp only [advance, top, if_neg (Nat.not_le.mpr within), expand_of_isPlanned planned,
            plan]
        by_cases fits : 1 + control.size ≤ setting.limits.depth
        -- the form is replaced, and the other machine has the replacement on top already
        · refine .inr ⟨_, replaced.trans (if_pos fits), ⟨?_, machines.stash, machines.env⟩,
            Nat.le_succ_of_le fewer⟩
          unfold Stack.Related
          rw [Stack.pop?_eq_some_iff.mp top']
          exact .cons (.command related) below
        -- what is written out schedules no less, so both overflow
        · have crowded :
              ¬ (d.plan m'.env m'.stash.size).length + control'.size ≤ setting.limits.depth := by
            have scheduled := Command.length_plan_pos planned' m'.env m'.stash.size
            rw [← below.size_eq]
            omega
          have full' : m'.advance setting .main s' =
              ({ m' with control := control', steps := m'.steps + 1 } : Machine).fail s'
                (.controlStackOverflow setting.limits.depth) := by
            simp only [advance, top', if_neg (Nat.not_le.mpr within'),
              expand_of_isPlanned planned', schedule, if_neg crowded]
          refine .inl ⟨?_, fewer₁⟩
          rw [replaced.trans (if_neg fits), full']
          exact fail_alike _ shared

end Machine

/-! ## Runs -/

/-- If a machine that works on derived forms ends, and not for its step limit, the machine for which
they are written out ends alike and has taken no more steps. -/
theorem Ends.writtenOut {setting : Setting} {m m' m₁ : Machine} {s s' s₁ : Shared}
    {result : Except Fault Value} (ends : Ends setting m s result m₁ s₁)
    (uncut : ∀ n, result ≠ .error (.stepLimitExceeded n)) (solo : Solo m s)
    (machines : m.Alike WrittenOut m') (shared : s.Alike WrittenOut s')
    (fewer : m'.steps ≤ m.steps) :
    ∃ result' m₁' s₁', Ends setting m' s' result' m₁' s₁' ∧
      Coincide (Value.Alike WrittenOut) result result' ∧ s₁.Alike WrittenOut s₁' ∧
      m₁'.steps ≤ m₁.steps := by
  -- the induction is on the run of the machine that takes more steps
  induction ends generalizing m' s' with
  | @stop m s result m₁ s₁ stops =>
    have step := Machine.advance_writtenOut setting solo machines shared fewer
      (by rw [stops]; exact Outcome.faults_stop uncut)
    generalize other : m'.advance setting .main s' = o at step
    rw [stops] at step
    rcases step with ⟨alike, fewer⟩ | ⟨_, goes, -⟩
    · cases alike with
      | stop results shared => exact ⟨_, _, _, .stop other, results, shared, fewer⟩
    · cases goes
  | @next m s m₁ s₁ result m₂ s₂ goes _ ih =>
    have alone := solo.of_next goes
    have step := Machine.advance_writtenOut setting solo machines shared fewer
      (by rw [goes]; trivial)
    generalize other : m'.advance setting .main s' = o at step
    rw [goes] at step
    rcases step with ⟨alike, fewer⟩ | ⟨_, own, machines, fewer⟩
    · cases alike with
      | next machines shared =>
        obtain ⟨result', m₂', s₂', ends', both⟩ := ih uncut alone machines shared fewer
        exact ⟨result', m₂', s₂', .next other ends', both⟩
    · cases own
      exact ih uncut alone machines shared fewer

/-- Derived forms mean what they are short for. A program without goroutines ends under all limits.
If it does not end for its step limit, then any program that comes about from it by writing out some
of its derived forms, wherever they are, ends under the same limits with the same fault, or with a
value that differs in the bodies of closures only and is printed the same. It prints the same lines
and takes no more steps. -/
theorem derived_forms_expand (p q : Program) (goFree : p.body.GoFree)
    (written : WrittenOut p.body q.body) (limits : Limits) (traced traced' : Bool) :
    (∃ enough, ∀ fuel, enough ≤ fuel → (p.run limits traced fuel).isSome) ∧
      ∀ fuel r, p.run limits traced fuel = some r →
        (∀ n, r.result ≠ .error (.stepLimitExceeded n)) →
        ∃ enough, ∀ fuel', enough ≤ fuel' → ∃ r', q.run limits traced' fuel' = some r' ∧
          r.Alike WrittenOut r' ∧
          (∀ v w, r.result = .ok v → r'.result = .ok w →
            r.store.display v = r'.store.display w) ∧
          r'.steps ≤ r.steps := by
  have congruence := WrittenOut.congruence
  refine ⟨Program.isSome_runUnder goFree .economical limits traced, fun fuel r ran uncut => ?_⟩
  obtain ⟨result, m, s, ends, shows⟩ := Program.ends_of_runUnder goFree ran
  rw [shows.result] at uncut
  obtain ⟨result', m', s', ends', results, shared, fewer⟩ :=
    ends.writtenOut uncut (Program.solo goFree) (Program.machine_alike congruence written)
      (Program.shared_alike congruence written) (Nat.le_refl _)
  rw [Program.settingUnder_eq congruence written] at ends'
  obtain ⟨enough, finished⟩ := Program.runUnder_of_ends traced' ends'
  refine ⟨enough, fun fuel' more => ?_⟩
  obtain ⟨r', ran', shows'⟩ := finished fuel' more
  have alike : r.Alike WrittenOut r' := by
    refine ⟨?_, ?_, ?_⟩
    · rw [shows.result, shows'.result]
      exact results
    · rw [shows.store, shows'.store]
      exact shared.store
    · rw [shows.output, shows'.output]
      exact shared.output
  refine ⟨r', ran', alike, alike.display_eq, ?_⟩
  rw [shows.steps, shows'.steps]
  exact fewer

/-- A program with a derived form of each kind but one. It prints the length of an array. -/
def shortForms : Program :=
  ⟨.seq [.function "size" [⟨"xs", none⟩] (.ret (.lengthOf (.name "xs"))),
    .declare .constForm "none" (.arrayOf []),
    .callNamed "print" [.logical .and (.lit (.bool true)) (.callNamed "size" [.name "none"])]]⟩

/-- The same program with all of them written out. -/
def longForms : Program :=
  ⟨.seq [.declare .constForm "size"
      (.lambda ["xs"] (.ret (.callNamed "array_length" [.name "xs"]))),
    .declare .letForm "none" (.arrayOf []),
    .callNamed "print"
      [.conditional (.lit (.bool true)) (.callNamed "size" [.name "none"]) (.lit (.bool false))]]⟩

theorem derived_forms_expand_shortForms :
    ∃ r, shortForms.run ⟨100, 20⟩ true 100 = some r ∧ r.output = #["0"] ∧ r.steps = 34 ∧
      ∃ enough, ∀ fuel, enough ≤ fuel → ∃ r', longForms.run ⟨100, 20⟩ true fuel = some r' ∧
        r.Alike WrittenOut r' ∧ r'.steps ≤ 34 := by
  have length : WrittenOut (.lengthOf (.name "xs")) (.callNamed "array_length" [.name "xs"]) :=
    .turn (.lengthOf (.refl _ _)) rfl .lengthOf
  have written : WrittenOut shortForms.body longForms.body :=
    .keep (.seq (.cons (.turn (.function (.keep (.ret length) rfl)) rfl .function)
      (.cons (.turn (.declare (.refl _ _)) rfl .const)
        (.cons (.keep (.call (.refl _ _)
          (.cons (.turn (.logical (.refl _ _) (.refl _ _)) rfl .and) .nil)) rfl) .nil)))) rfl
  have ran : ∃ r, shortForms.run ⟨100, 20⟩ true 100 = some r ∧ r.output = #["0"] ∧
      r.steps = 34 ∧ r.result = .ok .undefined := ⟨_, rfl, rfl, rfl, rfl⟩
  obtain ⟨r, ran, output, steps, result⟩ := ran
  obtain ⟨enough, expanded⟩ := (derived_forms_expand shortForms longForms (by decide) written
    ⟨100, 20⟩ true true).2 100 r ran (by rw [result]; exact nofun)
  refine ⟨r, ran, output, steps, enough, fun fuel more => ?_⟩
  obtain ⟨r', ran', alike, -, fewer⟩ := expanded fuel more
  exact ⟨r', ran', alike, steps ▸ fewer⟩

end ControlStash
