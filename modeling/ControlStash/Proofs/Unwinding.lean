import ControlStash.Proofs.Height
import ControlStash.Proofs.Sharing

/-!
# Returns and throws step by step

A return goes to the nearest mark and a throw to the nearest catch. What lies above is discarded, one
item with each step and whatever the item is: a return passes catches and pending throws, a throw
passes marks and pending returns, and neither of them takes a value, restores an environment or goes
anywhere else on the way. One more step arrives, so the number of steps is that of the discarded items
and one (`unwinding_exact`). Where there is no place to go to, a return ends at the bottom of the
control stack, and a throw fails there with the text of the thrown value.

`Machine.advances` takes a number of steps in a row, under the limits of the run and with nobody else
acting in between. What other contexts do on the way makes no difference to the machine
(`World.Course.unwinding`).
-/

namespace ControlStash

namespace Machine

/-! ## Steps in a row -/

/-- Where a number of steps in a row lead, if the context goes on after each of them. -/
def advances (setting : Setting) (role : Role) : Nat → Machine → Shared → Option (Machine × Shared)
  | 0, m, s => some (m, s)
  | n + 1, m, s =>
    match m.advances setting role n s with
    | some (m, s) =>
      match m.advance setting role s with
      | .next m s => some (m, s)
      | _ => none
    | none => none

theorem advances_succ {setting : Setting} {role : Role} {m m' m'' : Machine} {s s' s'' : Shared}
    {n : Nat} (before : m.advances setting role n s = some (m', s'))
    (next : m'.advance setting role s' = .next m'' s'') :
    m.advances setting role (n + 1) s = some (m'', s'') := by
  simp only [advances, before, next]

variable {setting : Setting} {role : Role} {s : Shared} {i : Instruction} {M K : List Item}
  {S : List Value} {env : Env} {k : Nat} {v : Value}

/-! ## On the way -/

/-- With steps and room for them, an unwinding discards the items that it passes one by one. -/
theorem advances_discard (unwinds : i.unwinds = true) (passed : ∀ item ∈ M, i.seeks item = false)
    (budget : k + M.length ≤ setting.limits.steps)
    (fits : M.length + K.length + 1 ≤ setting.limits.depth) {n : Nat} (upTo : n ≤ M.length) :
    (of (.instruction i :: (M ++ K)) S env k).advances setting role n s =
      some (of (.instruction i :: (M.drop n ++ K)) S env (k + n), s) := by
  induction n with
  | zero => rfl
  | succ n ih =>
    have before := ih (Nat.le_of_succ_le upTo)
    rw [List.drop_eq_getElem_cons upTo, List.cons_append] at before
    have room : (M.drop (n + 1) ++ K).length + 2 ≤ setting.limits.depth := by
      rw [List.length_append, List.length_drop]
      omega
    exact advances_succ before (advance_discard (m := of [] S env k) unwinds
      (passed _ (List.getElem_mem upTo)) (Nat.lt_of_lt_of_le (Nat.add_lt_add_left upTo k) budget)
      room)

/-- After as many steps as there are items to pass, an unwinding has come to the place below them. -/
theorem advances_to_place (unwinds : i.unwinds = true) (passed : ∀ item ∈ M, i.seeks item = false)
    (budget : k + M.length ≤ setting.limits.steps)
    (fits : M.length + K.length + 1 ≤ setting.limits.depth) :
    (of (.instruction i :: (M ++ K)) S env k).advances setting role M.length s =
      some (of (.instruction i :: K) S env (k + M.length), s) := by
  have discarded : (of (.instruction i :: (M ++ K)) S env k).advances setting role M.length s =
      some (of (.instruction i :: (M.drop M.length ++ K)) S env (k + M.length), s) :=
    advances_discard unwinds passed budget fits (Nat.le_refl _)
  rwa [List.drop_length] at discarded

/-- After as many steps an unwinding that seeks none of the items is alone on the control stack. -/
theorem advances_off (unwinds : i.unwinds = true) (passed : ∀ item ∈ M, i.seeks item = false)
    (budget : k + M.length ≤ setting.limits.steps) (fits : M.length + 1 ≤ setting.limits.depth) :
    (of (.instruction i :: M) S env k).advances setting role M.length s =
      some (of [.instruction i] S env (k + M.length), s) := by
  have place : (of (.instruction i :: (M ++ [])) S env k).advances setting role M.length s =
      some (of [.instruction i] S env (k + M.length), s) :=
    advances_to_place unwinds passed budget fits
  rwa [List.append_nil] at place

/-! ## Arrivals -/

/-- A return arrives below the nearest mark. -/
theorem advances_to_mark (noMark : ∀ item ∈ M, item.isMark = false)
    (budget : k + M.length < setting.limits.steps)
    (fits : M.length + K.length + 2 ≤ setting.limits.depth) :
    (of (.instruction .reset :: (M ++ .instruction .mark :: K)) S env k).advances setting role
      (M.length + 1) s = some (of K S env (k + M.length + 1), s) := by
  have onMark : (of (.instruction .reset :: (M ++ .instruction .mark :: K)) S env k).advances setting
      role M.length s =
        some (of (.instruction .reset :: .instruction .mark :: K) S env (k + M.length), s) :=
    advances_to_place rfl noMark budget.le fits
  exact advances_succ onMark (advance_instruction budget)

/-- A return that finds no mark arrives at the bottom. -/
theorem advances_to_bottom (noMark : ∀ item ∈ M, item.isMark = false)
    (budget : k + M.length < setting.limits.steps) (fits : M.length + 1 ≤ setting.limits.depth) :
    (of (.instruction .reset :: M) S env k).advances setting role (M.length + 1) s =
      some (of [] S env (k + M.length + 1), s) := by
  exact advances_succ (advances_off rfl noMark budget.le fits) (advance_instruction budget)

/-- A throw arrives at the handler of the nearest catch. -/
theorem advances_to_catch {sym : String} {handler : Command} {home : Env} {height : Nat}
    (noCatch : ∀ item ∈ M, item.isCatch = false) (budget : k + M.length < setting.limits.steps)
    (fits : M.length + K.length + 2 ≤ setting.limits.depth) :
    (of (.instruction .throw :: (M ++ .instruction (.catch sym handler home height) :: K)) (v :: S)
      env k).advances setting role (M.length + 1) s =
        some (of (.command handler :: .instruction (.restore home) :: K)
          (S.drop (S.length - height)) (s.store.pushFrame ⟨[(sym, v)]⟩ home).1 (k + M.length + 1),
          { s with store := (s.store.pushFrame ⟨[(sym, v)]⟩ home).2 }) := by
  have onCatch : (of (.instruction .throw :: (M ++ .instruction (.catch sym handler home height) ::
      K)) (v :: S) env k).advances setting role M.length s =
        some (of (.instruction .throw :: .instruction (.catch sym handler home height) :: K) (v :: S)
          env (k + M.length), s) :=
    advances_to_place rfl noCatch budget.le fits
  exact advances_succ onCatch (advance_caught rfl rfl budget (by omega))

/-- A throw that finds no catch fails with the text of the thrown value when nothing is left. -/
theorem advance_uncaught (within : k < setting.limits.steps) :
    (of [.instruction .throw] (v :: S) env k).advance setting role s =
      .stop (.error (.uncaughtThrow (s.store.display v))) (of [] (v :: S) env (k + 1)) s :=
  advance_instruction within

end Machine

/-! ## The thrown value -/

/-- In front of an environment, a frame with one binding is where that name is found, and hides no
other. -/
theorem Store.resolve?_pushFrame_single (store : Store) (sym : String) (v : Value) (env : Env)
    (x : String) :
    (store.pushFrame ⟨[(sym, v)]⟩ env).2.resolve? x (store.pushFrame ⟨[(sym, v)]⟩ env).1.frames =
      if x = sym then some (⟨store.frames.size⟩, v)
      else (store.pushFrame ⟨[(sym, v)]⟩ env).2.resolve? x env.frames := by
  rw [store.resolve?_pushFrame_front]
  by_cases same : x = sym <;> simp [Frame.find?, List.lookup_cons, beq_eq_decide, same]

/-! ## The whole way -/

open Machine (of)

/-- Unwinding discards exactly the items above the place it goes to, and takes one step for each of
them and one for the place. Before it arrives it changes nothing but the control stack, whatever lies
there. A return arrives below the nearest mark, or at the bottom if there is none, with stash and
environment as they were. A throw arrives at the handler of the nearest catch, with as many values as
the catch asks for and in its environment, extended by a frame in which the name of the catch is found
with the thrown value; if there is no catch, the step after the last item fails with the text of the
value. -/
theorem unwinding_exact (setting : Setting) (role : Role) (s : Shared) (M : List Item)
    (S : List Value) (env : Env) (k : Nat) (budget : k + M.length + 1 ≤ setting.limits.steps) :
    (∀ i K, i.unwinds = true → (∀ item ∈ M, i.seeks item = false) →
      M.length + K.length + 1 ≤ setting.limits.depth → ∀ n ≤ M.length,
        (of (.instruction i :: (M ++ K)) S env k).advances setting role n s =
          some (of (.instruction i :: (M.drop n ++ K)) S env (k + n), s)) ∧
    ((∀ item ∈ M, item.isMark = false) →
      (∀ K, M.length + K.length + 2 ≤ setting.limits.depth →
        (of (.instruction .reset :: (M ++ .instruction .mark :: K)) S env k).advances setting role
          (M.length + 1) s = some (of K S env (k + M.length + 1), s)) ∧
      (M.length + 1 ≤ setting.limits.depth →
        (of (.instruction .reset :: M) S env k).advances setting role (M.length + 1) s =
          some (of [] S env (k + M.length + 1), s))) ∧
    ((∀ item ∈ M, item.isCatch = false) → ∀ v,
      (∀ K sym handler home height, M.length + K.length + 2 ≤ setting.limits.depth →
        height + 1 ≤ (v :: S).length →
        ∃ low inner store, low <:+ S ∧ low.length = height ∧
          s.store.pushFrame ⟨[(sym, v)]⟩ home = (inner, store) ∧
          inner.frames = ⟨s.store.frames.size⟩ :: home.frames ∧
          store.frames = s.store.frames.push ⟨[(sym, v)]⟩ ∧
          (∀ x, store.resolve? x inner.frames =
            if x = sym then some (⟨s.store.frames.size⟩, v) else store.resolve? x home.frames) ∧
          (of (.instruction .throw :: (M ++ .instruction (.catch sym handler home height) :: K))
            (v :: S) env k).advances setting role (M.length + 1) s =
              some (of (.command handler :: .instruction (.restore home) :: K) low inner
                (k + M.length + 1), { s with store })) ∧
      (M.length + 1 ≤ setting.limits.depth → ∃ m m',
        (of (.instruction .throw :: M) (v :: S) env k).advances setting role M.length s =
          some (m, s) ∧
        m.advance setting role s = .stop (.error (.uncaughtThrow (s.store.display v))) m' s ∧
        m'.steps = k + M.length + 1)) := by
  have within : k + M.length < setting.limits.steps := budget
  refine ⟨fun i K unwinds passed fits n upTo => ?way, fun noMark => ⟨fun K fits => ?mark,
    fun fits => ?bottom⟩, fun noCatch v => ⟨fun K sym handler home height fits enough => ?handler,
    fun fits => ?uncaught⟩⟩
  case way => exact Machine.advances_discard unwinds passed within.le fits upTo
  case mark => exact Machine.advances_to_mark noMark within fits
  case bottom => exact Machine.advances_to_bottom noMark within fits
  case handler =>
    have cut : (S.drop (S.length - height)).length = height := by
      rw [List.length_cons] at enough
      rw [List.length_drop]
      omega
    exact ⟨_, _, _, List.drop_suffix _ _, cut, rfl, rfl, rfl,
      s.store.resolve?_pushFrame_single sym v home,
      Machine.advances_to_catch noCatch within fits⟩
  case uncaught =>
    exact ⟨_, _, Machine.advances_off rfl noCatch within.le fits, Machine.advance_uncaught within,
      rfl⟩

namespace pastOthers

/-- Just the steps and the depth that the unwindings need. -/
def setting : Setting :=
  { limits := ⟨9, 7⟩, globals := ⟨[]⟩ }

def shared : Shared :=
  { store := {}, output := #[], group := {} }

/-- A catch, a pending throw and a restore. -/
def passedByReturn : List Item :=
  [.instruction (.catch "e" (.name "e") ⟨[]⟩ 1), .instruction .throw, .instruction .pop,
    .instruction (.restore ⟨[⟨3⟩]⟩)]

/-- Two marks, a pending return and a command. -/
def passedByThrow : List Item :=
  [.instruction .mark, .instruction .reset, .instruction .mark, .command .undefined]

/-- The catch of a try at a place where one value lay on the stash. -/
def place : Item := .instruction (.catch "e" (.name "e") ⟨[⟨0⟩]⟩ 1)

end pastOthers

open pastOthers in
/-- A return passes what would stop a throw, and a throw what would stop a return, in five steps
each. -/
theorem unwinding_exact_pastOthers :
    (∀ item ∈ passedByReturn, item.isMark = false) ∧
    (∀ item ∈ passedByThrow, item.isCatch = false) ∧
    (of (.instruction .reset :: (passedByReturn ++ [.instruction .mark, .command .undefined]))
      [.int 2, .int 1] ⟨[]⟩ 4).advances setting .main 5 shared =
        some (of [.command .undefined] [.int 2, .int 1] ⟨[]⟩ 9, shared) ∧
    (of (.instruction .reset :: passedByReturn) [.int 2, .int 1] ⟨[]⟩ 4).advances setting .main 5
      shared = some (of [] [.int 2, .int 1] ⟨[]⟩ 9, shared) ∧
    (∃ low inner store, low <:+ [.int 2, .int 1] ∧ low.length = 1 ∧
      store.resolve? "e" inner.frames = some (⟨0⟩, .int 7) ∧
      (of (.instruction .throw :: (passedByThrow ++ [place, .instruction .pop]))
        [.int 7, .int 2, .int 1] ⟨[]⟩ 4).advances setting .main 5 shared =
          some (of [.command (.name "e"), .instruction (.restore ⟨[⟨0⟩]⟩), .instruction .pop] low
            inner 9, { shared with store })) ∧
    ∃ m m', (of (.instruction .throw :: passedByThrow) [.int 7, .int 2, .int 1] ⟨[]⟩ 4).advances
        setting .main 4 shared = some (m, shared) ∧
      m.advance setting .main shared = .stop (.error (.uncaughtThrow "7")) m' shared := by
  have noMark : ∀ item ∈ passedByReturn, item.isMark = false := by decide
  have noCatch : ∀ item ∈ passedByThrow, item.isCatch = false := by decide
  obtain ⟨-, returns, -⟩ := unwinding_exact setting .main shared passedByReturn [.int 2, .int 1]
    ⟨[]⟩ 4 (by decide)
  obtain ⟨-, -, throws⟩ := unwinding_exact setting .main shared passedByThrow [.int 2, .int 1]
    ⟨[]⟩ 4 (by decide)
  obtain ⟨toMark, toBottom⟩ := returns noMark
  obtain ⟨toCatch, uncaught⟩ := throws noCatch (.int 7)
  obtain ⟨low, inner, store, bottom, length, -, -, -, named, caught⟩ :=
    toCatch [.instruction .pop] "e" (.name "e") ⟨[⟨0⟩]⟩ 1 (by decide) (by decide)
  obtain ⟨m, m', alone, fails, -⟩ := uncaught (by decide)
  exact ⟨noMark, noCatch, toMark [.command .undefined] (by decide), toBottom (by decide),
    ⟨low, inner, store, bottom, length, (named "e").trans (if_pos rfl), caught⟩, m, m', alone,
    fails⟩

end ControlStash
