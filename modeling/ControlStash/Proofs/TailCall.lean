import ControlStash.Proofs.Footing

/-!
# Calls in return position

A call in return position reuses the mark of the running function: it looks for the nearest mark on
the control stack and puts the body of the callee there. This is right if the nearest mark belongs
to the function that returns, and not to a call that this function has made and that is over.

When a call is over can be said without marks. A call is made with the items `L` below it, which
are to be worked on afterwards; it is under way as long as something stands on `L`. A run keeps
record of the calls under way in `World.Since`. Every mark above a place of the control stack is
the mark of a call under way (`World.Since.marks`), so if no call is under way, the nearest mark is
the one of the function itself, and a chain of calls in return position of any length leaves the
control stack as the first of these functions found it (`tail_calls_keep_control`).
-/

namespace ControlStash

open Machine (of)

/-! ## Marks and calls -/

section Marks

variable {item : Item} {K L : List Item}

theorem mark_suffix_of_cons (notMark : item.isMark = false)
    (marked : .instruction .mark :: L <:+ item :: K) : .instruction .mark :: L <:+ K := by
  rcases List.suffix_cons_iff.mp marked with same | below
  · cases same
    cases notMark
  · exact below

theorem mark_suffix_of_append {P : List Item} (noMark : ∀ item ∈ P, item.isMark = false)
    (marked : .instruction .mark :: L <:+ P ++ K) : .instruction .mark :: L <:+ K := by
  induction P with
  | nil => exact marked
  | cons item P ih =>
    rw [List.forall_mem_cons] at noMark
    exact ih noMark.2 (mark_suffix_of_cons noMark.1 marked)

namespace Command

theorem not_isMark_sequencePlan (stmts : List Command) :
    ∀ item ∈ sequencePlan stmts, item.isMark = false := by
  induction stmts using sequencePlan.induct with
  | case1 => simp [sequencePlan, Item.isMark]
  | case2 stmt => simp [sequencePlan, Item.isMark]
  | case3 stmt stmts nonempty ih =>
    rw [sequencePlan, List.forall_mem_cons, List.forall_mem_cons]
    · exact ⟨rfl, rfl, ih⟩
    · exact nonempty

theorem not_isMark_operands (cs : List Command) {last : Instruction}
    (notMark : (Item.instruction last).isMark = false) :
    ∀ item ∈ cs.map Item.command ++ [Item.instruction last], item.isMark = false := by
  intro item planned
  rcases List.mem_append.mp planned with command | final
  · obtain ⟨c, -, rfl⟩ := List.mem_map.mp command
    rfl
  · rwa [List.mem_singleton.mp final]

/-- No command schedules a mark. -/
theorem not_isMark_plan (c : Command) (env : Env) (height : Nat) :
    ∀ item ∈ c.plan env height, item.isMark = false := by
  cases c
  case seq stmts => exact not_isMark_sequencePlan stmts
  case call callee args => exact not_isMark_operands (callee :: args) rfl
  case go callee args => exact not_isMark_operands (callee :: args) rfl
  case arrayOf elements => exact not_isMark_operands elements rfl
  case logical op a b => cases op <;> simp [plan, Item.isMark]
  all_goals simp [plan, Item.isMark]

end Command

/-- A mark under the body of a function was there before, or is that of the call. -/
theorem mark_suffix_of_underBody {protocol : CallProtocol} {env : Env}
    (marked : .instruction .mark :: L <:+ Machine.underBody protocol env K) :
    .instruction .mark :: L <:+ K ∨ K <:+ L := by
  have top : ∀ {M : List Item}, .instruction .mark :: L <:+ .instruction .mark :: M →
      .instruction .mark :: L <:+ M ∨ M = L := by
    intro M marked
    rcases List.suffix_cons_iff.mp marked with same | below
    · cases same
      exact .inr rfl
    · exact .inl below
  have restore : ∀ {e : Env}, .instruction .mark :: L <:+
        .instruction .mark :: .instruction (.restore e) :: K →
      .instruction .mark :: L <:+ K ∨ K <:+ L := by
    intro e marked
    rcases top marked with below | rfl
    · exact .inl (mark_suffix_of_cons rfl below)
    · exact .inr (List.suffix_cons _ _)
  unfold Machine.underBody at marked
  split at marked
  · exact restore marked
  · exact .inr (List.nil_suffix)
  · rcases top marked with below | rfl
    · exact .inl below
    · exact .inr (List.suffix_refl _)
  · next items =>
    split at marked
    · exact .inl (marked.trans ((List.drop_suffix _ _).trans (List.suffix_cons _ _)))
    · exact restore marked
  · exact restore marked

end Marks

/-- A machine is about to call a closure, with the items `L` to be worked on afterwards. -/
def Machine.Calls (m : Machine) (L : List Item) : Prop :=
  ∃ (args : List Value) (c : Closure) (S : List Value),
    m.control.toList = .instruction (.call args.length) :: L ∧
    m.stash.toList = args.reverse ++ .closure c :: S

section Moves

variable {protocol : CallProtocol} {globals : Env} {role : Role} {m m' : Machine} {s : Shared}
  {o : Outcome}

theorem Move.steps_lt (move : Move protocol globals role m s o) (goes : o.machine? = some m') :
    m.steps < m'.steps := by
  cases move <;> cases goes <;> exact Nat.lt_succ_self _

/-- A mark that is there after a step was there before, or the step is a call, made with items that
are still there under the mark. -/
theorem Move.mark_suffix {L : List Item} (move : Move protocol globals role m s o)
    (goes : o.machine? = some m') (marked : .instruction .mark :: L <:+ m'.control.toList) :
    .instruction .mark :: L <:+ m.control.toList ∨ ∃ K, m.Calls K ∧ K <:+ L := by
  have kept : ∀ {item : Item} {K : List Item}, .instruction .mark :: L <:+ K →
      .instruction .mark :: L <:+ item :: K := fun below => below.trans (List.suffix_cons _ _)
  cases move <;> cases goes
  case plan c K S env k planned =>
    exact .inl (kept (mark_suffix_of_append (c.not_isMark_plan env S.length) marked))
  case block body inner store K S env k extended =>
    have below := mark_suffix_of_cons rfl marked
    unfold Machine.underBlock at below
    split at below
    · exact .inl (kept below)
    · exact .inl (kept (mark_suffix_of_cons rfl below))
  case call arity c args inner store K S env k length extended =>
    rcases mark_suffix_of_underBody (mark_suffix_of_cons rfl marked) with before | above
    · exact .inl (kept before)
    · exact .inr ⟨K, ⟨args, c, S, by rw [length]; rfl, rfl⟩, above⟩
  case branchTrue | branchFalse => exact .inl (kept (mark_suffix_of_cons rfl marked))
  case loopAgain form pred body K S env k =>
    exact .inl (kept (mark_suffix_of_append
      (P := [.command body, .instruction .pop, .command pred, .instruction (.loop form pred body)])
      (by simp [Item.isMark]) marked))
  case caught sym handler e height inner store v K S env k extended =>
    exact .inl (kept (kept (mark_suffix_of_append
      (P := [.command handler, .instruction (.restore e)]) (by simp [Item.isMark]) marked)))
  case resetMark => exact .inl (kept (kept marked))
  case resetDiscard | throwDiscard =>
    exact .inl (kept (kept (mark_suffix_of_cons rfl marked)))
  all_goals exact .inl (kept marked)

end Moves

/-! ## Calls under way -/

namespace World

/-- The calls under way, by the items they were made with, after the machine of their context has
come from `m` to `m'`: a call comes to be under way when it is made, and is so as long as something
stands on its items. -/
def underWay (m m' : Machine) (calls : List Item → Prop) (L : List Item) : Prop :=
  (calls L ∨ (m.steps < m'.steps ∧ m.Calls L)) ∧
    L <:+ m'.control.toList ∧ L.length < m'.control.size

/-- The part of a run from a world to a later one, with record of the calls that one context has
made in it and that are under way in the end. Any context may act in it. -/
inductive Since (setting : Setting) (context : Context) (w : World) :
    World → (List Item → Prop) → Prop
  | start : Since setting context w w fun _ => False
  | next {v v' : World} {m m' : Machine} {calls : List Item → Prop} :
    Since setting context w v calls → Next setting v v' →
    v.held? context = some m → v'.held? context = some m' →
    Since setting context w v' (underWay m m' calls)

variable {setting : Setting} {context : Context} {w w' : World} {m m' : Machine}
  {calls : List Item → Prop} {K L : List Item}

/-- Every mark is either one that was there at the start or that of a call under way. -/
theorem Since.marks (since : Since setting context w w' calls)
    (held : w.held? context = some m) (held' : w'.held? context = some m')
    (marked : .instruction .mark :: L <:+ m'.control.toList) :
    .instruction .mark :: L <:+ m.control.toList ∨ ∃ K, calls K ∧ K <:+ L := by
  induction since generalizing m' with
  | start =>
    rw [held] at held'
    cases held'
    exact .inl marked
  | @next v v' n n' calls _ next before after ih =>
    rw [after] at held'
    cases held'
    -- What a call left below its mark is what it was made with, and that has stayed.
    have stays : ∀ {K}, K <:+ L → K <:+ n'.control.toList ∧ K.length < n'.control.size := by
      intro K below
      have through := below.trans ((List.suffix_cons _ _).trans marked)
      refine ⟨through, ?_⟩
      have higher := marked.length_le
      have lower := below.length_le
      rw [List.length_cons, Stack.length_toList] at higher
      omega
    have old : .instruction .mark :: L <:+ n.control.toList →
        .instruction .mark :: L <:+ m.control.toList ∨ ∃ K, underWay n n' calls K ∧ K <:+ L := by
      intro marked
      rcases ih before marked with first | ⟨K, made, below⟩
      · exact .inl first
      · exact .inr ⟨K, ⟨.inl made, stays below⟩, below⟩
    rcases next.held? before after with rfl | ⟨o, move, goes⟩
    · exact old marked
    · rcases move.mark_suffix goes marked with before | ⟨K, made, below⟩
      · exact old before
      · exact .inr ⟨K, ⟨.inr ⟨move.steps_lt goes, made⟩, stays below⟩, below⟩

/-- If no call is under way that was made since a body was entered, the mark under this body is the
nearest one. -/
theorem Since.nearest {body : Command} {D : List Item} (since : Since setting context w w' calls)
    (held : w.held? context = some m)
    (entered : m.control.toList = .command body :: .instruction .mark :: K)
    (none : ∀ L, ¬ calls L) (held' : w'.held? context = some m')
    (through : D ++ .instruction .mark :: K <:+ m'.control.toList) :
    ∀ item ∈ D, item.isMark = false := by
  intro item member
  cases marked : item.isMark with
  | false => rfl
  | true =>
    obtain rfl := Item.eq_mark_of_isMark marked
    obtain ⟨D₁, D₂, rfl⟩ := List.append_of_mem member
    have inner : .instruction .mark :: (D₂ ++ .instruction .mark :: K) <:+ m'.control.toList :=
      List.IsSuffix.trans ⟨D₁, by simp⟩ through
    rcases since.marks held held' inner with first | ⟨L, made, -⟩
    · rw [entered] at first
      have shorter := (mark_suffix_of_cons rfl first).length_le
      simp only [List.length_cons, List.length_append] at shorter
      omega
    · exact absurd made (none L)

/-- A context that acts a number of times in a row and calls nothing has no call under way. -/
theorem Since.acts {k : Nat}
    (able : ∀ j < k, (w.acts setting context j).canAct context = true ∧
      ∃ m m' item K, (w.acts setting context j).held? context = some m ∧
        (w.acts setting context (j + 1)).held? context = some m' ∧
        m.control.toList = item :: K ∧ ∀ arity, item ≠ .instruction (.call arity)) :
    ∃ calls, Since setting context w (w.acts setting context k) calls ∧ ∀ L, ¬ calls L := by
  induction k with
  | zero => exact ⟨_, .start, fun _ => id⟩
  | succ k ih =>
    obtain ⟨calls, since, none⟩ := ih fun j below => able j (Nat.lt_succ_of_lt below)
    obtain ⟨acts, m, m', item, K, held, held', top, other⟩ := able k (Nat.lt_succ_self k)
    refine ⟨_, .next since (.act context acts) held held', ?_⟩
    rintro L ⟨made | ⟨-, args, c, S, control, -⟩, -⟩
    · exact none L made
    · rw [top] at control
      exact other _ (List.cons.inj control).1

end World

/-! ## Chains -/

theorem tailFrame?_append {D K : List Item}
    (clear : ∀ item ∈ D, item.isMark = false ∧ item.isCatch = false) :
    tailFrame? (D ++ .instruction .mark :: K) = some D.length := by
  induction D with
  | nil => rfl
  | cons item D ih =>
    rw [List.forall_mem_cons] at clear
    rw [List.cons_append, tailFrame?_cons _ clear.1.1 clear.1.2, ih clear.2]
    rfl

/-- A machine whose function stands on the mark above `K` is about to call a closure with the given
body in return position: a return is under the call, and no catch is above the mark. -/
def Machine.CallsInReturn (m : Machine) (K : List Item) (body : Command) : Prop :=
  ∃ (args : List Value) (c : Closure) (S : List Value) (D : List Item),
    m.control.toList = .instruction (.call args.length) :: .instruction .reset ::
      (D ++ .instruction .mark :: K) ∧
    m.stash.toList = args.reverse ++ .closure c :: S ∧ c.body = body ∧
    ∀ item ∈ D, item.isCatch = false

/-- A context that is in `w` at the entry of `body` makes a number of calls in return position, one
from each function to the next: each is made by the function itself, that is, when none of the calls
made since the entry of its body is under way. -/
inductive World.TailCalls (setting : Setting) (context : Context) (w : World) (body : Command) :
    Nat → World → Command → Prop
  | entry : TailCalls setting context w body 0 w body
  | call {n : Nat} {v v' : World} {body₁ body₂ : Command} {K : List Item} {m m' : Machine}
      {calls : List Item → Prop} :
    TailCalls setting context w body n v body₁ →
    v.machine? context = some m →
    m.control.toList = .command body₁ :: .instruction .mark :: K →
    Since setting context v v' calls → (∀ L, ¬ calls L) →
    v'.machine? context = some m' → m'.CallsInReturn K body₂ →
    (m'.advance setting context.role v'.commons.shared).isStop = false →
    TailCalls setting context w body (n + 1) (v'.act setting context) body₂

/-- Calls in return position run in constant control height. If a context is at the entry of a
body, above a mark and the items `K`, and each function calls the next in return position with no
catch above its own mark, then after any number of such calls the control stack is the body of the
last callee, the mark and the same `K`. -/
theorem tail_calls_keep_control (program : Program) (limits : Limits) {context : Context}
    {w w' : World} {n : Nat} {body body' : Command} {K : List Item} {m : Machine}
    (running : w.machine? context = some m)
    (entered : m.control.toList = .command body :: .instruction .mark :: K)
    (chain : World.TailCalls (program.setting limits) context w body n w' body') :
    ∃ m', w'.machine? context = some m' ∧
      m'.control.toList = .command body' :: .instruction .mark :: K ∧
      m'.control.size = K.length + 2 := by
  induction chain with
  | entry => exact ⟨m, running, entered, by rw [← Stack.length_toList, entered]; rfl⟩
  | @call n v v' body₁ body₂ K₁ m₁ m₂ calls _ running₁ entered₁ since none running₂ tail taken ih =>
    obtain ⟨m', running', entered', -⟩ := ih
    obtain rfl : m' = m₁ := Option.some.inj (running'.symm.trans running₁)
    obtain rfl : K₁ = K := by
      rw [entered'] at entered₁
      cases entered₁
      rfl
    obtain ⟨args, c, S, D, control, stash, rfl, noCatch⟩ := tail
    have noMark := since.nearest (World.held?_of_machine? running₁) entered₁ none
      (World.held?_of_machine? running₂)
      (by rw [control]; exact (List.suffix_cons _ _).trans (List.suffix_cons _ _))
    have reused : Machine.underBody (program.setting limits).protocol m₂.env
        (.instruction .reset :: (D ++ .instruction .mark :: K₁)) = .instruction .mark :: K₁ := by
      show Machine.underBody .economical _ _ = _
      simp only [Machine.underBody,
        tailFrame?_append fun item member => ⟨noMark item member, noCatch item member⟩,
        List.drop_left]
    obtain ⟨inner, store, enters⟩ := Machine.advance_call control stash taken
    rw [reused] at enters
    exact ⟨_, (World.machine?_act_of_next running₂ enters).1, rfl, rfl⟩

/-- The body of a loop that returns zero, or a call of the function around it with one less. -/
def countdownStep : Command :=
  .branch (.binary .eq (.name "n") (.lit (.int 0))) (.ret (.lit (.int 0)))
    (some (.ret (.callNamed "f" [.binary .sub (.name "n") (.lit (.int 1))])))

/-- A function that counts down to zero, calling itself in return position out of a loop. -/
def countdown : Program :=
  ⟨.seq [.function "f" [⟨"n", none⟩] (.loop .whileForm (.lit (.bool true)) countdownStep),
    .binary .add (.lit (.int 1)) (.callNamed "f" [.lit (.int 2)])]⟩

theorem tail_calls_keep_control_countdown :
    ∃ m body, (countdown.initial.acts (countdown.setting {}) .main 48).machine? .main = some m ∧
      m.control.toList = [.command body, .instruction .mark, .instruction (.restore ⟨[⟨1⟩, ⟨0⟩]⟩),
        .instruction (.binary .add)] ∧ m.control.size = 4 := by
  have quiet : ∀ start ∈ [14, 31], ∃ calls, World.Since (countdown.setting {}) .main
      (countdown.initial.acts (countdown.setting {}) .main start)
      ((countdown.initial.acts (countdown.setting {}) .main start).acts (countdown.setting {})
        .main 16) calls ∧ ∀ L, ¬ calls L := by
    intro start member
    simp only [List.mem_cons, List.not_mem_nil, or_false] at member
    rcases member with rfl | rfl
    all_goals
      refine World.Since.acts fun j below => ?_
      interval_cases j <;> exact ⟨rfl, _, _, _, _, rfl, rfl, rfl, nofun⟩
  obtain ⟨calls, first, none⟩ := quiet 14 (by decide)
  obtain ⟨calls', second, none'⟩ := quiet 31 (by decide)
  let left : List Item := [.instruction .pop, .command (.lit (.bool true)),
    .instruction (.loop .whileForm (.lit (.bool true)) countdownStep), .command .undefined]
  have noCatch : ∀ item ∈ left, item.isCatch = false := by decide
  have chain := World.TailCalls.call (.call .entry rfl rfl first none rfl
    ⟨[.int 1], _, _, left, rfl, rfl, rfl, noCatch⟩ rfl) rfl rfl second none' rfl
    ⟨[.int 0], _, _, left, rfl, rfl, rfl, noCatch⟩ rfl
  obtain ⟨m, running, control, height⟩ := tail_calls_keep_control countdown {} rfl rfl chain
  exact ⟨m, _, running, control, height⟩

end ControlStash
