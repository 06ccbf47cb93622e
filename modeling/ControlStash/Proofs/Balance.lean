import ControlStash.Proofs.Interleaving

/-!
# The balance of the stash

How many values a machine needs on its stash is a function of its control stack, `calledHeight`:
every item takes some values and gives some back, and one is to be left at the end. A return and a
throw discard items before these have taken their values, so while one is under way the height is
set by the place it goes to, below the nearest mark (`returnHeight`) or the nearest catch
(`throwHeight`).

* `Sound` is the condition on a control stack under which its parts agree about these heights. It
  says of every item that a return or a throw from inside it finds enough values for the place it
  goes to.
* `Balanced` is the invariant of a machine. In its strict form the stash is exactly as high as the
  control stack calls for, which needs returns to stand where no operands lie below them. In its
  other form there may be more values, and every program keeps it.
* `Move.balanced` is the step lemma for both forms at once. With it no context of a run ever takes
  more values than there are, and a context that comes to its end has a value to end with.
-/

namespace ControlStash

/-! ## Heights -/

/-- The number of values that an item, with all that comes of it, leaves on the stash in place of
those it takes. -/
def Item.given : Item → Nat
  | .instruction .pop => 0
  | .instruction (.loop _ _ _) => 0
  | .instruction (.restore _) => 0
  | .instruction .mark => 0
  | .instruction (.catch _ _ _ _) => 0
  | _ => 1

/-- The height of the stash that a control stack calls for. -/
def calledHeight : List Item → Nat
  | [] => 1
  | item :: K => item.taken + (calledHeight K - item.given)

/-- The height called for at the place a return goes to. -/
def returnHeight : List Item → Nat
  | [] => 1
  | .instruction .mark :: K => calledHeight K
  | _ :: K => returnHeight K

/-- The height called for at the place a throw goes to: at least the thrown value must be there. -/
def throwHeight : List Item → Nat
  | [] => 1
  | .instruction (.catch _ _ _ _) :: K => calledHeight K
  | _ :: K => throwHeight K

theorem returnHeight_cons {item : Item} (notMark : item.isMark = false) (K : List Item) :
    returnHeight (item :: K) = returnHeight K := by
  cases item with
  | command c => rfl
  | instruction i => cases i <;> first | rfl | cases notMark

theorem throwHeight_cons {item : Item} (notCatch : item.isCatch = false) (K : List Item) :
    throwHeight (item :: K) = throwHeight K := by
  cases item with
  | command c => rfl
  | instruction i => cases i <;> first | rfl | cases notCatch

/-- A stash of `n` values has the height called for, or more unless `strict`. -/
def Fits (strict : Bool) (height n : Nat) : Prop :=
  height ≤ n ∧ (strict = true → n = height)

/-- Fitting depends on nothing but the difference of the two heights. -/
theorem Fits.shift {strict : Bool} {h n h' n' : Nat} (fits : Fits strict h n)
    (same : h' + n = n' + h) : Fits strict h' n' := by
  obtain ⟨enough, exactly⟩ := fits
  refine ⟨by omega, fun tight => ?_⟩
  have := exactly tight
  omega

/-- A command may leave by a throw and, if `escapes`, by a return when the stash has height `h` with
the value that leaves. If not `strict`, any command may leave by a return. -/
structure Open (strict escapes : Bool) (K : List Item) (h : Nat) : Prop where
  throws : throwHeight K ≤ h
  returns : strict = false → returnHeight K ≤ h
  returnsExactly : strict = true → escapes = true → returnHeight K = h

/-- What an item asks of the control stack below it. -/
def Item.Ready (strict : Bool) (K : List Item) : Item → Prop
  | .command c => Open strict c.escapes K (calledHeight K)
  | .instruction (.branch cons alt) =>
    Open strict cons.escapes K (calledHeight K) ∧
      ∀ c ∈ alt, Open strict c.escapes K (calledHeight K)
  | .instruction (.loop _ pred body) =>
    Open strict pred.escapes K (calledHeight K + 1) ∧
      Open strict body.escapes K (calledHeight K + 1)
  | .instruction (.call _) => throwHeight K ≤ calledHeight K
  | .instruction .mark => 1 ≤ calledHeight K ∧ throwHeight K ≤ calledHeight K
  | .instruction .reset => Open strict true K (calledHeight K)
  | .instruction .throw => throwHeight K ≤ calledHeight K
  | .instruction (.catch _ handler _ height) =>
    1 ≤ calledHeight K ∧ Open strict handler.escapes K (calledHeight K) ∧
      Fits strict (calledHeight K) (height + 1)
  | _ => True

/-- The parts of a control stack agree about the heights of the stash. -/
def Sound (strict : Bool) : List Item → Prop
  | [] => True
  | item :: K => item.given ≤ calledHeight K ∧ item.Ready strict K ∧ Sound strict K

/-- The balance of a control stack and the height of the stash. A throw under way leaves behind the
operands of what it discards, so the height is only bounded until the catch cuts the stash. -/
def Balanced (strict : Bool) (n : Nat) : List Item → Prop
  | .instruction .reset :: K => Sound strict K ∧ Fits strict (returnHeight K) n
  | .instruction .throw :: K => Sound strict K ∧ throwHeight K ≤ n
  | K => Sound strict K ∧ Fits strict (calledHeight K) n

section Heights

variable {strict escapes : Bool} {K : List Item} {n h : Nat}

/-- A higher place is as good, except for a return that has to meet its height exactly. -/
theorem Open.weaken {escapes' : Bool} {h' : Nat} (leaves : Open strict escapes K h)
    (higher : h ≤ h')
    (clear : strict = true → escapes' = true → escapes = true ∧ h' = h) :
    Open strict escapes' K h' := by
  refine ⟨Nat.le_trans leaves.throws higher,
    fun loose => Nat.le_trans (leaves.returns loose) higher,
    fun tight leaving => ?_⟩
  obtain ⟨escaping, same⟩ := clear tight leaving
  rw [same]
  exact leaves.returnsExactly tight escaping

theorem Open.returnHeight_fits (leaves : Open strict true K h) (fits : Fits strict h n) :
    Fits strict (returnHeight K) n := by
  cases strict with
  | false => exact ⟨Nat.le_trans (leaves.returns rfl) fits.1, by simp⟩
  | true =>
    rw [leaves.returnsExactly rfl rfl]
    exact fits

theorem open_iff : Open strict escapes K h ↔ throwHeight K ≤ h ∧
    (strict = false → returnHeight K ≤ h) ∧ (strict = true → escapes = true → returnHeight K = h) :=
  ⟨fun leaves => ⟨leaves.1, leaves.2, leaves.3⟩, fun ⟨throws, returns, exactly⟩ =>
    ⟨throws, returns, exactly⟩⟩

/-- Whether a command may leave depends on nothing but the nearest mark and the nearest catch. -/
theorem open_cons_iff {item : Item} (notMark : item.isMark = false)
    (notCatch : item.isCatch = false) :
    Open strict escapes (item :: K) h ↔ Open strict escapes K h := by
  rw [open_iff, open_iff, returnHeight_cons notMark, throwHeight_cons notCatch]

@[simp]
theorem open_command_cons {c : Command} :
    Open strict escapes (.command c :: K) h ↔ Open strict escapes K h :=
  open_cons_iff rfl rfl

theorem Sound.one_le_returnHeight (sound : Sound strict K) : 1 ≤ returnHeight K := by
  induction K with
  | nil => exact Nat.le_refl 1
  | cons item K ih =>
    cases marked : item.isMark with
    | false =>
      rw [returnHeight_cons marked]
      exact ih sound.2.2
    | true =>
      obtain rfl := Item.eq_mark_of_isMark marked
      exact sound.2.1.1

theorem Sound.one_le_throwHeight (sound : Sound strict K) : 1 ≤ throwHeight K := by
  induction K with
  | nil => exact Nat.le_refl 1
  | cons item K ih =>
    cases caught : item.isCatch with
    | false =>
      rw [throwHeight_cons caught]
      exact ih sound.2.2
    | true =>
      obtain ⟨sym, handler, env, height, rfl⟩ := Item.exists_of_isCatch caught
      exact sound.2.1.1

/-- A sound control stack with the height it calls for is balanced, also at the start of a return or
of a throw. -/
theorem Sound.balanced (sound : Sound strict K) (fits : Fits strict (calledHeight K) n) :
    Balanced strict n K := by
  unfold Balanced
  split
  · next K =>
    obtain ⟨gives, leaves, below⟩ := sound
    have height : calledHeight (.instruction .reset :: K) = calledHeight K := by
      simp only [calledHeight, Item.taken, Instruction.taken, Item.given] at gives ⊢
      omega
    rw [height] at fits
    exact ⟨below, Open.returnHeight_fits leaves fits⟩
  · next K =>
    obtain ⟨gives, throws, below⟩ := sound
    have height : calledHeight (.instruction .throw :: K) = calledHeight K := by
      simp only [calledHeight, Item.taken, Instruction.taken, Item.given] at gives ⊢
      omega
    rw [height] at fits
    exact ⟨below, Nat.le_trans throws fits.1⟩
  · exact ⟨sound, fits⟩

/-- A balanced stash holds what the top item takes. -/
theorem Balanced.taken_le {item : Item} (balanced : Balanced strict n (item :: K)) :
    item.taken ≤ n := by
  unfold Balanced at balanced
  split at balanced
  · next eq =>
    cases eq
    exact Nat.le_trans balanced.1.one_le_returnHeight balanced.2.1
  · next eq =>
    cases eq
    exact Nat.le_trans balanced.1.one_le_throwHeight balanced.2
  · have height := balanced.2.1
    simp only [calledHeight] at height
    omega

end Heights

/-! ## Plans -/

namespace Command

variable {strict : Bool} {K : List Item}

theorem open_operands {escapes : Bool} {h : Nat} (cs : List Command) :
    Open strict escapes (cs.map Item.command ++ K) h ↔ Open strict escapes K h := by
  induction cs with
  | nil => rfl
  | cons c cs ih => simpa using ih

/-- Operands on top of items that take a value for each of them. In the strict form no return may
leave them. -/
theorem sound_operands {cs : List Command} {h : Nat} (sound : Sound strict K)
    (leaves : Open strict false K h) (height : calledHeight K = cs.length + h)
    (clear : strict = true → escapesAny cs = false) :
    Sound strict (cs.map Item.command ++ K) ∧ calledHeight (cs.map Item.command ++ K) = h := by
  induction cs generalizing h with
  | nil => exact ⟨sound, by simpa using height⟩
  | cons c cs ih =>
    have clear : strict = true → c.escapes = false ∧ escapesAny cs = false := by
      simpa only [escapesAny, Bool.or_eq_false_iff] using clear
    have later : Open strict false K (h + 1) := leaves.weaken (Nat.le_succ h) (by simp)
    obtain ⟨above, called⟩ := ih later (by simp only [List.length_cons] at height; omega)
      fun tight => (clear tight).2
    have ready : Open strict c.escapes (cs.map Item.command ++ K) (h + 1) := by
      rw [open_operands]
      refine later.weaken (Nat.le_refl _) fun tight leaving => ?_
      rw [(clear tight).1] at leaving
      cases leaving
    simp only [List.map_cons, List.cons_append, Sound, calledHeight, Item.given, Item.taken,
      Item.Ready, called]
    exact ⟨⟨by omega, ready, above⟩, by omega⟩

/-- A command on top of a control stack that may be left by the returns of the command. -/
theorem sound_command {c : Command} {escapes : Bool} {h : Nat} (sound : Sound strict K)
    (called : calledHeight K = h) (gives : 1 ≤ h) (leaves : Open strict escapes K h)
    (inherits : c.escapes = true → escapes = true) :
    Sound strict (.command c :: K) ∧ calledHeight (.command c :: K) = h - 1 ∧
      Open strict escapes (.command c :: K) h := by
  subst called
  refine ⟨⟨gives, ?_, sound⟩, ?_, open_command_cons.mpr leaves⟩
  · exact leaves.weaken (Nat.le_refl _) fun _ leaving => ⟨inherits leaving, rfl⟩
  · simp [calledHeight, Item.taken, Item.given]

theorem sound_sequencePlan {stmts : List Command} {escapes : Bool} (sound : Sound strict K)
    (leaves : Open strict escapes K (calledHeight K)) (gives : 1 ≤ calledHeight K)
    (inherits : ∀ c ∈ stmts, c.escapes = true → escapes = true) :
    Sound strict (sequencePlan stmts ++ K) ∧
      calledHeight (sequencePlan stmts ++ K) = calledHeight K - 1 ∧
      Open strict escapes (sequencePlan stmts ++ K) (calledHeight K) := by
  fun_induction sequencePlan stmts with
  | case1 =>
    exact sound_command sound rfl gives leaves fun leaving => absurd leaving Bool.false_ne_true
  | case2 stmt => exact sound_command sound rfl gives leaves (inherits stmt List.mem_cons_self)
  | case3 stmt stmts _ ih =>
    obtain ⟨above, called, leaving⟩ := ih fun c later => inherits c (List.mem_cons_of_mem _ later)
    have popped :
        calledHeight (.instruction .pop :: (sequencePlan stmts ++ K)) = calledHeight K := by
      simp only [calledHeight, Item.taken, Instruction.taken, Item.given, called]
      omega
    exact sound_command ⟨Nat.zero_le _, trivial, above⟩ popped gives
      ((open_cons_iff rfl rfl).mpr leaving) (inherits stmt List.mem_cons_self)

theorem escapes_of_mem {c : Command} {cs : List Command} (member : c ∈ cs)
    (leaving : c.escapes = true) : escapesAny cs = true := by
  induction cs with
  | nil => cases member
  | cons a cs ih =>
    rcases List.mem_cons.mp member with rfl | later
    · simp [escapesAny, leaving]
    · simp [escapesAny, ih later]

/-- Operands on top of an instruction that takes them all: the first may be left by a return. -/
theorem sound_operandPlan {c : Command} {cs : List Command} {last : Instruction} {escapes : Bool}
    (below : Sound strict K) (gives : 1 ≤ calledHeight K)
    (leaves : Open strict escapes K (calledHeight K))
    (clear : strict = true → escapesAny cs = false)
    (inherits : c.escapes = true → escapes = true) (takes : last.taken = cs.length + 1)
    (giving : (Item.instruction last).given = 1) (ready : (Item.instruction last).Ready strict K)
    (notMark : (Item.instruction last).isMark = false)
    (notCatch : (Item.instruction last).isCatch = false) :
    Sound strict (operandPlan c cs last ++ K) ∧
      calledHeight (operandPlan c cs last ++ K) = calledHeight K - 1 := by
  have taken : calledHeight (.instruction last :: K) = cs.length + calledHeight K := by
    simp only [calledHeight, Item.taken, takes, giving]
    omega
  have lastSound : Sound strict (.instruction last :: K) :=
    ⟨by rw [giving]; exact gives, ready, below⟩
  obtain ⟨above, called⟩ := sound_operands lastSound
    (((open_cons_iff notMark notCatch).mpr leaves).weaken (Nat.le_refl _) (by simp)) taken clear
  have first := sound_command above called gives
    ((open_operands cs).mpr ((open_cons_iff notMark notCatch).mpr leaves)) inherits
  have shape : operandPlan c cs last ++ K =
      .command c :: (cs.map Item.command ++ .instruction last :: K) := by simp [operandPlan]
  rw [shape]
  exact ⟨first.1, first.2.1⟩

/-- The plan of a command calls for the height that the command called for. -/
theorem sound_plan {c : Command} {height : Nat} (env : Env) (planned : c.isPlanned = true)
    (clear : strict = true → c.returnsClear = true) (sound : Sound strict (.command c :: K))
    (fits : Fits strict (calledHeight (.command c :: K)) height) :
    Sound strict (c.plan env height ++ K) ∧
      calledHeight (c.plan env height ++ K) = calledHeight (.command c :: K) := by
  obtain ⟨gives, leaves, below⟩ := sound
  simp only [Item.given, Item.Ready] at gives leaves
  have called : calledHeight (.command c :: K) = calledHeight K - 1 := by
    simp [calledHeight, Item.taken, Item.given]
  rw [called] at fits ⊢
  cases c
  case lit | name | lambda | block | unrecognized => cases planned
  case seq stmts =>
    obtain ⟨above, called, -⟩ := sound_sequencePlan below leaves gives fun c => escapes_of_mem
    exact ⟨above, called⟩
  case call callee args =>
    simp only [returnsClear, Bool.not_eq_true'] at clear
    exact sound_operandPlan below gives leaves clear
      (fun leaving => by simp [escapes, leaving]) rfl rfl
      leaves.throws rfl rfl
  case go callee args =>
    simp only [returnsClear, Bool.not_eq_true'] at clear
    exact sound_operandPlan below gives leaves clear
      (fun leaving => by simp [escapes, leaving]) rfl rfl
      trivial rfl rfl
  case arrayOf elements =>
    cases elements with
    | nil =>
      refine ⟨⟨gives, trivial, below⟩, ?_⟩
      simp [plan, calledHeight, Item.taken, Instruction.taken, Item.given]
    | cons c cs =>
      simp only [returnsClear, Bool.not_eq_true'] at clear
      exact sound_operandPlan below gives leaves clear
        (fun leaving => by simp [escapes, escapesAny, leaving]) rfl rfl trivial rfl rfl
  -- The other plans have a fixed number of items, so their heights are sums that can be compared.
  case' logical op a b => cases op
  case' branch pred cons alt => cases alt
  all_goals
    simp only [plan, callNamed, undefined, List.cons_append, List.nil_append, Sound, calledHeight,
      Item.taken, Instruction.taken, Item.given, Item.Ready, open_iff, returnHeight, throwHeight,
      escapes, escapesAny, escapesOption, returnsClear, Fits] at leaves clear fits ⊢
    grind

end Command

/-! ## Moves -/

section Moves

variable {strict : Bool} {K D : List Item} {n : Nat}

theorem Sound.of_append (sound : Sound strict (D ++ K)) : Sound strict K := by
  induction D with
  | nil => exact sound
  | cons item D ih => exact ih sound.2.2

theorem returnHeight_append (notMark : ∀ item ∈ D, item.isMark = false) :
    returnHeight (D ++ K) = returnHeight K := by
  induction D with
  | nil => rfl
  | cons item D ih =>
    rw [List.forall_mem_cons] at notMark
    rw [List.cons_append, returnHeight_cons notMark.1, ih notMark.2]

/-- An item that has done its work leaves the height that the items below it call for. -/
theorem Sound.passed {item : Item} {n' : Nat} (sound : Sound strict (item :: K))
    (fits : Fits strict (calledHeight (item :: K)) n) (change : n' + item.taken = n + item.given) :
    Balanced strict n' K := by
  have gives := sound.1
  refine sound.2.2.balanced (fits.shift ?_)
  simp only [calledHeight]
  omega

/-- The body of a function on top of its mark. -/
theorem balanced_body (body : Command) (sound : Sound strict K) (gives : 1 ≤ calledHeight K)
    (throws : throwHeight K ≤ calledHeight K) (fits : Fits strict (calledHeight K) (n + 1)) :
    Balanced strict n (.command body :: .instruction .mark :: K) := by
  have marked : calledHeight (.instruction .mark :: K) = calledHeight K := by
    simp [calledHeight, Item.taken, Instruction.taken, Item.given]
  have markSound : Sound strict (.instruction .mark :: K) := ⟨Nat.zero_le _, ⟨gives, throws⟩, sound⟩
  have leaves : Open strict true (.instruction .mark :: K) (calledHeight K) :=
    ⟨throws, fun _ => Nat.le_refl _, fun _ _ => rfl⟩
  obtain ⟨made, called, -⟩ :=
    Command.sound_command (c := body) markSound marked gives leaves fun _ => rfl
  exact made.balanced (fits.shift (by omega))

/-- A body entered by a call calls for the height that the call has left. A call in return position
drops the items that the return would have discarded, and the mark below them calls for as much. -/
theorem balanced_underBody {arity : Nat} (protocol : CallProtocol) (env : Env) (body : Command)
    (sound : Sound strict (.instruction (.call arity) :: K))
    (fits : Fits strict (calledHeight K) (n + 1)) :
    Balanced strict n (.command body :: Machine.underBody protocol env K) := by
  obtain ⟨gives, throws, below⟩ := sound
  have throws : throwHeight K ≤ calledHeight K := throws
  have restored : Balanced strict n
      (.command body :: .instruction .mark :: .instruction (.restore env) :: K) := by
    have called : calledHeight (.instruction (.restore env) :: K) = calledHeight K := by
      simp [calledHeight, Item.taken, Instruction.taken, Item.given]
    rw [← called] at gives throws fits
    exact balanced_body body ⟨Nat.zero_le _, trivial, below⟩ gives throws fits
  unfold Machine.underBody
  split
  · exact restored
  · exact balanced_body body below gives throws fits
  · exact balanced_body body below gives throws fits
  · next items =>
    split
    · next above found =>
      obtain ⟨D, K, rfl, rfl, clear⟩ := eq_append_of_tailFrame? found
      have height : calledHeight (.instruction .reset :: (D ++ .instruction .mark :: K)) =
          calledHeight (D ++ .instruction .mark :: K) := by
        have positive := below.1
        simp only [calledHeight, Item.taken, Instruction.taken, Item.given] at positive ⊢
        omega
      have returned : returnHeight (D ++ .instruction .mark :: K) = calledHeight K :=
        returnHeight_append fun item member => (clear item member).1
      obtain ⟨-, ⟨gives, throws⟩, kept⟩ := below.2.2.of_append
      rw [height] at fits
      rw [List.drop_left]
      exact balanced_body body kept gives throws (returned ▸ Open.returnHeight_fits below.2.1 fits)
    · exact restored
  · exact restored

/-- The requirement of balance on the end of a step. -/
def Outcome.Balanced (strict : Bool) : Outcome → Prop
  | .next m _ => ControlStash.Balanced strict m.stash.size m.control.toList
  | .asleep m _ => ControlStash.Balanced strict m.stash.size m.control.toList
  | .launch _ m _ => ControlStash.Balanced strict m.stash.size m.control.toList
  | .stop _ _ _ => True

/-- A move keeps the balance. -/
theorem Move.balanced {protocol : CallProtocol} {globals : Env} {role : Role} {m : Machine}
    {s : Shared} {o : Outcome} (clear : strict = true → m.Holds Command.returnsClear)
    (balanced : Balanced strict m.stash.size m.control.toList)
    (move : Move protocol globals role m s o) : o.Balanced strict := by
  cases move
  case lit | name | lambda | pop | assign | unary | binary | branchNone | loopDone | restore | mark |
      pass | index | indexAssign =>
    exact Sound.passed balanced.1 balanced.2 rfl
  case plan c K S env k planned =>
    obtain ⟨sound, fits⟩ := balanced
    have root : strict = true → c.returnsClear = true := fun tight =>
      Command.root_of_everywhere ((clear tight).items _ List.mem_cons_self)
    obtain ⟨made, called⟩ := Command.sound_plan env planned root sound fits
    exact made.balanced (by rw [called]; exact fits)
  case block body inner store K S env k extended =>
    obtain ⟨⟨gives, leaves, below⟩, fits⟩ := balanced
    have under : Sound strict (Machine.underBlock protocol env K) ∧
        calledHeight (Machine.underBlock protocol env K) = calledHeight K ∧
        (Open strict body.escapes (Machine.underBlock protocol env K) (calledHeight K)) := by
      unfold Machine.underBlock
      split
      · exact ⟨below, rfl, leaves⟩
      · refine ⟨⟨Nat.zero_le _, trivial, below⟩, ?_, (open_cons_iff rfl rfl).mpr leaves⟩
        simp [calledHeight, Item.taken, Instruction.taken, Item.given]
    obtain ⟨made, called, -⟩ := Command.sound_command under.1 under.2.1 gives under.2.2 id
    exact made.balanced (by rw [called]; simpa [calledHeight, Item.taken, Item.given] using fits)
  case native | sleep | launch | launchNative | makeArray =>
    refine Sound.passed balanced.1 balanced.2 ?_
    simp only [Machine.size_stash_of, List.length_append, List.length_reverse, List.length_cons,
      Item.taken, Instruction.taken, Item.given]
    omega
  case call arity c args inner store K S env k length extended =>
    have gives : 1 ≤ calledHeight K := balanced.1.1
    refine balanced_underBody protocol env c.body balanced.1 (balanced.2.shift ?_)
    simp only [calledHeight, Machine.size_stash_of, List.length_append, List.length_reverse,
      List.length_cons, Item.taken, Instruction.taken, Item.given]
    omega
  case branchTrue cons alt K S env k =>
    obtain ⟨⟨gives, leaves, below⟩, fits⟩ := balanced
    have made : Sound strict (.command cons :: K) := ⟨gives, leaves.1, below⟩
    refine made.balanced (fits.shift ?_)
    simp only [calledHeight, Machine.size_stash_of, List.length_cons, Item.taken, Instruction.taken,
      Item.given]
    omega
  case branchFalse cons alt K S env k =>
    obtain ⟨⟨gives, leaves, below⟩, fits⟩ := balanced
    have made : Sound strict (.command alt :: K) := ⟨gives, leaves.2 alt rfl, below⟩
    refine made.balanced (fits.shift ?_)
    simp only [calledHeight, Machine.size_stash_of, List.length_cons, Item.taken, Instruction.taken,
      Item.given]
    omega
  case loopAgain form pred body K S env k =>
    obtain ⟨sound, fits⟩ := balanced
    have looping :
        calledHeight (.instruction (.loop form pred body) :: K) = calledHeight K + 1 := by
      simp only [calledHeight, Item.taken, Instruction.taken, Item.given]
      omega
    have leavesPred : Open strict pred.escapes (.instruction (.loop form pred body) :: K)
        (calledHeight K + 1) := (open_cons_iff rfl rfl).mpr sound.2.1.1
    obtain ⟨predSound, predCalled, -⟩ :=
      Command.sound_command sound looping (Nat.le_add_left 1 _) leavesPred id
    have popped : calledHeight (.instruction .pop :: .command pred ::
        .instruction (.loop form pred body) :: K) = calledHeight K + 1 := by
      simp only [calledHeight, Item.taken, Instruction.taken, Item.given]
      omega
    have popSound : Sound strict (.instruction .pop :: .command pred ::
        .instruction (.loop form pred body) :: K) := ⟨Nat.zero_le _, trivial, predSound⟩
    have leavesBody : Open strict body.escapes (.instruction .pop :: .command pred ::
        .instruction (.loop form pred body) :: K) (calledHeight K + 1) :=
      (open_cons_iff rfl rfl).mpr (open_command_cons.mpr ((open_cons_iff rfl rfl).mpr sound.2.1.2))
    obtain ⟨made, called, -⟩ :=
      Command.sound_command popSound popped (Nat.le_add_left 1 _) leavesBody id
    refine made.balanced (fits.shift ?_)
    simp only [called, looping, Machine.size_stash_of, List.length_cons]
    omega
  case resetEmpty => exact ⟨trivial, balanced.2⟩
  case resetMark => exact balanced.1.2.2.balanced balanced.2
  case resetDiscard item K S env k notMark =>
    refine ⟨balanced.1.2.2, ?_⟩
    rw [← returnHeight_cons notMark K]
    exact balanced.2
  case throwDiscard item K S env k notCatch =>
    refine ⟨balanced.1.2.2, ?_⟩
    rw [← throwHeight_cons notCatch K]
    exact balanced.2
  case caught sym handler e height inner store v K S env k extended =>
    obtain ⟨⟨-, ⟨gives, leaves, recorded⟩, below⟩, enough⟩ := balanced
    have enough : calledHeight K ≤ S.length + 1 := enough
    have restored : calledHeight (.instruction (.restore e) :: K) = calledHeight K := by
      simp [calledHeight, Item.taken, Instruction.taken, Item.given]
    have restoreSound : Sound strict (.instruction (.restore e) :: K) :=
      ⟨Nat.zero_le _, trivial, below⟩
    obtain ⟨made, called, -⟩ :=
      Command.sound_command restoreSound restored gives ((open_cons_iff rfl rfl).mpr leaves) id
    refine made.balanced ?_
    rw [called]
    simp only [Machine.size_stash_of, List.length_drop]
    refine ⟨?_, fun tight => ?_⟩
    · have enoughKept := recorded.1
      omega
    · have exactly := recorded.2 tight
      omega

end Moves

/-! ## Runs -/

namespace Fault

/-- The faults of a stash that holds too little. -/
def isUnderfull : Fault → Bool
  | .stashUnderflow _ => true
  | .invariantViolation count => count == 0
  | .goroutineFailed _ e => e.isUnderfull
  | _ => false

/-- The faults of a stash that does not meet its height, in either form of the balance. -/
def isUnbalanced : Bool → Fault → Bool
  | true => isImbalance
  | false => isUnderfull

theorem isImbalance_of_isUnderfull {e : Fault} (underfull : e.isUnderfull = true) :
    e.isImbalance = true := by
  induction e with
  | stashUnderflow step => rfl
  | invariantViolation count => rfl
  | goroutineFailed id source ih => exact ih underfull
  | _ => cases underfull

/-- The faults of limits have nothing to do with the stash. -/
theorem isImbalance_of_isLimit {e : Fault} (limit : e.isLimit = true) : e.isImbalance = false := by
  induction e with
  | goroutineFailed id source ih => exact ih limit
  | stepLimitExceeded limit => rfl
  | controlStackOverflow limit => rfl
  | _ => cases limit

theorem isImbalance_of_isOrdinary {e : Fault} (ordinary : e.isOrdinary = true) :
    e.isImbalance = false := by
  simp only [isOrdinary, Bool.and_eq_true, Bool.not_eq_true'] at ordinary
  exact ordinary.2

theorem isUnbalanced_of_isImbalance (strict : Bool) {e : Fault} (balanced : e.isImbalance = false) :
    e.isUnbalanced strict = false := by
  cases strict with
  | true => exact balanced
  | false =>
    cases underfull : e.isUnderfull with
    | false => exact underfull
    | true =>
      rw [isImbalance_of_isUnderfull underfull] at balanced
      cases balanced

theorem isUnbalanced_goroutineFailed (strict : Bool) (id : Nat) (e : Fault) :
    (goroutineFailed id e).isUnbalanced strict = e.isUnbalanced strict := by
  cases strict <;> rfl

end Fault

/-- The discipline of a balanced run. The strict form asks in addition that no command has a return
in an operand position. -/
def balance (strict : Bool) : Discipline where
  store store := strict = true → store.Holds (Value.Holds Command.returnsClear)
  machine m := Balanced strict m.stash.size m.control.toList ∧
    (strict = true → m.Holds Command.returnsClear)
  task task := strict = true → task.Holds Command.returnsClear
  fault e := e.isUnbalanced strict = false

section Runs

variable {strict : Bool} {setting : Setting} {m : Machine} {s : Shared}

/-- A balanced machine takes no more values than there are, and has one to end with. -/
theorem Balanced.advance_faults (role : Role)
    (balanced : Balanced strict m.stash.size m.control.toList) :
    (m.advance setting role s).Faults (·.isUnbalanced strict = false) := by
  refine Machine.advance_faults
    (fun e ordinary => Fault.isUnbalanced_of_isImbalance strict
      (Fault.isImbalance_of_isOrdinary ordinary))
    (fun e limit _ => Fault.isUnbalanced_of_isImbalance strict (Fault.isImbalance_of_isLimit limit))
    (fun item K contents few => ?_) (fun empty e finished => ?_)
  · rw [contents] at balanced
    exact absurd balanced.taken_le (Nat.not_le.mpr few)
  · rw [empty] at balanced
    obtain ⟨-, enough, exactly⟩ := balanced
    unfold Machine.finish at finished
    split at finished
    · cases finished
    · next several =>
      cases finished
      cases strict with
      | true =>
        rw [← Stack.length_toList] at exactly
        obtain ⟨v, one⟩ := List.length_eq_one_iff.mp (exactly rfl)
        exact absurd one (several v)
      | false =>
        have nonzero : m.stash.size ≠ 0 := Nat.ne_of_gt enough
        simpa [Fault.isUnbalanced, Fault.isUnderfull] using nonzero

/-- A step keeps the balance. -/
theorem Balanced.advance (role : Role) (clear : strict = true → m.Holds Command.returnsClear)
    (balanced : Balanced strict m.stash.size m.control.toList) :
    (m.advance setting role s).Balanced strict := by
  rcases Machine.advance_cases setting role m s with move | ⟨result, m', s', stops, -⟩
  · exact move.balanced clear balanced
  · rw [stops]
    trivial

/-- Every step of every program keeps the balance. -/
theorem kept_balance (strict : Bool) (setting : Setting) : (balance strict).Kept setting := by
  refine ⟨fun e ordinary =>
    Fault.isUnbalanced_of_isImbalance strict (Fault.isImbalance_of_isOrdinary ordinary),
    fun c env holds => ⟨?_, fun tight => ?_⟩, fun role m s machine store => ?_⟩
  · exact balanced_body c (K := []) trivial (Nat.le_refl 1) (Nat.le_refl 1)
      ⟨Nat.le_refl 1, fun _ => rfl⟩
  · refine ⟨?_, fun _ member => absurd member List.not_mem_nil⟩
    simp only [Machine.start, Stack.toList_ofList, List.forall_mem_cons]
    exact ⟨holds tight, trivial, by simp⟩
  · have faults : (m.advance setting role s).Faults (·.isUnbalanced strict = false) :=
      machine.1.advance_faults role
    have holds : strict = true → (m.advance setting role s).Holds Command.returnsClear :=
      fun tight =>
        Machine.advance_holds Command.heritable_returnsClear (machine.2 tight) (store tight)
    have balanced : (m.advance setting role s).Balanced strict := machine.1.advance role machine.2
    revert faults holds balanced
    cases m.advance setting role s with
    | next m s =>
      exact fun _ holds balanced =>
        ⟨⟨balanced, fun tight => (holds tight).1⟩, fun tight => (holds tight).2⟩
    | asleep m s =>
      exact fun _ holds balanced =>
        ⟨⟨balanced, fun tight => (holds tight).1⟩, fun tight => (holds tight).2⟩
    | launch task m s =>
      exact fun _ holds balanced => ⟨fun tight => (holds tight).1,
        ⟨balanced, fun tight => (holds tight).2.1⟩, fun tight => (holds tight).2.2⟩
    | stop result m s =>
      intro faults holds _
      cases result with
      | error e => exact ⟨faults, holds⟩
      | ok v => exact ⟨trivial, holds⟩

/-- A program starts in balance. -/
theorem balance_initial (program : Program) (clear : strict = true → program.body.RetSafe) :
    (balance strict).World program.initial := by
  have start : Balanced strict 0 [.command program.body] := by
    have leaves : Open strict true [] 1 := ⟨Nat.le_refl 1, fun _ => Nat.le_refl 1, fun _ _ => rfl⟩
    obtain ⟨sound, called, -⟩ :=
      Command.sound_command (c := program.body) (K := []) trivial rfl (Nat.le_refl 1)
        leaves fun _ => rfl
    exact sound.balanced (by rw [called]; exact ⟨Nat.le_refl 0, fun _ => rfl⟩)
  exact ⟨⟨start, fun tight => Program.holds_start (clear tight)⟩,
    fun _ => program.holds_globals, fun _ member => absurd member (Array.not_mem_empty _),
    fun _ member => absurd member (Array.not_mem_empty _)⟩

/-- The balance holds in every reachable world. -/
theorem balance_reachable {program : Program} {limits : Limits} {w : World}
    (clear : strict = true → program.body.RetSafe)
    (reachable : World.Reachable (program.setting limits) program.initial w) :
    (balance strict).World w :=
  (kept_balance strict _).reachable (balance_initial program clear) reachable

/-- A run ends in no fault that the balance excludes. -/
theorem isUnbalanced_of_result? {w : World} {e : Fault} {steps : Nat}
    (balanced : (balance strict).World w)
    (ended : w.result? = some (.error e, steps)) : e.isUnbalanced strict = false := by
  rcases balanced.result? ended with allowed | ⟨id, source, rfl, allowed⟩
  · exact allowed
  · rw [Fault.isUnbalanced_goroutineFailed]
    exact allowed

end Runs

/-- No context of a run takes values from the stash that are not there, and one whose control stack
is empty has a value to end with: whatever the program, the limits and the order in which the
contexts act, neither the next step of a context nor the run ends in the fault of a stash that
holds too little. -/
theorem stash_never_underfull (program : Program) (limits : Limits) {w : World}
    (reachable : World.Reachable (program.setting limits) program.initial w) :
    (∀ context m, w.machine? context = some m →
      (m.advance (program.setting limits) context.role w.commons.shared).Faults
        (·.isUnderfull = false) ∧
      (m.control.toList = [] → 1 ≤ m.stash.size)) ∧
    ∀ e steps, w.result? = some (.error e, steps) → e.isUnderfull = false := by
  have balanced : (balance false).World w := balance_reachable (by simp) reachable
  refine ⟨fun context m found => ?_, fun e steps => isUnbalanced_of_result? balanced⟩
  have machine := (balanced.machine? found).1
  refine ⟨machine.advance_faults context.role, fun empty => ?_⟩
  rw [empty] at machine
  exact machine.2.1

/-- The sum of one and a return of two. -/
def operandReturn : Program :=
  ⟨.binary .add (.lit (.int 1)) (.ret (.lit (.int 2)))⟩

/-- A return out of the second operand of a sum leaves the first one behind: the run ends with two
values on the stash, which is a fault, but not one of a stash that holds too little. -/
theorem stash_never_underfull_operandReturn :
    (operandReturn.initial.run (operandReturn.setting {}) false 12 ⟨0, World.turnLength⟩
      #[]).1.result? =
      some (.error (.invariantViolation 2), 6) ∧
        (Fault.invariantViolation 2).isUnderfull = false := by
  have ended : (operandReturn.initial.run (operandReturn.setting {}) false 12 ⟨0, World.turnLength⟩
      #[]).1.result? = some (.error (.invariantViolation 2), 6) := rfl
  have underfull := stash_never_underfull operandReturn {} 
    (World.Reachable.run .start false 12 ⟨0, World.turnLength⟩ #[])
  exact ⟨ended, underfull.2 _ _ ended⟩

/-! ### Programs whose returns stand clear of operands -/

/-- The stash height that the catch nearest on a control stack goes back to. -/
def recordedHeight? : List Item → Option Nat
  | [] => none
  | .instruction (.catch _ _ _ height) :: _ => some height
  | _ :: K => recordedHeight? K

/-- A stash of `n` values is as high as a control stack calls for. A return under way calls for
what the place it goes to calls for. A throw under way leaves the operands of what it discards
on the stash; it calls for enough values, and for a catch that goes back to the height called
for below it. -/
def CallsFor (n : Nat) : List Item → Prop
  | .instruction .reset :: K => n = returnHeight K
  | .instruction .throw :: K =>
    throwHeight K ≤ n ∧ ∀ height ∈ recordedHeight? K, height + 1 = throwHeight K
  | K => n = calledHeight K

theorem recordedHeight?_sound {K : List Item} {height : Nat} (sound : Sound true K)
    (recorded : recordedHeight? K = some height) : height + 1 = throwHeight K := by
  fun_induction recordedHeight? K with
  | case1 => cases recorded
  | case2 sym handler env height' K =>
    cases recorded
    exact sound.2.1.2.2.2 rfl
  | case3 item K notCatch ih =>
    have kept : throwHeight (item :: K) = throwHeight K :=
      throwHeight_cons (Item.isCatch_eq_false notCatch) K
    rw [kept]
    exact ih sound.2.2 recorded

theorem Balanced.callsFor {K : List Item} {n : Nat} (balanced : Balanced true n K) :
    CallsFor n K := by
  unfold Balanced at balanced
  unfold CallsFor
  split at balanced
  · exact balanced.2.2 rfl
  · exact ⟨balanced.2, fun height => recordedHeight?_sound balanced.1⟩
  · exact balanced.2.2 rfl

/-- If no return of a program stands in an operand position, the stash of every context is before
every step as high as the control stack calls for, whatever the limits and the order in which the
contexts act. So a context that comes to its end has exactly one value, and no run ends in the fault
of a stash that holds another number of values. -/
theorem stash_exact_of_retSafe (program : Program) (retSafe : program.body.RetSafe)
    (limits : Limits)
    {w : World} (reachable : World.Reachable (program.setting limits) program.initial w) :
    (∀ context m, w.machine? context = some m →
      CallsFor m.stash.size m.control.toList ∧
      (m.control.toList = [] → m.stash.size = 1) ∧
      (m.advance (program.setting limits) context.role w.commons.shared).Faults
        (·.isImbalance = false)) ∧
    ∀ e steps, w.result? = some (.error e, steps) → e.isImbalance = false := by
  have balanced : (balance true).World w := balance_reachable (fun _ => retSafe) reachable
  refine ⟨fun context m found => ?_, fun e steps => isUnbalanced_of_result? balanced⟩
  have machine := (balanced.machine? found).1
  refine ⟨machine.callsFor, fun empty => ?_, machine.advance_faults context.role⟩
  rw [empty] at machine
  exact machine.2.2 rfl

/-- A function that catches what it throws in the middle of a sum, and returns it. -/
def thrownReturn : Program :=
  ⟨.seq [.function "f" [⟨"x", none⟩]
      (.attempt (.binary .add (.lit (.int 1)) (.throw (.name "x"))) "e" (.ret (.name "e"))),
    .callNamed "f" [.lit (.int 2)]]⟩

theorem stash_exact_of_retSafe_thrownReturn :
    (thrownReturn.initial.run (thrownReturn.setting {}) false 60 ⟨0, World.turnLength⟩
      #[]).1.result? = some (.ok (.int 2), 23) ∧
    ∀ context m, (thrownReturn.initial.run (thrownReturn.setting {}) false 18 ⟨0, World.turnLength⟩
      #[]).1.machine? context = some m → CallsFor m.stash.size m.control.toList := by
  have exact := (stash_exact_of_retSafe thrownReturn (by decide) {}
    (World.Reachable.run .start false 18 ⟨0, World.turnLength⟩ #[])).1
  exact ⟨rfl, fun context m found => (exact context m found).1⟩

end ControlStash
