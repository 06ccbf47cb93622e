import Mathlib.Tactic.IntervalCases
import ControlStash.Proofs.Balance
import ControlStash.Proofs.Solo
import ControlStash.Proofs.Stretch

/-!
# Standing on a mark, a catch or a call

A call puts a mark on the control stack and a try puts a catch there, and a call that waits for its
operands lies there too. As long as this item stays, what is done above it is done as if it were the
bottom of the control stack, and as if the values that lay on the stash when it was put there were
not there at all:

* `Machine.atop` puts a machine on top of such a footing;
* `Move.of_atop` says that a move above a footing is a move of the machine on top of it, unless it
  takes the footing away or is a call in return position that goes back to the mark
  (`Outcome.OnFooting`). For most rules this is so because all that they do is take values off the
  stash (`Move.onFooting_of_taking`);
* `Standing` says that the machine on top is balanced by itself. So nothing above the footing ever
  takes one of the values below.

From this follow the two results of the module. When a call ends, its caller finds the values that
it had left, under the value of the call (`call_leaves_stash`). When a throw comes to the catch of
a try, the machine goes on at the place of the try, with the values that lay there
(`attempt_restores_site`).
-/

namespace ControlStash

open Machine (of)

namespace Item

/-- An item as it is on top of `n` further values: a catch goes back to a height that is greater
by so much. -/
def raise (n : Nat) : Item → Item
  | .instruction (.catch sym handler env height) =>
    .instruction (.catch sym handler env (height + n))
  | item => item

/-- Whether an item is one to which a return or a throw goes, or a call that waits for its
operands. -/
def isFooting : Item → Bool
  | .instruction (.call _) => true
  | item => item.isMark || item.isCatch

variable {n : Nat} {item : Item}

theorem raise_of_not_catch (notCatch : item.isCatch = false) : item.raise n = item := by
  unfold raise
  split
  · cases notCatch
  · rfl

@[simp]
theorem isMark_raise : (item.raise n).isMark = item.isMark := by
  unfold raise
  split <;> rfl

@[simp]
theorem isCatch_raise : (item.raise n).isCatch = item.isCatch := by
  unfold raise
  split <;> rfl

@[simp]
theorem holds_raise {p : Command → Bool} : (item.raise n).Holds p ↔ item.Holds p := by
  unfold raise
  split <;> rfl

theorem eq_of_raise {top : Item} (notCatch : top.isCatch = false) (raised : top = item.raise n) :
    item = top := by
  rw [raised, isCatch_raise] at notCatch
  rw [raised, raise_of_not_catch notCatch]

theorem exists_of_raise_catch {sym : String} {handler : Command} {env : Env} {height : Nat}
    (raised : .instruction (.catch sym handler env height) = item.raise n) :
    ∃ below, item = .instruction (.catch sym handler env below) ∧ height = below + n := by
  unfold raise at raised
  split at raised
  · cases raised
    exact ⟨_, rfl, rfl⟩
  · next notCatch => exact absurd raised.symm (notCatch _ _ _ _)

end Item

/-! ## Machines on a footing -/

/-- The machine on top of the items `B` and the values `S`. -/
def Machine.atop (B : List Item) (S : List Value) (m : Machine) : Machine :=
  of (m.control.toList.map (Item.raise S.length) ++ B) (m.stash.toList ++ S) m.env m.steps

/-- The end of a step on top of the items `B` and the values `S`. -/
def Outcome.atop (B : List Item) (S : List Value) : Outcome → Outcome
  | .next m s => .next (m.atop B S) s
  | .asleep m s => .asleep (m.atop B S) s
  | .launch task m s => .launch task (m.atop B S) s
  | .stop result m s => .stop result (m.atop B S) s

/-- A step takes the bottom items `K` away: if it goes on, then no longer above them. -/
def Outcome.Drops (K : List Item) (o : Outcome) : Prop :=
  ∀ m', o.machine? = some m' → ¬ K <:+ m'.control.toList

/-- What a move comes to that is made by the machine `n` on the footing `b`. It is a move of `n`,
maybe under the other protocol; or it is a call in return position that goes back to the mark; or it
takes the footing away. -/
inductive Outcome.OnFooting (globals : Env) (role : Role) (b : Item) (K : List Item)
    (S : List Value) (n : Machine) (s : Shared) : Outcome → Prop
  | above (protocol : CallProtocol) {o o' : Outcome} : Move protocol globals role n s o' →
    o = o'.atop (b :: K) S → OnFooting globals role b K S n s o
  | back {M : List Item} {c : Closure} {args V : List Value} {inner : Env} {s' : Shared} :
    b = .instruction .mark →
    n.control.toList = .instruction (.call args.length) :: .instruction .reset :: M →
    (∀ item ∈ M, item.isMark = false) → n.stash.toList = args.reverse ++ .closure c :: V →
    OnFooting globals role b K S n s
      (.next (of (.command c.body :: b :: K) (V ++ S) inner (n.steps + 1)) s')
  | away {o : Outcome} : o.Drops (b :: K) → OnFooting globals role b K S n s o

/-- A machine stands on the items `B` and the values `S`, and is balanced by itself there. -/
def Standing (strict : Bool) (B : List Item) (S : List Value) (m : Machine) : Prop :=
  ∃ n : Machine, m = n.atop B S ∧ Balanced strict n.stash.size n.control.toList

theorem Machine.Holds.of_atop {p : Command → Bool} {B : List Item} {S : List Value} {m : Machine}
    (holds : (m.atop B S).Holds p) : m.Holds p := by
  refine ⟨fun item member => ?_, fun v member => ?_⟩
  · have raised : item.raise S.length ∈ (m.atop B S).control.toList :=
      List.mem_append_left B (List.mem_map_of_mem member)
    exact Item.holds_raise.mp (holds.items _ raised)
  · exact holds.values v (List.mem_append_left S member)

section Footing

variable {protocol : CallProtocol} {globals : Env} {role : Role} {m : Machine} {s : Shared}
  {o : Outcome} {strict : Bool} {b : Item} {K L B : List Item} {S U : List Value} {env : Env}
  {k n : Nat}

/-- Two lists that are the same in two parts, by the lengths of their first parts. -/
theorem exists_append_of_le {α : Type} (taken : List α) {rest upper lower : List α}
    (same : taken ++ rest = upper ++ lower) (enough : taken.length ≤ upper.length) :
    ∃ left, upper = taken ++ left ∧ rest = left ++ lower := by
  rcases List.append_eq_append_iff.mp same with ⟨left, rfl, rfl⟩ | ⟨left, rfl, rfl⟩
  · exact ⟨left, rfl, rfl⟩
  · obtain rfl : left = [] := by
      rw [List.length_append] at enough
      exact List.eq_nil_of_length_eq_zero (by omega)
    exact ⟨[], by simp, rfl⟩

/-- A call takes its arguments and its callee from the upper part if that has enough. -/
theorem exists_call_of_le {arity : Nat} {callee : Value} {args rest : List Value}
    (length : args.length = arity) (same : args.reverse ++ callee :: rest = U ++ S)
    (enough : arity + 1 ≤ U.length) :
    ∃ left, U = args.reverse ++ callee :: left ∧ rest = left ++ S := by
  have same : (args.reverse ++ [callee]) ++ rest = U ++ S := by simpa using same
  obtain ⟨left, upper, lower⟩ := exists_append_of_le _ same (by simpa [length] using enough)
  exact ⟨left, by simpa using upper, lower⟩

namespace Command

theorem map_raise_sequencePlan (stmts : List Command) :
    (sequencePlan stmts).map (Item.raise n) = sequencePlan stmts := by
  fun_induction sequencePlan stmts with
  | case1 => rfl
  | case2 stmt => rfl
  | case3 stmt stmts _ ih =>
    rw [List.map_cons, List.map_cons, ih]
    rfl

theorem map_raise_operands (cs : List Command) (last : Instruction)
    (notCatch : (Item.instruction last).isCatch = false) :
    (cs.map Item.command ++ [Item.instruction last]).map (Item.raise n) =
      cs.map Item.command ++ [Item.instruction last] := by
  rw [List.map_append, List.map_map, List.map_singleton, Item.raise_of_not_catch notCatch]
  rfl

/-- A plan at a greater height is the same plan raised. -/
theorem map_raise_plan (c : Command) (env : Env) (height : Nat) :
    (c.plan env height).map (Item.raise n) = c.plan env (height + n) := by
  cases c
  case seq stmts => exact map_raise_sequencePlan stmts
  case call callee args =>
    exact map_raise_operands (callee :: args) (.call args.length) rfl
  case go callee args => exact map_raise_operands (callee :: args) (.go args.length) rfl
  case arrayOf elements =>
    exact map_raise_operands elements (.makeArray elements.length) rfl
  case logical op a b => cases op <;> rfl
  all_goals rfl

end Command

/-- Taking a footing away leaves nothing above its place that could be taken for it. -/
theorem not_suffix_of_forall_ne {D K' : List Item} (other : ∀ item ∈ D, item ≠ b)
    (shorter : K'.length ≤ K.length) : ¬ b :: K <:+ D ++ K' := by
  rintro ⟨T, same⟩
  rcases List.append_eq_append_iff.mp same with ⟨E, rfl, rest⟩ | ⟨E, rfl, rest⟩
  · cases E with
    | nil =>
      have lengths := congrArg List.length rest
      simp only [List.nil_append, List.length_cons] at lengths
      omega
    | cons item E =>
      obtain ⟨rfl, -⟩ := List.cons.inj rest
      exact other b (by simp) rfl
  · have lengths := congrArg List.length rest
    simp only [List.length_append, List.length_cons] at lengths
    omega

theorem tailFrame?_cons (items : List Item) {item : Item} (notMark : item.isMark = false)
    (notCatch : item.isCatch = false) :
    tailFrame? (item :: items) = (tailFrame? items).map (· + 1) := by
  cases item with
  | command c => rfl
  | instruction i =>
    cases i <;> first | rfl | exact Bool.noConfusion notMark | exact Bool.noConfusion notCatch

theorem Item.footing_cases (footing : b.isFooting = true) :
    b = .instruction .mark ∨
      (∃ sym handler env height, b = .instruction (.catch sym handler env height)) ∨
      ∃ arity, b = .instruction (.call arity) := by
  unfold Item.isFooting at footing
  split at footing
  · next arity => exact .inr (.inr ⟨arity, rfl⟩)
  · exact (Bool.or_eq_true_iff.mp footing).imp Item.eq_mark_of_isMark
      fun caught => .inl (Item.exists_of_isCatch caught)

/-- A frame to be reused is found where it would be found without the footing, or else it is the
one whose mark is the footing, or one below. -/
theorem tailFrame?_atop (footing : b.isFooting = true) (L : List Item) :
    tailFrame? (L.map (Item.raise n) ++ b :: K) = tailFrame? L ∨
      (b = .instruction .mark ∧ tailFrame? (L.map (Item.raise n) ++ b :: K) = some L.length ∧
        ∀ item ∈ L, item.isMark = false) ∨
      ∃ above, L.length < above ∧ tailFrame? (L.map (Item.raise n) ++ b :: K) = some above := by
  induction L with
  | nil =>
    rcases Item.footing_cases footing with rfl | ⟨sym, handler, env, height, rfl⟩ | ⟨arity, rfl⟩
    · exact .inr (.inl ⟨rfl, rfl, by simp⟩)
    · exact .inl rfl
    · rw [List.map_nil, List.nil_append, tailFrame?_cons _ rfl rfl]
      cases tailFrame? K with
      | none => exact .inl rfl
      | some above => exact .inr (.inr ⟨above + 1, Nat.succ_pos above, rfl⟩)
  | cons item L ih =>
    cases marked : item.isMark with
    | true =>
      obtain rfl := Item.eq_mark_of_isMark marked
      exact .inl rfl
    | false =>
      cases caught : item.isCatch with
      | true =>
        obtain ⟨sym, handler, env, height, rfl⟩ := Item.exists_of_isCatch caught
        exact .inl rfl
      | false =>
        rw [List.map_cons, List.cons_append, tailFrame?_cons _ (by simpa using marked)
          (by simpa using caught), tailFrame?_cons L marked caught]
        rcases ih with same | ⟨mark, found, clear⟩ | ⟨above, below, found⟩
        · exact .inl (by rw [same])
        · refine .inr (.inl ⟨mark, by rw [found]; rfl, ?_⟩)
          exact List.forall_mem_cons.mpr ⟨marked, clear⟩
        · exact .inr (.inr ⟨above + 1, Nat.succ_lt_succ below, by rw [found]; rfl⟩)

/-- Above a footing a body is entered as it would be without the footing, under one of the two
protocols; or it is entered by a call in return position whose frame is the one of the footing, or
one below, so that nothing of the footing stays. -/
theorem Machine.underBody_atop (protocol : CallProtocol) (footing : b.isFooting = true)
    (env : Env) (L : List Item) :
    (∃ protocol', underBody protocol env (L.map (Item.raise n) ++ b :: K) =
      (underBody protocol' env L).map (Item.raise n) ++ b :: K) ∨
    (b = .instruction .mark ∧ ∃ M, L = .instruction .reset :: M ∧
      (∀ item ∈ M, item.isMark = false) ∧
      underBody protocol env (L.map (Item.raise n) ++ b :: K) = b :: K) ∨
    (underBody protocol env (L.map (Item.raise n) ++ b :: K)).length ≤ K.length := by
  cases protocol with
  | plain => exact .inl ⟨.plain, rfl⟩
  | economical =>
    rcases L with _ | ⟨item, M⟩
    · refine .inl ⟨.plain, ?_⟩
      rcases Item.footing_cases footing with rfl | ⟨sym, handler, e, height, rfl⟩ | ⟨arity, rfl⟩ <;>
        rfl
    · rcases item with c | i
      · exact .inl ⟨.economical, rfl⟩
      · cases i
        case reset =>
          rcases tailFrame?_atop (n := n) (K := K) footing M with
            same | ⟨mark, found, clear⟩ | ⟨above, below, found⟩
          · refine .inl ⟨.economical, ?_⟩
            show underBody _ _ (.instruction .reset :: (M.map (Item.raise n) ++ b :: K)) = _
            unfold underBody
            dsimp only
            rw [same]
            cases found : tailFrame? M with
            | none => rfl
            | some above =>
              obtain ⟨D, K', rfl, rfl, -⟩ := eq_append_of_tailFrame? found
              simp
          · refine .inr (.inl ⟨mark, M, rfl, clear, ?_⟩)
            show underBody _ _ (.instruction .reset :: (M.map (Item.raise n) ++ b :: K)) = _
            unfold underBody
            dsimp only
            rw [found]
            simp
          · refine .inr (.inr ?_)
            show (underBody _ _ (.instruction .reset :: (M.map (Item.raise n) ++ b :: K))).length ≤ _
            unfold underBody
            dsimp only
            rw [found]
            simp only [List.length_drop, List.length_append, List.length_map, List.length_cons]
            omega
        all_goals exact .inl ⟨.economical, rfl⟩

/-- Above a footing a block is entered as under the plain protocol. -/
theorem Machine.underBlock_atop (protocol : CallProtocol) (env : Env) (L : List Item) :
    underBlock protocol env (L.map (Item.raise n) ++ b :: K) =
      (underBlock .plain env L).map (Item.raise n) ++ b :: K := by
  cases protocol <;> cases L <;> rfl

theorem Machine.of_eq_atop {top a : Item} {K' : List Item} {S' : List Value} {env' : Env} {k' : Nat}
    (stands : of (top :: K') S' env' k' = (of (a :: L) U env k).atop B S) :
    top = a.raise S.length ∧ K' = L.map (Item.raise S.length) ++ B ∧ S' = U ++ S ∧ env' = env ∧
      k' = k := by
  have control := congrArg (·.control.toList) stands
  have stash := congrArg (·.stash.toList) stands
  have control : top :: K' = a.raise S.length :: (L.map (Item.raise S.length) ++ B) := control
  obtain ⟨first, rest⟩ := List.cons.inj control
  exact ⟨first, rest, stash, congrArg (·.env) stands, congrArg (·.steps) stands⟩

/-- The top item of a machine on a footing is that of the machine on top, unless it is a catch. -/
theorem Machine.of_eq_atop_of_not_catch {top a : Item} {K' : List Item} {S' : List Value}
    {env' : Env} {k' : Nat} (notCatch : top.isCatch = false)
    (stands : of (top :: K') S' env' k' = (of (a :: L) U env k).atop B S) :
    a = top ∧ K' = L.map (Item.raise S.length) ++ B ∧ S' = U ++ S ∧ env' = env ∧ k' = k := by
  obtain ⟨first, rest⟩ := of_eq_atop stands
  exact ⟨Item.eq_of_raise notCatch first, rest⟩

/-- A body that is entered from a control stack is put on some items of its own and on what is left
of the stack. -/
theorem Machine.underBody_eq_append (protocol : CallProtocol) (env : Env) (K : List Item) :
    ∃ D K', underBody protocol env K = D ++ K' ∧ K'.length ≤ K.length ∧
      ∀ item ∈ D, item = .instruction .mark ∨ item = .instruction (.restore env) := by
  unfold underBody
  split
  case h_2 => exact ⟨[.instruction .mark], [], rfl, Nat.le_refl 0, by simp⟩
  case h_3 => exact ⟨[.instruction .mark], _, rfl, Nat.le_refl _, by simp⟩
  case h_4 items =>
    split
    · exact ⟨[], _, rfl, by simp; omega, by simp⟩
    · exact ⟨[.instruction .mark, .instruction (.restore env)], _, rfl, Nat.le_refl _, by simp⟩
  all_goals
    exact ⟨[.instruction .mark, .instruction (.restore env)], _, rfl, Nat.le_refl _, by simp⟩

/-! ## Moves above a footing -/

theorem Outcome.drops_of_append {D K' : List Item} (goes : o.machine? = some (of (D ++ K') U env k))
    (other : ∀ item ∈ D, item ≠ b) (shorter : K'.length ≤ K.length) : o.Drops (b :: K) := by
  intro m' found
  rw [goes] at found
  cases found
  exact not_suffix_of_forall_ne other shorter

theorem Outcome.drops_of_cons {item : Item} {K' : List Item} (footing : b.isFooting = true)
    (goes : o.machine? = some (of (item :: K') U env k)) (other : item.isFooting = false)
    (shorter : K'.length ≤ K.length) : o.Drops (b :: K) := by
  refine drops_of_append (D := [item]) goes (List.forall_mem_singleton.mpr ?_) shorter
  rintro rfl
  rw [footing] at other
  cases other

namespace Move

/-- A step of a footing takes it away. -/
theorem drops_footing (footing : b.isFooting = true) (move : Move protocol globals role m s o)
    (top : m = of (b :: K) U env k) : o.Drops (b :: K) := by
  have control : m.control.toList = b :: K := congrArg (·.control.toList) top
  rcases Item.footing_cases footing with rfl | ⟨sym, handler, e, height, rfl⟩ | ⟨arity, rfl⟩
  all_goals
    clear top
    cases move <;> injection control with first below <;> cases first <;> subst below
  case inr.inr.call.refl c args inner store K S env k length extended =>
    obtain ⟨D, K', under, shorter, own⟩ := Machine.underBody_eq_append protocol env K
    rw [under]
    refine Outcome.drops_of_append (D := .command c.body :: D) rfl (fun item member same => ?_)
      shorter
    rcases List.mem_cons.mp member with rfl | member
    · cases same
    · rcases own item member with rfl | rfl <;> cases same
  all_goals exact Outcome.drops_of_append (D := []) rfl nofun (Nat.le_refl _)

section Above

variable (protocol) {top a : Item} {K' : List Item} {S' : List Value} {env' : Env} {k' : Nat}
  {o : List Item → List Value → Outcome}

/-- A rule that takes some values off the stash, and looks neither at the rest of it nor below its
item, applies above a footing as it does without. -/
theorem onFooting_of_taking (taken : List Value)
    (stands : of (top :: K') (taken ++ S') env' k' = (of (a :: L) U env k).atop (b :: K) S)
    (notCatch : top.isCatch = false) (enough : a.taken ≤ U.length)
    (count : taken.length = top.taken)
    (rule : ∀ L V, Move protocol globals role (of (top :: L) (taken ++ V) env' k') s (o L V))
    (kept : ∀ L V, o (L.map (Item.raise S.length) ++ b :: K) (V ++ S) = (o L V).atop (b :: K) S) :
    (o K' S').OnFooting globals role b K S (of (a :: L) U env k) s := by
  obtain ⟨rfl, rfl, values, rfl, rfl⟩ := Machine.of_eq_atop_of_not_catch notCatch stands
  obtain ⟨V, rfl, rfl⟩ := exists_append_of_le taken values (count.trans_le enough)
  exact .above protocol (rule L V) (kept L V)

/-- Among these rules are those that take the arguments of a call and the callee. -/
theorem onFooting_of_calling {i : Instruction} {args : List Value} {callee : Value}
    (stands : of (.instruction i :: K') (args.reverse ++ callee :: S') env' k' =
      (of (a :: L) U env k).atop (b :: K) S)
    (notCatch : (Item.instruction i).isCatch = false) (enough : a.taken ≤ U.length)
    (count : args.length + 1 = i.taken)
    (rule : ∀ L V, Move protocol globals role
      (of (.instruction i :: L) (args.reverse ++ callee :: V) env' k') s (o L V))
    (kept : ∀ L V, o (L.map (Item.raise S.length) ++ b :: K) (V ++ S) = (o L V).atop (b :: K) S) :
    (o K' S').OnFooting globals role b K S (of (a :: L) U env k) s := by
  rw [List.append_cons] at stands
  have count : (args.reverse ++ [callee]).length = i.taken := by
    rw [List.length_append, List.length_reverse]
    exact count
  refine onFooting_of_taking protocol _ stands notCatch enough count (fun L V => ?_) kept
  rw [← List.append_cons]
  exact rule L V

end Above

/-- A return and a throw look at the next item. If this is the footing, they take it away, and else
they do the same above a footing as they do without. -/
theorem onFooting_of_unwinding {i : Instruction} (unwinds : i = .reset ∨ i = .throw)
    (footing : b.isFooting = true) (move : Move protocol globals role m s o)
    (stands : m = (of (.instruction i :: L) U env k).atop (b :: K) S)
    (enough : i.taken ≤ U.length) :
    o.OnFooting globals role b K S (of (.instruction i :: L) U env k) s := by
  rcases unwinds with rfl | rfl
  all_goals
    have control : m.control.toList = _ :: (L.map (Item.raise S.length) ++ b :: K) :=
      congrArg (·.control.toList) stands
    cases move <;> injection control with first below <;> cases first
  case inl.resetEmpty.refl => simp at below
  case inl.resetMark.refl =>
    rcases L with _ | ⟨next, L⟩
    · cases below
      exact .away (Outcome.drops_of_append (D := []) rfl nofun (Nat.le_refl _))
    · obtain ⟨raised, rfl⟩ := List.cons.inj below
      obtain ⟨-, -, rfl, rfl, rfl⟩ := Machine.of_eq_atop_of_not_catch rfl stands
      cases Item.eq_of_raise rfl raised
      exact .above protocol .resetMark rfl
  case inl.resetDiscard.refl notMark =>
    rcases L with _ | ⟨next, L⟩
    · cases below
      exact .away (Outcome.drops_of_cons footing rfl rfl (Nat.le_refl _))
    · obtain ⟨rfl, rfl⟩ := List.cons.inj below
      obtain ⟨-, -, rfl, rfl, rfl⟩ := Machine.of_eq_atop_of_not_catch rfl stands
      exact .above protocol (.resetDiscard (by simpa using notMark)) rfl
  case inr.throwDiscard.refl notCatch =>
    rcases L with _ | ⟨next, L⟩
    · cases below
      exact .away (Outcome.drops_of_cons footing rfl rfl (Nat.le_refl _))
    · obtain ⟨rfl, rfl⟩ := List.cons.inj below
      obtain ⟨-, -, rfl, rfl, rfl⟩ := Machine.of_eq_atop_of_not_catch rfl stands
      exact .above protocol (.throwDiscard (by simpa using notCatch)) rfl
  case inr.caught.refl sym handler e height inner store v K' S' env' k' extended =>
    obtain ⟨-, -, values, rfl, rfl⟩ := Machine.of_eq_atop_of_not_catch rfl stands
    rcases L with _ | ⟨next, L⟩
    · cases below
      exact .away (Outcome.drops_of_append (D := [.command handler, .instruction (.restore e)]) rfl
        (by simp) (Nat.le_refl _))
    · obtain ⟨caught, rfl⟩ := List.cons.inj below
      obtain ⟨lower, rfl, rfl⟩ := Item.exists_of_raise_catch caught
      obtain ⟨V, rfl, rfl⟩ := exists_append_of_le [v] values enough
      refine .above protocol (.caught extended) ?_
      have cut : (V ++ S).drop ((V ++ S).length - (lower + S.length)) =
          V.drop (V.length - lower) ++ S := by
        rw [List.length_append, Nat.add_sub_add_right, List.drop_append_of_le_length (by omega)]
      rw [cut]
      rfl

/-- A call puts its body on what it finds below it. Where that is a return of the function whose mark
is the footing, it goes back to the mark. -/
theorem onFooting_of_call {a : Item} {K' : List Item} {S' args : List Value} {env' inner : Env}
    {k' arity : Nat} {c : Closure} {store : Store} (footing : b.isFooting = true)
    (stands : of (.instruction (.call arity) :: K') (args.reverse ++ .closure c :: S') env' k' =
      (of (a :: L) U env k).atop (b :: K) S)
    (enough : a.taken ≤ U.length) (length : args.length = arity)
    (extended : s.store.extend c.env c.params args = .ok (inner, store)) :
    (Outcome.next (of (.command c.body :: Machine.underBody protocol env' K') S' inner (k' + 1))
      { s with store }).OnFooting globals role b K S (of (a :: L) U env k) s := by
  obtain ⟨rfl, rfl, values, rfl, rfl⟩ := Machine.of_eq_atop_of_not_catch rfl stands
  obtain ⟨V, rfl, rfl⟩ := exists_call_of_le length values enough
  rcases Machine.underBody_atop (n := S.length) (K := K) protocol footing env' L with
    ⟨protocol', under⟩ | ⟨mark, M, rfl, clear, under⟩ | shorter
  · refine .above protocol' (.call length extended) ?_
    rw [under]
    rfl
  · subst length
    rw [under]
    exact .back mark rfl clear rfl
  · exact .away (Outcome.drops_of_cons footing rfl rfl shorter)

/-- A move above a footing is a move of the machine on top of it, or a call in return position that
goes back to the mark, or it takes the footing away. -/
theorem of_atop (footing : b.isFooting = true) (move : Move protocol globals role m s o)
    (stands : m = (of L U env k).atop (b :: K) S)
    (takes : ∀ item ∈ L.head?, item.taken ≤ U.length) :
    o.OnFooting globals role b K S (of L U env k) s := by
  rcases L with _ | ⟨a, L⟩
  · exact .away (move.drops_footing footing stands)
  have enough : a.taken ≤ U.length := takes a rfl
  clear takes
  have whole := move
  cases move
  case lit | lambda | restore | mark =>
    exact onFooting_of_taking protocol [] stands rfl enough rfl (fun _ _ => by constructor)
      fun _ _ => rfl
  case name found =>
    exact onFooting_of_taking protocol [] stands rfl enough rfl (fun _ _ => .name found)
      fun _ _ => rfl
  case pop | branchTrue | branchFalse | branchNone | loopAgain | loopDone =>
    exact onFooting_of_taking protocol [_] stands rfl enough rfl (fun _ _ => by constructor)
      fun _ _ => rfl
  case unary applied =>
    exact onFooting_of_taking protocol [_] stands rfl enough rfl (fun _ _ => .unary applied)
      fun _ _ => rfl
  case assign assigned =>
    exact onFooting_of_taking protocol [_] stands rfl enough rfl (fun _ _ => .assign assigned)
      fun _ _ => rfl
  case binary applied =>
    exact onFooting_of_taking protocol [_, _] stands rfl enough rfl (fun _ _ => .binary applied)
      fun _ _ => rfl
  case index accessed element =>
    exact onFooting_of_taking protocol [_, _] stands rfl enough rfl
      (fun _ _ => .index accessed element) fun _ _ => rfl
  case indexAssign accessed inRange =>
    exact onFooting_of_taking protocol [_, _, _] stands rfl enough rfl
      (fun _ _ => .indexAssign accessed inRange) fun _ _ => rfl
  case makeArray length =>
    exact onFooting_of_taking protocol _ stands rfl enough (List.length_reverse.trans length)
      (fun _ _ => .makeArray length) fun _ _ => rfl
  case native length reply =>
    exact onFooting_of_calling protocol stands rfl enough (congrArg (· + 1) length)
      (fun _ _ => .native length reply) fun _ _ => rfl
  case sleep length reply =>
    exact onFooting_of_calling protocol stands rfl enough (congrArg (· + 1) length)
      (fun _ _ => .sleep length reply) fun _ _ => rfl
  case launch length extended =>
    exact onFooting_of_calling protocol stands rfl enough (congrArg (· + 1) length)
      (fun _ _ => .launch length extended) fun _ _ => rfl
  case launchNative length fits =>
    exact onFooting_of_calling protocol stands rfl enough (congrArg (· + 1) length)
      (fun _ _ => .launchNative length fits) fun _ _ => rfl
  case resetEmpty | resetMark | resetDiscard =>
    obtain ⟨rfl, -⟩ := Machine.of_eq_atop_of_not_catch rfl stands
    exact whole.onFooting_of_unwinding (.inl rfl) footing stands enough
  case throwDiscard | caught =>
    obtain ⟨rfl, -⟩ := Machine.of_eq_atop_of_not_catch rfl stands
    exact whole.onFooting_of_unwinding (.inr rfl) footing stands enough
  case pass =>
    obtain ⟨top, rfl, rfl, rfl, rfl⟩ := Machine.of_eq_atop stands
    obtain ⟨below, rfl, rfl⟩ := Item.exists_of_raise_catch top
    exact .above protocol .pass rfl
  -- A plan depends on the height of the stash, and what lies under a block on the items below.
  case plan c K' S' env' k' planned =>
    obtain ⟨rfl, rfl, rfl, rfl, rfl⟩ := Machine.of_eq_atop_of_not_catch rfl stands
    have raised : c.plan env' (U ++ S).length ++ (L.map (Item.raise S.length) ++ b :: K) =
        (c.plan env' U.length ++ L).map (Item.raise S.length) ++ b :: K := by
      rw [List.map_append, Command.map_raise_plan, List.length_append, List.append_assoc]
    refine .above protocol (.plan planned) ?_
    rw [raised]
    rfl
  case block body inner store K' S' env' k' extended =>
    obtain ⟨rfl, rfl, rfl, rfl, rfl⟩ := Machine.of_eq_atop_of_not_catch rfl stands
    refine .above .plain (.block extended) ?_
    rw [Machine.underBlock_atop]
    rfl
  case call length extended => exact onFooting_of_call footing stands enough length extended

end Move

/-! ## What stands on a footing is balanced -/

/-- A command alone calls for no values. -/
theorem balanced_alone (c : Command) (fits : Fits strict 0 n) :
    Balanced strict n [.command c] := by
  have leaves : Open strict true [] 1 := ⟨Nat.le_refl 1, fun _ => Nat.le_refl 1, fun _ _ => rfl⟩
  obtain ⟨sound, called, -⟩ := Command.sound_command (c := c) (K := []) trivial rfl (Nat.le_refl 1)
    leaves fun _ => rfl
  exact sound.balanced (by rw [called]; exact fits)

theorem standing_command (c : Command) : Standing strict B S (of (.command c :: B) S env k) :=
  ⟨of [.command c] [] env k, rfl, balanced_alone c ⟨Nat.le_refl 0, fun _ => rfl⟩⟩

/-- A call in return position leaves no values of the function that it ends. -/
theorem Balanced.fits_of_call_reset {arity : Nat}
    (balanced : Balanced strict (arity + 1 + n)
      (.instruction (.call arity) :: .instruction .reset :: L))
    (clear : ∀ item ∈ L, item.isMark = false) : Fits strict 0 n := by
  obtain ⟨⟨-, -, gives, leaves, -⟩, fits⟩ := balanced
  have called : Fits strict (calledHeight L) (n + 1) := by
    refine fits.shift ?_
    simp only [calledHeight, Item.taken, Instruction.taken, Item.given] at gives ⊢
    omega
  have returned : returnHeight L = 1 := by
    have := returnHeight_append (K := []) clear
    rwa [List.append_nil] at this
  have returns := Open.returnHeight_fits leaves called
  rw [returned] at returns
  exact returns.shift (by omega)

/-- What stands on a footing keeps to it until the footing is taken away. -/
theorem Standing.goes {setting : Setting} {m' : Machine} (footing : b.isFooting = true)
    (clear : strict = true → m.Holds Command.returnsClear) (stands : Standing strict (b :: K) S m)
    (goes : m.Goes setting role s m') (kept : b :: K <:+ m'.control.toList) :
    Standing strict (b :: K) S m' := by
  obtain ⟨n, rfl, balanced⟩ := stands
  obtain ⟨o, move, going⟩ := goes
  have takes : ∀ item ∈ n.control.toList.head?, item.taken ≤ n.stash.toList.length := by
    intro item top
    obtain ⟨L, contents⟩ := List.head?_eq_some_iff.mp top
    rw [contents] at balanced
    rw [Stack.length_toList]
    exact balanced.taken_le
  have onFooting := move.of_atop footing (congrArg _ n.eq_of) takes
  rw [← n.eq_of] at onFooting
  cases onFooting with
  | @above _ _ o' upper same =>
    subst same
    have balanced' : o'.Balanced strict :=
      upper.balanced (fun tight => (clear tight).of_atop) balanced
    cases o' with
    | stop result n' s' => cases going
    | _ =>
      cases going
      exact ⟨_, rfl, balanced'⟩
  | @back M c args V inner s' mark control marks stash =>
    cases mark
    cases going
    have height : n.stash.size = args.length + 1 + V.length := by
      rw [← Stack.length_toList, stash]
      simp
      omega
    rw [control, height] at balanced
    have fits := balanced.fits_of_call_reset marks
    exact ⟨of [.command c.body] V inner _, rfl, balanced_alone _ fits⟩
  | away drops => exact absurd kept (drops m' going)

/-- A command put on a footing stands on it all along a stretch in which the footing stays. -/
theorem World.Stretch.standing {setting : Setting} {context : Context} {w w' : World} {c : Command}
    (footing : b.isFooting = true)
    (clear : strict = true → ∀ v m, Stretch setting context (b :: K <:+ ·.control.toList) w v →
      v.held? context = some m → m.Holds Command.returnsClear)
    (held : w.held? context = some (of (.command c :: b :: K) S env k))
    (stretch : Stretch setting context (b :: K <:+ ·.control.toList) w w')
    (held' : w'.held? context = some m) : Standing strict (b :: K) S m := by
  obtain ⟨m', found, stands⟩ := stretch.carries (Standing strict (b :: K) S) held
    (standing_command c) fun v n n' before held stands goes kept =>
      stands.goes footing (fun tight => clear tight v n before held) goes kept
  rw [held'] at found
  cases found
  exact stands

end Footing

/-! ## Tries -/

section Sites

variable {setting : Setting} {role : Role} {m n : Machine} {s : Shared} {w w' : World}
  {context : Context} {K : List Item} {S : List Value}

/-- Below the step limit a command is expanded. -/
theorem Machine.advance_command {c : Command} {env : Env} {k : Nat}
    (within : k < setting.limits.steps) :
    (of (.command c :: K) S env k).advance setting role s =
      (of K S env (k + 1)).expand setting c s :=
  if_neg (Nat.not_le.mpr within)

/-- Below the step limit an instruction is executed. -/
theorem Machine.advance_instruction {i : Instruction} {env : Env} {k : Nat}
    (within : k < setting.limits.steps) :
    (of (.instruction i :: K) S env k).advance setting role s =
      (of K S env (k + 1)).execute setting role i s :=
  if_neg (Nat.not_le.mpr within)

/-- A try that does not end the context puts its body on a catch, and there is room for both. -/
theorem Machine.advance_attempt {body handler : Command} {sym : String}
    (control : m.control.toList = .command (.attempt body sym handler) :: K)
    (goes : (m.advance setting role s).isStop = false) :
    2 + K.length ≤ setting.limits.depth ∧
      m.advance setting role s =
        .next (of (.command body :: .instruction (.catch sym handler m.env m.stash.size) :: K)
          m.stash.toList m.env (m.steps + 1)) s := by
  have entered : m.advance setting role s =
      .next (of (.command body :: .instruction (.catch sym handler m.env m.stash.size) :: K)
        m.stash.toList m.env (m.steps + 1)) s := by
    rw [← (move_of_advance goes).act_eq, m.eq_of, control]
    exact (Move.plan rfl).act_eq.trans (by simp [Command.plan])
  refine ⟨?_, entered⟩
  by_contra full
  have within := steps_lt_of_advance entered
  rw [m.eq_of, control, advance_command within] at goes
  have stops : ((of K m.stash.toList m.env (m.steps + 1)).expand setting
      (.attempt body sym handler) s).isStop = true := congrArg Outcome.isStop (if_neg full)
  rw [stops] at goes
  cases goes

/-- A throw above a catch starts the handler in a frame that binds the thrown value to its name. -/
theorem Machine.advance_caught {handler : Command} {sym : String} {env : Env} {height : Nat}
    {v : Value} (control : m.control.toList =
      .instruction .throw :: .instruction (.catch sym handler env height) :: K)
    (stash : m.stash.toList = v :: S) (within : m.steps < setting.limits.steps)
    (fits : 2 + K.length ≤ setting.limits.depth) :
    m.advance setting role s =
      .next (of (.command handler :: .instruction (.restore env) :: K)
          (S.drop (S.length - height)) ⟨⟨s.store.frames.size⟩ :: env.frames⟩ (m.steps + 1))
        { s with store := { s.store with frames := s.store.frames.push ⟨[(sym, v)]⟩ } } := by
  rw [m.eq_of, control, stash, advance_instruction within]
  have made : (⟨(Stack.ofList K).pushAll [.command handler, .instruction (.restore env)],
      (Stack.ofList S).cutTo height, ⟨⟨s.store.frames.size⟩ :: env.frames⟩, m.steps + 1⟩ :
        Machine) =
      of (.command handler :: .instruction (.restore env) :: K) (S.drop (S.length - height))
        ⟨⟨s.store.frames.size⟩ :: env.frames⟩ (m.steps + 1) := by
    simp [of, Stack.cutTo]
  exact (if_pos fits).trans (congrArg (Outcome.next · _) made)

/-- A machine on a footing with one instruction left has a value of its own if it takes one. -/
theorem Standing.exists_value {i : Instruction} {b : Item} {strict : Bool}
    (stands : Standing strict (b :: K) S m) (control : m.control.toList = .instruction i :: b :: K)
    (takes : 1 ≤ i.taken) (notCatch : (Item.instruction i).isCatch = false) :
    ∃ v rest, m.stash.toList = v :: (rest ++ S) ∧
      Balanced strict (rest.length + 1) [.instruction i] := by
  obtain ⟨n, rfl, balanced⟩ := stands
  have upper : n.control.toList.map (Item.raise S.length) ++ b :: K =
      [.instruction i] ++ b :: K := control
  have single := List.append_cancel_right upper
  obtain ⟨item, one, raised⟩ := List.map_eq_singleton_iff.mp single
  cases Item.eq_of_raise notCatch raised.symm
  rw [one] at balanced
  have enough : 1 ≤ n.stash.toList.length := by
    rw [Stack.length_toList]
    exact Nat.le_trans takes balanced.taken_le
  obtain ⟨v, rest, stash⟩ := List.exists_cons_of_length_pos enough
  refine ⟨v, rest, ?_, ?_⟩
  · show n.stash.toList ++ S = _
    rw [stash]
    rfl
  · rw [← Stack.length_toList, stash] at balanced
    exact balanced

/-- A machine that has come down to its footing has a value of its own, and no other if all is
exact. -/
theorem Standing.exists_result {B : List Item} {strict : Bool} (stands : Standing strict B S m)
    (control : m.control.toList = B) :
    ∃ v D, m.stash.toList = v :: (D ++ S) ∧ (strict = true → D = []) := by
  obtain ⟨n, rfl, balanced⟩ := stands
  have upper : n.control.toList.map (Item.raise S.length) ++ B = [] ++ B := control
  have empty := List.map_eq_nil_iff.mp (List.append_cancel_right upper)
  rw [empty, ← Stack.length_toList] at balanced
  obtain ⟨-, enough, exactly⟩ := balanced
  obtain ⟨v, D, stash⟩ := List.exists_cons_of_length_pos enough
  rw [stash] at exactly
  refine ⟨v, D, ?_, fun tight => List.eq_nil_of_length_eq_zero ?_⟩
  · show n.stash.toList ++ S = _
    rw [stash]
    rfl
  · simpa [calledHeight] using exactly tight

/-- A throw that comes to the catch of a try goes on at the place of the try. Let a context take a
try off its control stack, in any world, and take its catch all along the run that follows to stay
on the control stack, whatever is done above it and whatever the other contexts do. If then a throw
stands on the catch, its step leaves the items that lay below the try, the handler and the restore
of the environment on top of them, the values that lay on the stash at the try, one by one, and the
environment of the try with one frame in front that binds the name of the try to the thrown value
and nothing else. -/
theorem attempt_restores_site (setting : Setting) {w w' : World} {context : Context}
    {m n : Machine} {body handler : Command} {sym : String} {K : List Item}
    (running : w.machine? context = some m)
    (control : m.control.toList = .command (.attempt body sym handler) :: K)
    (taken : (m.advance setting context.role w.commons.shared).isStop = false)
    (stretch : World.Stretch setting context
      (.instruction (.catch sym handler m.env m.stash.size) :: K <:+ ·.control.toList)
      (w.act setting context) w')
    (throwing : w'.machine? context = some n)
    (thrown : n.control.toList =
      .instruction .throw :: .instruction (.catch sym handler m.env m.stash.size) :: K)
    (within : n.steps < setting.limits.steps) :
    ∃ v rest, n.stash.toList = v :: (rest ++ m.stash.toList) ∧
      n.advance setting context.role w'.commons.shared =
        .next
          (of (.command handler :: .instruction (.restore m.env) :: K) m.stash.toList
            ⟨⟨w'.commons.shared.store.frames.size⟩ :: m.env.frames⟩ (n.steps + 1))
          { w'.commons.shared with
            store := { w'.commons.shared.store with
              frames := w'.commons.shared.store.frames.push ⟨[(sym, v)]⟩ } } := by
  obtain ⟨fits, entered⟩ := Machine.advance_attempt control taken
  have held := World.held?_of_machine? (World.machine?_act_of_next running entered).1
  have stands : Standing false (.instruction (.catch sym handler m.env m.stash.size) :: K)
      m.stash.toList n :=
    World.Stretch.standing rfl (by simp) held stretch (World.held?_of_machine? throwing)
  obtain ⟨v, rest, stash, -⟩ := stands.exists_value thrown (Nat.le_refl 1) rfl
  refine ⟨v, rest, stash, ?_⟩
  rw [Machine.advance_caught thrown stash within fits]
  have cut : (rest ++ m.stash.toList).drop ((rest ++ m.stash.toList).length - m.stash.size) =
      m.stash.toList := by
    rw [List.length_append, Stack.length_toList, Nat.add_sub_cancel, List.drop_left]
  rw [cut]

/-- The sum of five and a try that throws in the middle of a sum of its own. -/
def thrownSum : Program :=
  ⟨.binary .add (.lit (.int 5))
    (.attempt (.binary .add (.lit (.int 1)) (.throw (.lit (.int 7)))) "e" (.name "e"))⟩

theorem attempt_restores_site_thrownSum :
    ∃ n s, (thrownSum.initial.acts (thrownSum.setting {}) .main 8).machine? .main = some n ∧
      n.stash.toList = [.int 7, .int 1, .int 5] ∧
      n.advance (thrownSum.setting {}) .main
          (thrownSum.initial.acts (thrownSum.setting {}) .main 8).commons.shared =
        .next (of [.command (.name "e"), .instruction (.restore ⟨[⟨1⟩, ⟨0⟩]⟩),
          .instruction (.binary .add)] [.int 5] ⟨[⟨2⟩, ⟨1⟩, ⟨0⟩]⟩ 9) s := by
  have stretch : World.Stretch (thrownSum.setting {}) .main
      ([.instruction (.catch "e" (.name "e") ⟨[⟨1⟩, ⟨0⟩]⟩ 1), .instruction (.binary .add)] <:+
        ·.control.toList)
      (thrownSum.initial.acts (thrownSum.setting {}) .main 3)
      ((thrownSum.initial.acts (thrownSum.setting {}) .main 3).acts (thrownSum.setting {}) .main
        5) := by
    refine .acts fun j below => ?_
    interval_cases j <;> exact ⟨rfl, _, rfl, List.suffix_iff_eq_drop.mpr rfl⟩
  obtain ⟨v, rest, -, caught⟩ := attempt_restores_site (thrownSum.setting {})
    (w := thrownSum.initial.acts (thrownSum.setting {}) .main 2)
    (m := of [.command (.attempt (.binary .add (.lit (.int 1)) (.throw (.lit (.int 7)))) "e"
      (.name "e")), .instruction (.binary .add)] [.int 5] ⟨[⟨1⟩, ⟨0⟩]⟩ 2)
    (n := of [.instruction .throw, .instruction (.catch "e" (.name "e") ⟨[⟨1⟩, ⟨0⟩]⟩ 1),
        .instruction (.binary .add)] [.int 7, .int 1, .int 5] ⟨[⟨1⟩, ⟨0⟩]⟩ 8)
    rfl rfl rfl stretch rfl rfl (by decide)
  exact ⟨_, _, rfl, rfl, caught⟩

/-! ## Calls -/

/-- A body is put on a mark, however it is entered. -/
theorem Machine.exists_underBody (protocol : CallProtocol) (env : Env) (K : List Item) :
    ∃ K', underBody protocol env K = .instruction .mark :: K' := by
  unfold underBody
  split
  case h_4 items =>
    cases found : tailFrame? items with
    | none => exact ⟨_, rfl⟩
    | some above =>
      obtain ⟨D, K', rfl, rfl, -⟩ := eq_append_of_tailFrame? found
      exact ⟨K', by simp⟩
  all_goals exact ⟨_, rfl⟩

/-- A call of a closure that does not end the context puts the body on a mark. -/
theorem Machine.advance_call {args : List Value} {c : Closure}
    (control : m.control.toList = .instruction (.call args.length) :: K)
    (stash : m.stash.toList = args.reverse ++ .closure c :: S)
    (goes : (m.advance setting role s).isStop = false) :
    ∃ inner store, m.advance setting role s =
      .next (of (.command c.body :: underBody setting.protocol m.env K) S inner (m.steps + 1))
        { s with store } := by
  have taken := (move_of_advance goes).act_eq
  rw [← taken] at goes ⊢
  rw [m.eq_of, control, stash] at goes ⊢
  cases extended : s.store.extend c.env c.params args with
  | ok made => exact ⟨made.1, made.2, (Move.call rfl extended).act_eq⟩
  | error e =>
    obtain ⟨stopped, -, stops⟩ := (Fails.params rfl extended).act setting.protocol K m.steps
    rw [stops] at goes
    cases goes

/-- A call is about to end when its mark is on top, or a return stands on it. Then there is a value
above those of the caller, and no other value if all is exact. -/
theorem Standing.ending {strict : Bool} (stands : Standing strict (.instruction .mark :: K) S m)
    (ending : m.control.toList = .instruction .mark :: K ∨
      m.control.toList = .instruction .reset :: .instruction .mark :: K) :
    ∃ v D, m.stash.toList = v :: (D ++ S) ∧ (strict = true → D = []) := by
  rcases ending with through | returning
  · exact stands.exists_result through
  · obtain ⟨v, D, stash, balanced⟩ := stands.exists_value returning (Nat.le_refl 1) rfl
    refine ⟨v, D, stash, fun tight => List.eq_nil_of_length_eq_zero ?_⟩
    simpa [returnHeight] using balanced.2.2 tight

/-- When a call ends, the values of its caller are where they were, under the value of the call.
Let a context call a closure with the values `S` below the callee and the arguments. Its body is
put on a mark, and when this mark is on top or a return stands on it, and it has stayed on the
control stack all along, then the next step goes back to the items below the mark, with the value
of the call, some values `D` that a return has left of the operands of its function, and `S`. If
no return of the program stands in an operand position, there are no such values `D`. -/
theorem call_leaves_stash (program : Program) (limits : Limits) {w : World} {context : Context}
    {m : Machine} (args : List Value) {c : Closure} {K : List Item} {S : List Value}
    (reachable : World.Reachable (program.setting limits) program.initial w)
    (running : w.machine? context = some m)
    (control : m.control.toList = .instruction (.call args.length) :: K)
    (stash : m.stash.toList = args.reverse ++ .closure c :: S)
    (taken : (m.advance (program.setting limits) context.role w.commons.shared).isStop = false) :
    ∃ K' entered, Machine.underBody .economical m.env K = .instruction .mark :: K' ∧
      (w.act (program.setting limits) context).machine? context = some entered ∧
      entered.control.toList = .command c.body :: .instruction .mark :: K' ∧
      entered.stash.toList = S ∧
      ∀ w' n, World.Stretch (program.setting limits) context
          (.instruction .mark :: K' <:+ ·.control.toList)
          (w.act (program.setting limits) context) w' →
        w'.machine? context = some n →
        n.control.toList = .instruction .mark :: K' ∨
          n.control.toList = .instruction .reset :: .instruction .mark :: K' →
        n.steps < limits.steps →
        ∃ v D, n.advance (program.setting limits) context.role w'.commons.shared =
            .next (of K' (v :: (D ++ S)) n.env (n.steps + 1)) w'.commons.shared ∧
          (program.body.RetSafe → D = []) := by
  obtain ⟨K', under⟩ := Machine.exists_underBody .economical m.env K
  obtain ⟨inner, store, enters⟩ := Machine.advance_call control stash taken
  have economical : (program.setting limits).protocol = .economical := rfl
  rw [economical, under] at enters
  have entered := (World.machine?_act_of_next running enters).1
  refine ⟨K', _, under, entered, rfl, rfl, fun w' n stretch running' ending within => ?_⟩
  have after : World.Reachable (program.setting limits) program.initial
      (w.act (program.setting limits) context) :=
    .act context reachable (World.canAct_of_machine? running)
  have held := World.held?_of_machine? entered
  have held' := World.held?_of_machine? running'
  have stands : Standing false (.instruction .mark :: K') S n :=
    World.Stretch.standing rfl (by simp) held stretch held'
  obtain ⟨v, D, left, -⟩ := stands.ending ending
  refine ⟨v, D, ?_, fun retSafe => ?_⟩
  · rcases ending with through | returning
    · rw [n.eq_of, through, left, Machine.advance_instruction within]
      rfl
    · rw [n.eq_of, returning, left, Machine.advance_instruction within]
      rfl
  · have exact_ : Standing true (.instruction .mark :: K') S n := by
      refine World.Stretch.standing rfl (fun _ v m before found => ?_) held stretch held'
      have balanced : (balance true).World v :=
        balance_reachable (fun _ => retSafe) (before.reachable after)
      exact (balanced.held? found).2 rfl
    obtain ⟨v', D', left', none⟩ := exact_.ending ending
    rw [none rfl, left] at left'
    obtain ⟨-, same⟩ := List.cons.inj left'
    exact List.append_left_eq_self.mp same

/-- The sum of one and a call of `f`, which has the given body. -/
def sumWithCall (body : Command) : Program :=
  ⟨.seq [.function "f" [] body, .binary .add (.lit (.int 1)) (.callNamed "f" [])]⟩

/-- A function that returns a sum. -/
def returnedSum : Program :=
  sumWithCall (.ret (.binary .add (.lit (.int 2)) (.lit (.int 3))))

theorem call_leaves_stash_returnedSum :
    ∃ n v, (returnedSum.initial.acts (returnedSum.setting {}) .main 18).machine? .main = some n ∧
      n.stash.toList = [.int 5, .int 1] ∧
      n.advance (returnedSum.setting {}) .main
          (returnedSum.initial.acts (returnedSum.setting {}) .main 18).commons.shared =
        .next (of [.instruction (.restore ⟨[⟨1⟩, ⟨0⟩]⟩), .instruction (.binary .add)]
            (v :: [.int 1]) n.env (n.steps + 1))
          (returnedSum.initial.acts (returnedSum.setting {}) .main 18).commons.shared := by
  have reachable : World.Reachable (returnedSum.setting {}) returnedSum.initial
      (returnedSum.initial.acts (returnedSum.setting {}) .main 12) := by
    refine .acts .start fun j below => ?_
    interval_cases j <;> rfl
  have stretch : World.Stretch (returnedSum.setting {}) .main
      ([.instruction .mark, .instruction (.restore ⟨[⟨1⟩, ⟨0⟩]⟩), .instruction (.binary .add)] <:+
        ·.control.toList)
      (returnedSum.initial.acts (returnedSum.setting {}) .main 13)
      ((returnedSum.initial.acts (returnedSum.setting {}) .main 13).acts (returnedSum.setting {})
        .main 5) := by
    refine .acts fun j below => ?_
    interval_cases j <;> exact ⟨rfl, _, rfl, List.suffix_iff_eq_drop.mpr rfl⟩
  have running : (returnedSum.initial.acts (returnedSum.setting {}) .main 12).machine? .main =
      some (of [.instruction (.call 0), .instruction (.binary .add)]
        [.closure ⟨0, [], .ret (.binary .add (.lit (.int 2)) (.lit (.int 3))), ⟨[⟨1⟩, ⟨0⟩]⟩⟩,
          .int 1] ⟨[⟨1⟩, ⟨0⟩]⟩ 12) := rfl
  obtain ⟨K', entered, under, -, -, -, ends⟩ :=
    call_leaves_stash returnedSum {} [] reachable running rfl rfl rfl
  cases under
  obtain ⟨v, D, goes, none⟩ := ends _ (of [.instruction .reset, .instruction .mark,
    .instruction (.restore ⟨[⟨1⟩, ⟨0⟩]⟩), .instruction (.binary .add)] [.int 5, .int 1]
    ⟨[⟨2⟩, ⟨1⟩, ⟨0⟩]⟩ 18) stretch rfl (.inr rfl) (by decide)
  cases none (by decide)
  exact ⟨_, v, rfl, rfl, goes⟩

/-- A function that returns from the second operand of a sum. -/
def returnedOperand : Program :=
  sumWithCall (.binary .add (.lit (.int 2)) (.ret (.lit (.int 3))))

/-- A return leaves the operands of its function on the stash: the call is made with one value on
the stash of the caller, and when its mark is taken there are three. The sum of the caller then
takes an operand of the function for its own, and the run ends in a fault. -/
theorem returnedOperand_leaves_operand :
    (returnedOperand.initial.acts (returnedOperand.setting {}) .main 12).machine? .main =
      some (of [.instruction (.call 0), .instruction (.binary .add)]
        [.closure ⟨0, [], .binary .add (.lit (.int 2)) (.ret (.lit (.int 3))), ⟨[⟨1⟩, ⟨0⟩]⟩⟩,
          .int 1] ⟨[⟨1⟩, ⟨0⟩]⟩ 12) ∧
    World.Reachable (returnedOperand.setting {}) returnedOperand.initial
      (returnedOperand.initial.acts (returnedOperand.setting {}) .main 12) ∧
    World.Stretch (returnedOperand.setting {}) .main
      ([.instruction .mark, .instruction (.restore ⟨[⟨1⟩, ⟨0⟩]⟩), .instruction (.binary .add)] <:+
        ·.control.toList)
      (returnedOperand.initial.acts (returnedOperand.setting {}) .main 13)
      ((returnedOperand.initial.acts (returnedOperand.setting {}) .main 13).acts
        (returnedOperand.setting {}) .main 5) ∧
    (returnedOperand.initial.acts (returnedOperand.setting {}) .main 18).machine? .main =
      some (of [.instruction .reset, .instruction .mark, .instruction (.restore ⟨[⟨1⟩, ⟨0⟩]⟩),
        .instruction (.binary .add)] [.int 3, .int 2, .int 1] ⟨[⟨2⟩, ⟨1⟩, ⟨0⟩]⟩ 18) ∧
    (∃ n, (returnedOperand.initial.acts (returnedOperand.setting {}) .main 19).machine? .main =
        some n ∧
      n.control.toList = [.instruction (.restore ⟨[⟨1⟩, ⟨0⟩]⟩), .instruction (.binary .add)] ∧
      ¬ ∃ v, n.stash.toList = v :: [.int 1]) ∧
    (returnedOperand.run {} false 60).map (·.result) = some (.error (.invariantViolation 2)) := by
  refine ⟨rfl, ?_, ?_, rfl, ⟨_, rfl, rfl, ?_⟩, rfl⟩
  · refine .acts .start fun j below => ?_
    interval_cases j <;> rfl
  · refine .acts fun j below => ?_
    interval_cases j <;> exact ⟨rfl, _, rfl, List.suffix_iff_eq_drop.mpr rfl⟩
  · rintro ⟨v, same⟩
    have lengths : 3 = 2 := congrArg List.length same
    exact absurd lengths (by decide)

end Sites

end ControlStash
