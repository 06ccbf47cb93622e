import ControlStash.Proofs.Environment
import ControlStash.Proofs.Scope

/-!
# The sites of items

The node that a machine works on is not written on its control stack: equal commands may stand at
many places of a program, in different scopes. `Sites` keeps a record of the places beside the
machine. Each item has a `Site`, which is the path of the node it comes from together with the
frames that were made on entering the binders around it, and so has each closure. `Sites.after` is
what a step does to the record.

The record is right in every state that a program without goroutines comes to (`Program.Sited.fit`):
the items come from the nodes that the record says, each will be come to in the frames that the
record says, and those bind exactly the names of the scope of the node, layer by layer.
-/

namespace ControlStash

open Machine (of)

/-! ## Sites -/

/-- Where a node is worked on: its path from the root, and the frames that were made on entering the
binders around it, the innermost first. -/
structure Site where
  path : List Nat
  frames : List FrameRef

namespace Site

/-- The site of a part of a node. -/
def child (σ : Site) (i : Nat) : Site :=
  ⟨σ.path ++ [i], σ.frames⟩

/-- The site of a part that is entered with a frame of its own, which is the next in the store. -/
def enter (σ : Site) (i : Nat) (store : Store) : Site :=
  ⟨σ.path ++ [i], ⟨store.frames.size⟩ :: σ.frames⟩

/-- The sites of the items that are scheduled for a node. The commands among them are parts of the
node, from number `i` on, and the instructions belong to the node itself. -/
def ofItems (σ : Site) : Nat → List Item → List Site
  | _, [] => []
  | i, .command _ :: items => σ.child i :: σ.ofItems (i + 1) items
  | i, .instruction _ :: items => σ :: σ.ofItems i items

/-- The lowest `n` of some sites. If there are fewer, `σ` is the site of what is new above them. -/
def fill (σ : Site) (n : Nat) (sites : List Site) : List Site :=
  List.replicate (n - sites.length) σ ++ sites.drop (sites.length - n)

theorem fill_length (σ : Site) (sites : List Site) : σ.fill sites.length sites = sites := by
  simp [fill]

theorem fill_of_append (σ : Site) (dropped sites : List Site) :
    σ.fill sites.length (dropped ++ sites) = sites := by
  simp [fill]

theorem fill_add (σ : Site) (n : Nat) (sites : List Site) :
    σ.fill (sites.length + n) sites = List.replicate n σ ++ sites := by
  simp [fill]

end Site

/-- The sites of the items of a control stack, top first, and of the closures by their stamps. -/
structure Sites where
  items : List Site
  closures : List Site

namespace Sites

/-- The sites of the items that the next step puts on the control stack. -/
def pushed (L : Sites) (m : Machine) (s : Shared) : List Site :=
  match m.control.toList, L.items with
  | .command (.block _) :: _, σ :: _ => [σ.enter 0 s.store]
  | .command c :: _, σ :: _ => σ.ofItems 0 (c.plan m.env m.stash.size)
  | .instruction (.branch _ alt) :: _, σ :: _ =>
    match m.stash.toList with
    | .bool true :: _ => [σ.child 1]
    | .bool false :: _ => (alt.map fun _ => σ.child 2).toList
    | _ => []
  | .instruction (.loop _ _ _) :: _, σ :: _ =>
    match m.stash.toList with
    | .bool true :: _ => [σ.child 2, σ, σ.child 0, σ]
    | _ => []
  | .instruction (.call arity) :: _, _ =>
    match m.stash.toList[arity]? with
    | some (.closure c) => (L.closures[c.stamp]?.map (·.enter 0 s.store)).toList
    | _ => []
  -- The handler is a part of the node that the catch belongs to.
  | .instruction .throw :: .instruction (.catch _ _ _ _) :: _, _ :: τ :: _ =>
    [τ.enter 1 s.store, τ]
  | .instruction .throw :: _, σ :: _ => [σ]
  | .instruction .reset :: .instruction .mark :: _, _ => []
  | .instruction .reset :: _ :: _, σ :: _ => [σ]
  | _, _ => []

/-- The sites of the closures, with the one that the next step makes. -/
def closuresAfter (L : Sites) (m : Machine) : List Site :=
  match m.control.toList, L.items with
  | .command (.lambda _ _) :: _, σ :: _ => L.closures ++ [σ]
  | _, _ => L.closures

/-- The sites after a step to a machine. -/
def after (L : Sites) (m : Machine) (s : Shared) (m' : Machine) : Sites :=
  match L.items with
  | [] => L
  | σ :: rest =>
    ⟨L.pushed m s ++ σ.fill (m'.control.size - (L.pushed m s).length) rest, L.closuresAfter m⟩

/-- After a step the new sites lie on the lowest of the old ones. -/
theorem items_after {L : Sites} {m : Machine} {s : Shared} {σ : Site} {rest P lower : List Site}
    {K : List Item} {S : List Value} {env : Env} {k : Nat} (top : L.items = σ :: rest)
    (pushed : L.pushed m s = P) (fills : σ.fill lower.length rest = lower)
    (length : (P ++ lower).length = K.length) :
    (L.after m s (of K S env k)).items = P ++ lower := by
  rw [List.length_append] at length
  simp only [after, top, pushed, Machine.size_control_of, ← length, Nat.add_sub_cancel_left, fills]

theorem closures_after {L : Sites} {m m' : Machine} {s : Shared} {σ : Site} {rest : List Site}
    (top : L.items = σ :: rest) : (L.after m s m').closures = L.closuresAfter m := by
  simp only [after, top]

end Sites

/-! ## Items at their sites -/

/-- The node of a site, its scope, and the environment in which it is worked on. -/
structure Site.Is (p : Program) (store : Store) (σ : Site) (env : Env) (Γ : Scope) (c : Command) :
    Prop where
  node : p.node? σ.path = some (Γ, c)
  frames : env.frames = σ.frames
  layers : Γ.Describes store σ.frames
  /-- Each frame was made after those outside it. -/
  falling : σ.frames.Pairwise (·.index > ·.index)

/-- An instruction that can be scheduled for a node in an environment. Restores and marks are
scheduled for no node. -/
def Instruction.Serves (env : Env) (c : Command) : Instruction → Prop
  | .restore _ => False
  | .mark => False
  | .assign sym => c.assigns sym
  | .branch cons alt =>
    (∃ pred, c = .branch pred cons alt) ∨
      ∃ pred other, alt = some other ∧ c = .conditional pred cons other
  | .loop form pred body => c = .loop form pred body
  | .catch sym handler e _ => e = env ∧ ∃ body, c = .attempt body sym handler
  | _ => True

/-- An item that comes from the node of a site. -/
def Item.At (p : Program) (store : Store) (env : Env) (σ : Site) : Item → Prop
  | .command c => ∃ Γ, σ.Is p store env Γ c
  | .instruction i => ∃ Γ c, σ.Is p store env Γ c ∧ i.Serves env c

/-- Items at their sites that are worked on in order, the first of them in the given environment. -/
inductive Placed (p : Program) (store : Store) : Env → List Item → List Site → Prop
  | nil {env} : Placed p store env [] []
  | restore {env e K σ sites} : Placed p store e K sites →
    Placed p store env (.instruction (.restore e) :: K) (σ :: sites)
  | mark {env K σ sites} : Settled K = true → Placed p store env K sites →
    Placed p store env (.instruction .mark :: K) (σ :: sites)
  | item {env item K σ sites} : item.At p store env σ → Placed p store env K sites →
    Placed p store env (item :: K) (σ :: sites)

/-- Items at their sites, also while a return or a throw is under way. -/
inductive Placing (p : Program) (store : Store) : Env → List Item → List Site → Prop
  | placed {env K sites} : Placed p store env K sites → Placing p store env K sites
  | unwinding {env e item K σ sites} : item.isUnwinding = true → Placed p store e K sites →
    Placing p store env (item :: K) (σ :: sites)

section Placed

variable {p : Program} {store store' : Store} {env e inner : Env} {K : List Item} {σ : Site}
  {sites : List Site} {Γ : Scope} {c d : Command} {item : Item}

theorem Site.Is.mono (grows : store.Grows store') (is : σ.Is p store env Γ c) :
    σ.Is p store' env Γ c :=
  ⟨is.node, is.frames, is.layers.mono grows, is.falling⟩

/-- A part of a node in the same scope is worked on in the same frames. -/
theorem Site.Is.child {i : Nat} (is : σ.Is p store env Γ c)
    (part : (c.parts Γ)[i]? = some (Γ, d)) : (σ.child i).Is p store env Γ d :=
  ⟨(Program.node?_snoc is.node i).trans part, is.frames, is.layers, is.falling⟩

/-- A part of a node with a layer of its own is worked on in a new frame. -/
theorem Site.Is.enter {i : Nat} {names : List String} {values : List Value}
    (is : σ.Is p store env Γ c) (part : (c.parts Γ)[i]? = some (names :: Γ, d))
    (extended : store.extend env names values = .ok (inner, store')) :
    (σ.enter i store).Is p store' inner (names :: Γ) d := by
  obtain ⟨frames, binds⟩ := Store.binds_of_extend extended
  refine ⟨(Program.node?_snoc is.node i).trans part, ?_,
    .cons binds (is.layers.mono (.extend extended)), ?_⟩
  · rw [frames, is.frames]
    rfl
  · exact List.pairwise_cons.mpr ⟨is.layers.lt_size, is.falling⟩

theorem Item.At.mono (grows : store.Grows store') (placed : item.At p store env σ) :
    item.At p store' env σ := by
  cases item with
  | command c =>
    obtain ⟨Γ, is⟩ := placed
    exact ⟨Γ, is.mono grows⟩
  | instruction i =>
    obtain ⟨Γ, c, is, serves⟩ := placed
    exact ⟨Γ, c, is.mono grows, serves⟩

namespace Placed

theorem mono (grows : store.Grows store') (placed : Placed p store env K sites) :
    Placed p store' env K sites := by
  induction placed with
  | nil => exact .nil
  | restore _ ih => exact .restore ih
  | mark settled _ ih => exact .mark settled ih
  | item here _ ih => exact .item (here.mono grows) ih

theorem length_eq (placed : Placed p store env K sites) : sites.length = K.length := by
  induction placed with
  | nil => rfl
  | restore _ ih => exact congrArg Nat.succ ih
  | mark _ _ ih => exact congrArg Nat.succ ih
  | item _ _ ih => exact congrArg Nat.succ ih

/-- What lies below a restore is placed in the environment that it restores. -/
theorem below_restore (placed : Placed p store env (.instruction (.restore e) :: K) sites) :
    ∃ σ rest, sites = σ :: rest ∧ Placed p store e K rest := by
  cases placed with
  | restore below => exact ⟨_, _, rfl, below⟩
  | item here =>
    obtain ⟨_, _, _, serves⟩ := here
    exact serves.elim

/-- What lies below a mark is settled. -/
theorem below_mark (placed : Placed p store env (.instruction .mark :: K) sites) :
    ∃ σ rest, sites = σ :: rest ∧ Settled K = true ∧ Placed p store env K rest := by
  cases placed with
  | mark settled below => exact ⟨_, _, rfl, settled, below⟩
  | item here =>
    obtain ⟨_, _, _, serves⟩ := here
    exact serves.elim

/-- The environment does not matter to items that are settled. -/
theorem of_settled (settled : Settled K = true) (placed : Placed p store env K sites) (e : Env) :
    Placed p store e K sites := by
  rcases K with _ | ⟨item, K⟩
  · cases placed
    exact .nil
  · have restores : item.isRestore = true := settled
    unfold Item.isRestore at restores
    split at restores
    · obtain ⟨σ, rest, rfl, below⟩ := placed.below_restore
      exact .restore below
    · cases restores

/-- Nor does it to items below a mark. -/
theorem of_mark (placed : Placed p store env (.instruction .mark :: K) sites) (e : Env) :
    Placed p store e (.instruction .mark :: K) sites := by
  obtain ⟨σ, rest, rfl, settled, below⟩ := placed.below_mark
  exact .mark settled (below.of_settled settled e)

/-- What lies below the top item is placed, in some environment. -/
theorem exists_tail (placed : Placed p store env (item :: K) sites) :
    ∃ σ rest e, sites = σ :: rest ∧ Placed p store e K rest := by
  cases placed with
  | restore below => exact ⟨_, _, _, rfl, below⟩
  | mark _ below => exact ⟨_, _, _, rfl, below⟩
  | item _ below => exact ⟨_, _, _, rfl, below⟩

theorem exists_of_append {D : List Item} (placed : Placed p store env (D ++ K) sites) :
    ∃ above rest e, sites = above ++ rest ∧ above.length = D.length ∧ Placed p store e K rest := by
  induction D generalizing env sites with
  | nil => exact ⟨[], sites, env, rfl, rfl, placed⟩
  | cons item D ih =>
    obtain ⟨σ, rest, e, rfl, below⟩ := placed.exists_tail
    obtain ⟨above, rest, e, rfl, length, lower⟩ := ih below
    exact ⟨σ :: above, rest, e, rfl, congrArg Nat.succ length, lower⟩

/-- The top item comes from the node of its site, unless it is a restore or a mark. -/
theorem exists_top (placed : Placed p store env (item :: K) sites)
    (notRestore : item.isRestore = false) (notMark : item.isMark = false) :
    ∃ σ rest, sites = σ :: rest ∧ item.At p store env σ ∧ Placed p store env K rest := by
  cases placed with
  | restore => cases notRestore
  | mark => cases notMark
  | item here below => exact ⟨_, _, rfl, here, below⟩

end Placed

namespace Placing

theorem mono (grows : store.Grows store') (placing : Placing p store env K sites) :
    Placing p store' env K sites := by
  cases placing with
  | placed placed => exact .placed (placed.mono grows)
  | unwinding unwinds below => exact .unwinding unwinds (below.mono grows)

theorem length_eq (placing : Placing p store env K sites) : sites.length = K.length := by
  cases placing with
  | placed placed => exact placed.length_eq
  | unwinding _ below => exact congrArg Nat.succ below.length_eq

theorem ordered (placing : Placing p store env (item :: K) sites)
    (onward : item.isUnwinding = false) : Placed p store env (item :: K) sites := by
  cases placing with
  | placed placed => exact placed
  | unwinding unwinds =>
    rw [onward] at unwinds
    cases unwinds

theorem exists_tail (placing : Placing p store env (item :: K) sites) :
    ∃ σ rest e, sites = σ :: rest ∧ Placed p store e K rest := by
  cases placing with
  | placed placed => exact placed.exists_tail
  | unwinding _ below => exact ⟨_, _, _, rfl, below⟩

end Placing

/-! ## Plans -/

/-- Items that are scheduled for a node in a scope: the commands among them are parts of the node,
from number `i` on. -/
def Schedules (Γ : Scope) (env : Env) (c : Command) : Nat → List Item → Prop
  | _, [] => True
  | i, .command d :: items => (c.parts Γ)[i]? = some (Γ, d) ∧ Schedules Γ env c (i + 1) items
  | i, .instruction j :: items => j.Serves env c ∧ Schedules Γ env c i items

theorem schedules_operands {cs : List Command} {last : Instruction} {i : Nat}
    (parts : ∀ j, (c.parts Γ)[i + j]? = cs[j]?.map (Γ, ·)) (serves : last.Serves env c) :
    Schedules Γ env c i (cs.map .command ++ [.instruction last]) := by
  induction cs generalizing i with
  | nil => exact ⟨serves, trivial⟩
  | cons d cs ih =>
    refine ⟨parts 0, ih fun j => ?_⟩
    rw [Nat.add_assoc, Nat.add_comm 1 j]
    exact parts (j + 1)

theorem schedules_sequencePlan {stmts : List Command} {i : Nat} (notEmpty : stmts ≠ [])
    (parts : ∀ j, (c.parts Γ)[i + j]? = stmts[j]?.map (Γ, ·)) :
    Schedules Γ env c i (Command.sequencePlan stmts) := by
  fun_induction Command.sequencePlan stmts generalizing i with
  | case1 => exact absurd rfl notEmpty
  | case2 stmt => exact ⟨parts 0, trivial⟩
  | case3 stmt stmts more ih =>
    refine ⟨parts 0, trivial, ih ?_ fun j => ?_⟩
    · exact more
    · rw [Nat.add_assoc, Nat.add_comm 1 j]
      exact parts (j + 1)

/-- The plan of a node is scheduled for it. -/
theorem schedules_plan (Γ : Scope) (env : Env) (height : Nat) (c : Command) :
    Schedules Γ env c 0 (c.plan env height) := by
  have mapped : ∀ (cs : List Command) (j : Nat),
      (cs.map (Γ, ·))[0 + j]? = cs[j]?.map (Γ, ·) := by
    intro cs j
    rw [Nat.zero_add, List.getElem?_map]
  cases c
  case call callee args =>
    have operands : Schedules Γ env (.call callee args) 0
        ((callee :: args).map .command ++ [.instruction (.call args.length)]) :=
      schedules_operands (mapped (callee :: args)) trivial
    exact operands
  case go callee args =>
    have operands : Schedules Γ env (.go callee args) 0
        ((callee :: args).map .command ++ [.instruction (.go args.length)]) :=
      schedules_operands (mapped (callee :: args)) trivial
    exact operands
  case arrayOf elements => exact schedules_operands (mapped elements) trivial
  case seq stmts =>
    cases stmts with
    | nil => exact ⟨rfl, trivial⟩
    | cons stmt stmts => exact schedules_sequencePlan (by simp) (mapped (stmt :: stmts))
  case logical op a b => cases op <;> exact ⟨rfl, trivial⟩
  all_goals simp [Command.plan, Schedules, Command.parts, Instruction.Serves, Command.assigns]

theorem Schedules.placed {items : List Item} {i : Nat} (schedules : Schedules Γ env c i items)
    (is : σ.Is p store env Γ c) (below : Placed p store env K sites) :
    Placed p store env (items ++ K) (σ.ofItems i items ++ sites) := by
  induction items generalizing i with
  | nil => exact below
  | cons item items ih =>
    cases item with
    | command d => exact .item ⟨Γ, is.child schedules.1⟩ (ih schedules.2)
    | instruction j => exact .item ⟨Γ, c, is, schedules.1⟩ (ih schedules.2)

/-! ## Blocks and calls -/

/-- Under the body of a block everything is placed, whatever environment the body leaves. -/
theorem Placed.underBlock (inner : Env) (σ : Site) (placed : Placed p store env K sites) :
    ∃ lower, σ.fill lower.length sites = lower ∧
      Placed p store inner (Machine.underBlock .economical env K) lower := by
  cases K with
  | nil =>
    cases placed
    exact ⟨[], rfl, .nil⟩
  | cons item K => exact ⟨σ :: sites, σ.fill_add 1 sites, .restore placed⟩

/-- Under the body of a function everything is placed, whatever environment the body leaves. -/
theorem Placed.underBody (inner : Env) (σ : Site) (placed : Placed p store env K sites) :
    ∃ lower, σ.fill lower.length sites = lower ∧
      Placed p store inner (Machine.underBody .economical env K) lower := by
  -- A mark and a restore of its own, or a mark on items that are settled already.
  have plain : ∃ lower, σ.fill lower.length sites = lower ∧
      Placed p store inner (.instruction .mark :: .instruction (.restore env) :: K) lower :=
    ⟨σ :: σ :: sites, σ.fill_add 2 sites, .mark rfl (.restore placed)⟩
  have marked : Settled K = true → ∃ lower, σ.fill lower.length sites = lower ∧
      Placed p store inner (.instruction .mark :: K) lower :=
    fun settled => ⟨σ :: sites, σ.fill_add 1 sites,
      .mark settled (placed.of_settled settled inner)⟩
  unfold Machine.underBody
  split
  · exact plain
  · exact marked rfl
  · exact marked rfl
  · next items _ =>
    cases found : tailFrame? items with
    | none => exact plain
    | some above =>
      obtain ⟨D, K, rfl, rfl, -⟩ := eq_append_of_tailFrame? found
      obtain ⟨first, rest, e, rfl, below⟩ := placed.exists_tail
      obtain ⟨above, rest, e, rfl, -, lower⟩ := below.exists_of_append
      refine ⟨rest, σ.fill_of_append (first :: above) rest, ?_⟩
      dsimp only
      rw [List.drop_left]
      exact lower.of_mark inner
  · exact plain

end Placed

/-! ## Values -/

/-- The node of a lambda that a closure comes from, and a built-in function that is known. -/
def Value.Sited (p : Program) (store : Store) (closures : List Site) : Value → Prop
  | .closure c =>
    ∃ σ Γ, closures[c.stamp]? = some σ ∧ σ.Is p store c.env Γ (.lambda c.params c.body)
  | .builtin b => ∃ native, Native.ofName? b.name = some native
  | _ => True

theorem Value.Sited.mono {p : Program} {store store' : Store} {closures more : List Site}
    {v : Value} (grows : store.Grows store') (sited : v.Sited p store closures) :
    v.Sited p store' (closures ++ more) := by
  cases v
  case closure c =>
    obtain ⟨σ, Γ, found, is⟩ := sited
    refine ⟨σ, Γ, ?_, is.mono grows⟩
    rw [List.getElem?_append_left (List.getElem?_eq_some_iff.mp found).1]
    exact found
  all_goals exact sited

theorem Store.Holds.imp {good good' : Value → Prop} {store : Store} (holds : store.Holds good)
    (implies : ∀ v, good v → good' v) : store.Holds good' :=
  ⟨fun frame member b bound => implies _ (holds.bound frame member b bound),
    fun array member v held => implies _ (holds.held array member v held)⟩

namespace Move

variable {protocol : CallProtocol} {globals : Env} {role : Role} {m m' : Machine} {s s' : Shared}

/-- A step leaves every frame in the store, with the same names. -/
theorem grows (move : Move protocol globals role m s (.next m' s')) : s.store.Grows s'.store := by
  cases move
  case block extended => exact .extend extended
  case call extended => exact .extend extended
  case caught extended => exact .extend extended
  case assign assigned => exact .assign assigned
  case native arity b args v K S env k length reply =>
    have same := Native.store_invoke role s b args
    rw [reply] at same
    exact .of_frames_eq (congrArg Store.frames same)
  all_goals exact .of_frames_eq rfl

/-- What holds of the values that a machine can get hold of holds of those after a step, if it does
of what the step makes: scalars, arrays, contents of new frames and closures. -/
theorem values {good : Value → Prop} (move : Move protocol globals role m s (.next m' s'))
    (scalar : ∀ v, v.isScalar = true → good v) (array : ∀ ref, good (.array ref))
    (unassigned : good .unassigned)
    (made : ∀ params body K, m.control.toList = .command (.lambda params body) :: K →
      good (.closure (s.store.newClosure params body m.env).1))
    (stash : ∀ v ∈ m.stash.toList, good v) (store : s.store.Holds good) :
    (∀ v ∈ m'.stash.toList, good v) ∧ s'.store.Holds good := by
  cases move
  all_goals
    simp only [Machine.toList_stash_of, List.forall_mem_cons, List.forall_mem_append,
      List.mem_reverse] at stash ⊢
  case lit l K S env k => exact ⟨⟨scalar _ (by cases l <;> rfl), stash⟩, store⟩
  case name found => exact ⟨⟨store.lookup found, stash⟩, store⟩
  case lambda params body K S env k =>
    exact ⟨⟨made params body K rfl, stash⟩, store.newClosure params body env⟩
  case block extended =>
    refine ⟨stash, store.extend (fun v member => ?_) extended⟩
    obtain ⟨_, _, rfl⟩ := List.mem_map.mp member
    exact unassigned
  case unary applied => exact ⟨⟨scalar _ (UnaryOp.isScalar_apply applied), stash.2⟩, store⟩
  case binary applied => exact ⟨⟨scalar _ (BinaryOp.isScalar_apply applied), stash.2.2⟩, store⟩
  case pop | branchTrue | branchFalse | loopAgain | loopDone => exact ⟨stash.2, store⟩
  case assign assigned => exact ⟨stash, store.assign stash.1 assigned⟩
  case native arity b args v K S env k length reply =>
    have same := Native.store_invoke role s b args
    rw [reply] at same
    refine ⟨⟨scalar _ (Native.isScalar_of_invoke reply), stash.2.2⟩, ?_⟩
    rw [show s'.store = s.store from same]
    exact store
  case call extended => exact ⟨stash.2.2, store.extend stash.1 extended⟩
  case branchNone => exact ⟨⟨scalar _ rfl, stash.2⟩, store⟩
  case makeArray arity K S env k elements length =>
    refine ⟨⟨array _, stash.2⟩, store.newArray fun v member => ?_⟩
    exact stash.1 v (List.mem_toArray.mp member)
  case index element => exact ⟨⟨store.held.element? element, stash.2.2⟩, store⟩
  case indexAssign => exact ⟨⟨stash.1, stash.2.2.2⟩, store.setElement stash.1⟩
  case caught extended =>
    exact ⟨fun w member => stash.2 w (List.mem_of_mem_drop member),
      store.extend (List.forall_mem_singleton.mpr stash.1) extended⟩
  all_goals exact ⟨stash, store⟩

end Move

/-! ## Steps -/

/-- The sites are right: of the items, of the closures that have been made, and of the values that
the machine can get hold of. -/
structure Sites.Fit (p : Program) (L : Sites) (m : Machine) (s : Shared) : Prop where
  items : Placing p s.store m.env m.control.toList L.items
  closures : L.closures.length = s.store.stamps
  stash : ∀ v ∈ m.stash.toList, v.Sited p s.store L.closures
  store : s.store.Holds (Value.Sited p s.store L.closures)

section Steps

variable {p : Program} {L : Sites} {globals : Env} {m m' : Machine} {s s' : Shared}

theorem Placed.after {store : Store} {env e : Env} {σ : Site} {rest P lower : List Site}
    {K : List Item} {S : List Value} {k : Nat} (placed : Placed p store env K (P ++ lower))
    (top : L.items = σ :: rest) (pushed : L.pushed m s = P)
    (fills : σ.fill lower.length rest = lower) :
    Placing p store env K (L.after m s (of K S e k)).items := by
  rw [Sites.items_after top pushed fills placed.length_eq]
  exact .placed placed

/-- A return or a throw under way has discarded an item. -/
theorem Placed.discards {store : Store} {env e : Env} {item : Item} {σ τ : Site} {rest : List Site}
    {K : List Item} {S : List Value} {k : Nat} (placed : Placed p store e K rest)
    (unwinds : item.isUnwinding = true) (top : L.items = σ :: τ :: rest)
    (pushed : L.pushed m s = [σ]) :
    Placing p store env (item :: K) (L.after m s (of (item :: K) S env k)).items := by
  have length : ([σ] ++ rest).length = (item :: K).length := by simp [placed.length_eq]
  rw [Sites.items_after top pushed (σ.fill_of_append [τ] rest) length]
  exact .unwinding unwinds placed

/-- After a step the items are at their sites. -/
theorem Move.placing (placing : Placing p s.store m.env m.control.toList L.items)
    (stash : ∀ v ∈ m.stash.toList, v.Sited p s.store L.closures)
    (move : Move .economical globals .main m s (.next m' s')) :
    Placing p s'.store m'.env m'.control.toList (L.after m s m').items := by
  have grows := move.grows
  cases move
  all_goals simp only [Machine.toList_control_of, Machine.env_of] at placing ⊢
  case plan c K S env k planned =>
    obtain ⟨σ, rest, top, ⟨Γ, is⟩, below⟩ := (placing.ordered rfl).exists_top rfl rfl
    have pushed : L.pushed (of (.command c :: K) S env k) s =
        σ.ofItems 0 (c.plan env S.length) := by
      unfold Sites.pushed
      rw [top]
      cases c
      case block => cases planned
      all_goals rfl
    have placed := (schedules_plan Γ env S.length c).placed is below
    exact placed.after top pushed (σ.fill_length rest)
  case block body inner store K S env k extended =>
    obtain ⟨σ, rest, top, ⟨Γ, is⟩, below⟩ := (placing.ordered rfl).exists_top rfl rfl
    have pushed : L.pushed (of (.command (.block body) :: K) S env k) s = [σ.enter 0 s.store] := by
      simp only [Sites.pushed, Machine.toList_control_of, top]
    have entered : (Item.command body).At p store inner (σ.enter 0 s.store) :=
      ⟨_, is.enter rfl extended⟩
    obtain ⟨rest', fills, lower⟩ := (below.mono grows).underBlock inner σ
    exact (Placed.item entered lower).after (P := [_]) top pushed fills
  case call arity c args inner store K S env k length extended =>
    obtain ⟨σ, rest, top, -, below⟩ := (placing.ordered rfl).exists_top rfl rfl
    obtain ⟨τ, Γ, found, is⟩ : (Value.closure c).Sited p s.store L.closures := stash _ (by simp)
    have callee : (args.reverse ++ Value.closure c :: S)[arity]? = some (.closure c) := by
      simp [← length]
    have pushed : L.pushed (of (.instruction (.call arity) :: K)
        (args.reverse ++ .closure c :: S) env k) s = [τ.enter 0 s.store] := by
      simp only [Sites.pushed, Machine.toList_control_of, Machine.toList_stash_of, top, callee,
        found]
      rfl
    have entered : (Item.command c.body).At p store inner (τ.enter 0 s.store) :=
      ⟨_, is.enter rfl extended⟩
    obtain ⟨rest', fills, lower⟩ := (below.mono grows).underBody inner σ
    exact (Placed.item entered lower).after (P := [_]) top pushed fills
  case branchTrue cons alt K S env k =>
    obtain ⟨σ, rest, top, ⟨Γ, c, is, serves⟩, below⟩ := (placing.ordered rfl).exists_top rfl rfl
    have pushed : L.pushed (of (.instruction (.branch cons alt) :: K) (.bool true :: S) env k) s =
        [σ.child 1] := by
      simp only [Sites.pushed, Machine.toList_control_of, Machine.toList_stash_of, top]
    have chosen : (Item.command cons).At p s.store env (σ.child 1) := by
      rcases serves with ⟨pred, rfl⟩ | ⟨pred, other, -, rfl⟩
      · exact ⟨Γ, is.child rfl⟩
      · exact ⟨Γ, is.child rfl⟩
    exact (Placed.item chosen below).after top pushed (σ.fill_length rest)
  case branchFalse cons alt K S env k =>
    obtain ⟨σ, rest, top, ⟨Γ, c, is, serves⟩, below⟩ := (placing.ordered rfl).exists_top rfl rfl
    have pushed : L.pushed (of (.instruction (.branch cons (some alt)) :: K) (.bool false :: S) env
        k) s = [σ.child 2] := by
      simp only [Sites.pushed, Machine.toList_control_of, Machine.toList_stash_of, top]
      rfl
    have chosen : (Item.command alt).At p s.store env (σ.child 2) := by
      rcases serves with ⟨pred, rfl⟩ | ⟨pred, other, same, rfl⟩
      · exact ⟨Γ, is.child rfl⟩
      · cases same
        exact ⟨Γ, is.child rfl⟩
    exact (Placed.item chosen below).after top pushed (σ.fill_length rest)
  case loopAgain form pred body K S env k =>
    obtain ⟨σ, rest, top, ⟨Γ, c, is, serves⟩, below⟩ := (placing.ordered rfl).exists_top rfl rfl
    have pushed : L.pushed (of (.instruction (.loop form pred body) :: K) (.bool true :: S) env k)
        s = [σ.child 2, σ, σ.child 0, σ] := by
      simp only [Sites.pushed, Machine.toList_control_of, Machine.toList_stash_of, top]
    obtain rfl : c = .loop form pred body := serves
    have again : Placed p s.store env (.command pred :: .instruction (.loop form pred body) :: K)
        (σ.child 0 :: σ :: rest) := .item ⟨Γ, is.child rfl⟩ (.item ⟨Γ, _, is, rfl⟩ below)
    have placed : Placed p s.store env (.command body :: .instruction .pop :: .command pred ::
        .instruction (.loop form pred body) :: K) ([σ.child 2, σ, σ.child 0, σ] ++ rest) :=
      .item ⟨Γ, is.child rfl⟩ (.item ⟨Γ, _, is, trivial⟩ again)
    exact placed.after top pushed (σ.fill_length rest)
  case restore e K S env k =>
    obtain ⟨σ, rest, top, below⟩ := (placing.ordered rfl).below_restore
    exact below.after (P := []) top rfl (σ.fill_length rest)
  case mark K S env k =>
    obtain ⟨σ, rest, top, -, below⟩ := (placing.ordered rfl).below_mark
    exact below.after (P := []) top rfl (σ.fill_length rest)
  case resetEmpty S env k =>
    obtain ⟨σ, rest, e, top, below⟩ := placing.exists_tail
    cases below
    exact Placed.nil.after (P := []) top rfl rfl
  case resetMark K S env k =>
    obtain ⟨σ, rest, e, top, below⟩ := placing.exists_tail
    obtain ⟨τ, rest, rfl, settled, lower⟩ := below.below_mark
    have pushed :
        L.pushed (of (.instruction .reset :: .instruction .mark :: K) S env k) s = [] := by
      simp only [Sites.pushed, Machine.toList_control_of, top]
    have placed := lower.of_settled settled env
    exact placed.after (P := []) top pushed (σ.fill_of_append [τ] rest)
  case resetDiscard item K S env k notMark =>
    obtain ⟨σ, rest, e, top, below⟩ := placing.exists_tail
    obtain ⟨τ, rest, e, rfl, lower⟩ := below.exists_tail
    have pushed : L.pushed (of (.instruction .reset :: item :: K) S env k) s = [σ] := by
      simp only [Sites.pushed, Machine.toList_control_of, top]
      cases item with
      | command c => rfl
      | instruction i => cases i <;> first | rfl | cases notMark
    exact lower.discards rfl top pushed
  case throwDiscard item K S env k notCatch =>
    obtain ⟨σ, rest, e, top, below⟩ := placing.exists_tail
    obtain ⟨τ, rest, e, rfl, lower⟩ := below.exists_tail
    have pushed : L.pushed (of (.instruction .throw :: item :: K) S env k) s = [σ] := by
      simp only [Sites.pushed, Machine.toList_control_of, top]
      cases item with
      | command c => rfl
      | instruction i => cases i <;> first | rfl | cases notCatch
    exact lower.discards rfl top pushed
  case caught sym handler e height inner store v K S env k extended =>
    obtain ⟨σ, rest, e₀, top, below⟩ := placing.exists_tail
    obtain ⟨τ, rest, rfl, ⟨Γ, c, is, serves⟩, lower⟩ := below.exists_top rfl rfl
    obtain ⟨rfl, body, rfl⟩ := serves
    have pushed : L.pushed (of (.instruction .throw :: .instruction (.catch sym handler e height) ::
        K) (v :: S) env k) s = [τ.enter 1 s.store, τ] := by
      simp only [Sites.pushed, Machine.toList_control_of, top]
    have entered : (Item.command handler).At p store inner (τ.enter 1 s.store) :=
      ⟨_, is.enter rfl extended⟩
    exact (Placed.item entered (.restore (lower.mono grows))).after (P := [_, τ]) top pushed
      (σ.fill_of_append [τ] rest)
  case native arity b args v K S env k length reply =>
    obtain ⟨σ, rest, top, -, below⟩ := (placing.ordered rfl).exists_top rfl rfl
    have callee : (args.reverse ++ Value.builtin b :: S)[arity]? = some (.builtin b) := by
      simp [← length]
    have pushed : L.pushed (of (.instruction (.call arity) :: K)
        (args.reverse ++ .builtin b :: S) env k) s = [] := by
      simp only [Sites.pushed, Machine.toList_control_of, Machine.toList_stash_of, top, callee]
    exact (below.mono grows).after (P := []) top pushed (σ.fill_length rest)
  all_goals
    obtain ⟨σ, rest, top, -, below⟩ := (placing.ordered rfl).exists_top rfl rfl
    refine (below.mono grows).after (P := []) top ?_ (σ.fill_length rest)
    unfold Sites.pushed
    rw [top]
    rfl

theorem Move.closures (items : L.items.length = m.control.size)
    (counted : L.closures.length = s.store.stamps)
    (move : Move .economical globals .main m s (.next m' s')) :
    (L.after m s m').closures.length = s'.store.stamps := by
  obtain ⟨σ, rest, top⟩ : ∃ σ rest, L.items = σ :: rest := by
    refine List.exists_cons_of_length_pos ?_
    rw [items]
    cases move <;> simp
  rw [Sites.closures_after top]
  cases move
  case plan c K S env k planned =>
    cases c
    case lambda => cases planned
    all_goals exact counted
  case lambda params body K S env k =>
    simp only [Sites.closuresAfter, Machine.toList_control_of, top, List.length_append, counted]
    rfl
  case native arity b args v K S env k length reply =>
    have same := Native.store_invoke .main s b args
    rw [reply] at same
    exact counted.trans (congrArg Store.stamps same).symm
  case block extended | call extended | caught extended =>
    unfold Store.extend at extended
    split at extended <;> cases extended
    exact counted
  case assign assigned =>
    unfold Store.assign at assigned
    split at assigned <;> cases assigned
    exact counted
  all_goals exact counted

theorem Sites.exists_closures_after (L : Sites) (m : Machine) (s : Shared) (m' : Machine) :
    ∃ more, (L.after m s m').closures = L.closures ++ more := by
  cases top : L.items with
  | nil =>
    refine ⟨[], ?_⟩
    simp only [Sites.after, top, List.append_nil]
  | cons σ rest =>
    rw [closures_after top]
    unfold closuresAfter
    split
    · exact ⟨_, rfl⟩
    · exact ⟨[], (List.append_nil _).symm⟩

/-- The sites are right after a step. -/
theorem Sites.Fit.move (fit : L.Fit p m s)
    (move : Move .economical globals .main m s (.next m' s')) : (L.after m s m').Fit p m' s' := by
  have counted := move.closures (fit.items.length_eq.trans (Stack.length_toList _)) fit.closures
  have known : ∀ v : Value, v.Sited p s.store L.closures →
      v.Sited p s'.store (L.after m s m').closures := by
    intro v sited
    obtain ⟨more, grown⟩ := L.exists_closures_after m s m'
    rw [grown]
    exact sited.mono move.grows
  have values : (∀ v ∈ m'.stash.toList, v.Sited p s'.store (L.after m s m').closures) ∧
      s'.store.Holds (Value.Sited p s'.store (L.after m s m').closures) := by
    refine move.values (fun v scalar => ?_) (fun ref => trivial) trivial
      (fun params body K control => ?_) (fun v member => known v (fit.stash v member))
      (fit.store.imp known)
    · cases v
      case closure | builtin => cases scalar
      all_goals trivial
    · have placing := fit.items
      rw [control] at placing
      obtain ⟨σ, rest, top, ⟨Γ, is⟩, -⟩ := (placing.ordered rfl).exists_top rfl rfl
      refine ⟨σ, Γ, ?_, is.mono move.grows⟩
      rw [Sites.closures_after top]
      simp only [Sites.closuresAfter, control, top, Store.newClosure, ← fit.closures]
      simp
  exact ⟨move.placing fit.items fit.stash, counted, values.1, values.2⟩

end Steps

/-! ## Runs -/

namespace Program

/-- A program comes to a state, and then the sites are the given ones. -/
inductive Sited (p : Program) : Machine × Shared → Sites → Prop
  | start : Sited p (p.machine, p.shared) ⟨[⟨[], p.globals.1.frames⟩], []⟩
  | step {a b L} : Sited p a L → Step .economical p.globals.1 a b →
    Sited p b (L.after a.1 a.2 b.1)

variable {p : Program} {a : Machine × Shared} {L : Sites}

/-- The outermost frames bind what the program declares and the built-in functions. -/
theorem describes_globals (p : Program) : p.scope.Describes p.globals.2 p.globals.1.frames := by
  refine .cons ⟨.ofBindings (p.body.locals.map (·, .unassigned)), rfl, fun sym => ?_⟩
    (.cons ⟨.ofBindings Native.bindings, rfl, fun sym => ?_⟩ .nil)
  · rw [Frame.mem_names_ofBindings, List.map_map]
    simp
  · rw [Frame.mem_names_ofBindings, Native.bindings, List.map_map]
    rfl

theorem fit_start (p : Program) :
    Sites.Fit p ⟨[⟨[], p.globals.1.frames⟩], []⟩ p.machine p.shared := by
  have falling : p.globals.1.frames.Pairwise (·.index > ·.index) :=
    show [FrameRef.mk 1, ⟨0⟩].Pairwise (·.index > ·.index) by decide
  refine ⟨.placed (.item ⟨p.scope, rfl, rfl, p.describes_globals, falling⟩ .nil), rfl,
    fun v member => absurd member List.not_mem_nil, ?_⟩
  have empty : (default : Store).Holds (Value.Sited p p.globals.2 []) :=
    ⟨fun _ member => absurd member (Array.not_mem_empty _),
      fun _ member => absurd member (Array.not_mem_empty _)⟩
  have natives :
      ((default : Store).root Native.bindings).2.Holds (Value.Sited p p.globals.2 []) := by
    refine empty.pushFrame ⟨[]⟩ fun b member => ?_
    obtain ⟨native, -, rfl⟩ := List.mem_map.mp (Frame.mem_ofBindings member)
    exact ⟨native, by cases native <;> rfl⟩
  refine natives.pushFrame ((default : Store).root Native.bindings).1 fun b member => ?_
  obtain ⟨sym, -, rfl⟩ := List.mem_map.mp (Frame.mem_ofBindings member)
  trivial

/-- The sites are right in every state that a program comes to. -/
theorem Sited.fit (sited : p.Sited a L) : L.Fit p a.1 a.2 := by
  induction sited with
  | start => exact p.fit_start
  | step _ step ih => exact ih.move (Step.move step)

theorem Sited.reach (sited : p.Sited a L) :
    Reach .economical p.globals.1 (p.machine, p.shared) a := by
  induction sited with
  | start => exact .refl
  | step _ step ih => exact ih.tail step

theorem exists_sited (reach : Reach .economical p.globals.1 (p.machine, p.shared) a) :
    ∃ L, p.Sited a L := by
  induction reach with
  | refl => exact ⟨_, .start⟩
  | tail _ step ih =>
    obtain ⟨L, sited⟩ := ih
    exact ⟨_, sited.step step⟩

/-- The state after a number of steps and the sites then, if the program has not ended before. -/
def follow (p : Program) : Nat → Option ((Machine × Shared) × Sites)
  | 0 => some ((p.machine, p.shared), ⟨[⟨[], p.globals.1.frames⟩], []⟩)
  | n + 1 =>
    match p.follow n with
    | some (a, L) =>
      match a.1.act .economical p.globals.1 .main a.2 with
      | .next m s => some ((m, s), L.after a.1 a.2 m)
      | _ => none
    | none => none

theorem sited_of_follow {n : Nat} (found : p.follow n = some (a, L)) : p.Sited a L := by
  induction n generalizing a L with
  | zero =>
    cases found
    exact .start
  | succ n ih =>
    simp only [follow] at found
    split at found
    · next before L' earlier =>
      split at found
      · next m s next =>
        cases found
        exact (ih earlier).step next
      · cases found
    · cases found

/-- The machine that the main context is about to step, in a program without goroutines. -/
theorem reach_of_machine? {limits : Limits} {w : World} {m : Machine} (goFree : p.body.GoFree)
    (reachable : World.Reachable (p.setting limits) p.initial w)
    (running : w.machine? .main = some m) :
    Reach .economical p.globals.1 (p.machine, p.shared) (m, w.commons.shared) := by
  have reachable' : World.Reachable (p.settingUnder .economical limits) p.initial w := reachable
  obtain ⟨main, s, rfl, active⟩ := reachable_alone goFree reachable'
  unfold World.machine? World.alone at running
  dsimp only at running
  split at running
  · cases running
    obtain ⟨m, same, -, reach⟩ := active _ rfl
    cases same
    exact reach
  · cases running

end Program

end ControlStash
