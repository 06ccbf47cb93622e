import ControlStash.Proofs.Sharing
import ControlStash.Proofs.Sites

/-!
# Static scoping

What a name refers to can be read off the program. Every lookup and every assignment is worked on at
a site, whose frames bind the names of the scope of the node layer by layer; so it finds its name
unbound if and only if the name is not in scope, and a declaration writes the frame of its own block
(`static_scoping`). Nothing else finds a name unbound (`Fails.unboundName`): a built-in function is
called by a name too, but only those that are known get into the store.
-/

namespace ControlStash

open Machine (of)

/-! ## Names that are not in scope -/

section Faults

variable {globals : Env} {item : Item} {S : List Value} {env : Env} {s s' : Shared} {x : String}

theorem Fault.ofScope_eq_unboundName_iff {e : ScopeError} :
    Fault.ofScope e = .unboundName x ↔ e = .unbound x := by
  cases e <;> simp [Fault.ofScope]

/-- Only a lookup or an assignment finds a name unbound, if all built-in functions are known. -/
theorem Fails.unboundName {e : Fault} (fails : Fails globals .main item S env s e s')
    (unbound : e = .unboundName x)
    (known : ∀ b, .builtin b ∈ S → ∃ native, Native.ofName? b.name = some native) :
    (item = .command (.name x) ∧ s.store.lookup env x = .error (.unbound x)) ∨
      ∃ v rest, item = .instruction (.assign x) ∧ S = v :: rest ∧
        s.store.assign env x v = .error (.unbound x) := by
  subst unbound
  rcases fails.name? rfl with ⟨e, eq, top, failed⟩ | ⟨v, rest, -, top, stash, failed⟩ |
    ⟨b, -, member, unknown⟩
  · rw [Fault.ofScope_eq_unboundName_iff.mp eq.symm] at failed
    exact .inl ⟨top, failed⟩
  · exact .inr ⟨v, rest, top, stash, failed⟩
  · obtain ⟨native, found⟩ := known b member
    rw [found] at unknown
    cases unknown

end Faults

/-- The next step of a machine ends the context with a fault. -/
def Machine.Raises (setting : Setting) (m : Machine) (s : Shared) (e : Fault) : Prop :=
  ∃ m' s', m.advance setting .main s = .stop (.error e) m' s'

section Raises

variable {setting : Setting} {s : Shared} {sym x : String} {K : List Item} {S : List Value}
  {env : Env} {k : Nat}

theorem Machine.raises_name_iff (within : k < setting.limits.steps) :
    (of (.command (.name sym) :: K) S env k).Raises setting s (.unboundName x) ↔
      x = sym ∧ s.store.lookup env sym = .error (.unbound sym) := by
  unfold Raises
  rw [advance_command within]
  simp only [expand, env_of]
  cases found : s.store.lookup env sym with
  | ok v => simp
  | error e =>
    constructor
    · rintro ⟨m', s', stops⟩
      obtain rfl : e = .unbound x := by
        injection stops with failed
        injection failed with failed
        exact Fault.ofScope_eq_unboundName_iff.mp failed
      rcases Store.error_of_lookup found with eq | eq <;> cases eq
      exact ⟨rfl, rfl⟩
    · rintro ⟨rfl, failed⟩
      cases failed
      exact ⟨_, _, rfl⟩

theorem Machine.raises_assign_iff {v : Value} (within : k < setting.limits.steps) :
    (of (.instruction (.assign sym) :: K) (v :: S) env k).Raises setting s (.unboundName x) ↔
      x = sym ∧ s.store.assign env sym v = .error (.unbound sym) := by
  unfold Raises
  rw [advance_instruction within]
  simp only [execute, of, Stack.pop?_ofList_cons]
  cases found : s.store.assign env sym v with
  | ok store => simp
  | error e =>
    constructor
    · rintro ⟨m', s', stops⟩
      obtain rfl : e = .unbound x := by
        injection stops with failed
        injection failed with failed
        exact Fault.ofScope_eq_unboundName_iff.mp failed
      cases Store.error_of_assign found
      exact ⟨rfl, rfl⟩
    · rintro ⟨rfl, failed⟩
      cases failed
      exact ⟨_, _, rfl⟩

end Raises

/-! ## Static scoping -/

/-- A declaration at the end of a path, and the body from which it is reached through sequences:
that of the program or of a block. -/
inductive Program.Declares (p : Program) : Command → List Nat → String → Prop
  | outermost {path sym} : p.body.Scans path sym → Declares p p.body path sym
  | block {path Γ body rest sym} : p.node? path = some (Γ, .block body) → body.Scans rest sym →
    Declares p body (path ++ 0 :: rest) sym

/-- The innermost layer of the scope of such a declaration has the names that the body declares. -/
theorem Program.Declares.innermost {p : Program} {body : Command} {path : List Nat} {sym : String}
    (declares : p.Declares body path sym) :
    sym ∈ body.locals ∧
      ∃ Γ form a, p.node? path = some (body.locals :: Γ, .declare form sym a) := by
  cases declares with
  | outermost scans =>
    obtain ⟨form, a, node⟩ := scans.node? p.scope
    exact ⟨Command.mem_locals.mpr ⟨_, scans⟩, _, form, a, node⟩
  | @block path Γ body rest sym found scans =>
    obtain ⟨form, a, node⟩ := scans.node? (body.locals :: Γ)
    refine ⟨Command.mem_locals.mpr ⟨_, scans⟩, Γ, form, a, ?_⟩
    exact (Command.node?_append found (0 :: rest)).trans node

section Scoping

variable {p : Program} {L : Sites} {m : Machine} {s : Shared} {setting : Setting} {sym : String}
  {K : List Item}

/-- A lookup finds the name unbound if and only if it is not in the scope of the node. -/
theorem Sites.Fit.name (fit : L.Fit p m s) (within : m.steps < setting.limits.steps)
    (control : m.control.toList = .command (.name sym) :: K) :
    ∃ σ rest Γ, L.items = σ :: rest ∧ σ.Is p s.store m.env Γ (.name sym) ∧
      ∀ x, m.Raises setting s (.unboundName x) ↔ x = sym ∧ Γ.binds sym = false := by
  have placing := fit.items
  rw [control] at placing
  obtain ⟨σ, rest, top, ⟨Γ, is⟩, -⟩ := (placing.ordered rfl).exists_top rfl rfl
  refine ⟨σ, rest, Γ, top, is, fun x => ?_⟩
  have describes : Γ.Describes s.store m.env.frames := is.frames ▸ is.layers
  rw [m.eq_of, control, Machine.raises_name_iff within, describes.lookup_eq_unbound_iff]

/-- An assignment finds the name unbound if and only if it is not in the scope of the node, and that
of a declaration writes the innermost frame. -/
theorem Sites.Fit.assign (fit : L.Fit p m s) (solo : Solo m s)
    (within : m.steps < setting.limits.steps)
    (control : m.control.toList = .instruction (.assign sym) :: K) :
    ∃ σ rest Γ c, L.items = σ :: rest ∧ σ.Is p s.store m.env Γ c ∧ c.assigns sym ∧
      (∀ x, m.Raises setting s (.unboundName x) ↔ x = sym ∧ Γ.binds sym = false) ∧
      (∀ body, p.Declares body σ.path sym → ∃ own outer v S m', σ.frames = own :: outer ∧
        own ∉ outer ∧ s.store.Binds body.locals own ∧ m.stash.toList = v :: S ∧
        m.advance setting .main s =
          .next m' { s with store := s.store.setInFrame own sym v } ∧
        ∀ ref x, (s.store.setInFrame own sym v).inFrame? ref x =
          if ref = own ∧ x = sym then some v else s.store.inFrame? ref x) := by
  have placing := fit.items
  rw [control] at placing
  obtain ⟨σ, rest, top, ⟨Γ, c, is, serves⟩, -⟩ := (placing.ordered rfl).exists_top rfl rfl
  have describes : Γ.Describes s.store m.env.frames := is.frames ▸ is.layers
  obtain ⟨v, S, stash⟩ : ∃ v S, m.stash.toList = v :: S := by
    have balanced := solo.balanced
    rw [control] at balanced
    refine List.exists_cons_of_length_pos ?_
    rw [Stack.length_toList]
    exact balanced.taken_le
  refine ⟨σ, rest, Γ, c, top, is, serves, fun x => ?_, fun body declares => ?_⟩
  · rw [m.eq_of, control, stash, Machine.raises_assign_iff within, describes.assign_eq_unbound_iff]
  · obtain ⟨member, outer, form, a, node⟩ := declares.innermost
    rw [is.node] at node
    cases node
    obtain ⟨own, below, frames, assigned⟩ := describes.assign_innermost (v := v) member
    have layers : σ.frames = own :: below := is.frames ▸ frames
    have other : own ∉ below := by
      intro inner
      have falling := is.falling
      rw [layers, List.pairwise_cons] at falling
      exact Nat.lt_irrefl _ (falling.1 own inner)
    have binds : s.store.Binds body.locals own := by
      have bound := is.layers
      rw [layers] at bound
      exact (List.forall₂_cons.mp bound).1
    have bound : (s.store.inFrame? own sym).isSome := by
      rw [Option.isSome_iff_ne_none, ne_eq, binds.inFrame?_eq_none_iff, not_not]
      exact member
    refine ⟨own, below, v, S, of K (v :: S) m.env (m.steps + 1), layers, other, binds, stash, ?_,
      fun ref x => Store.inFrame?_setInFrame bound⟩
    rw [m.eq_of, control, stash, Machine.advance_instruction within]
    simp only [Machine.execute, of, Stack.pop?_ofList_cons, assigned]

/-- No step of a program whose names are all in scope finds a name unbound. -/
theorem Program.Sited.not_unbound {a b : Machine × Shared} (sited : p.Sited a L)
    (goFree : p.body.GoFree) (allBound : p.wellScoped = true)
    (stops :
      a.1.act .economical p.globals.1 .main a.2 = .stop (.error (.unboundName sym)) b.1 b.2) :
    False := by
  have fit := sited.fit
  have solo : Solo a.1 a.2 := (Program.solo goFree).reach sited.reach
  obtain ⟨m, s⟩ := a
  have halts := solo.halts stops
  generalize failed : (Except.error (.unboundName sym) : Except Fault Value) = result at halts
  generalize b.1.steps = steps at halts
  generalize b.2 = shared at halts
  cases halts with
  | done =>
    unfold Machine.finish at failed
    split at failed <;> cases failed
  | uncaught => cases failed
  | @fault item K S env k s e s' fails =>
    cases failed
    have known : ∀ b, Value.builtin b ∈ S → ∃ native, Native.ofName? b.name = some native :=
      fun b member => fit.stash _ member
    have placing := fit.items
    rcases fails.unboundName rfl known with ⟨rfl, failed⟩ | ⟨v, rest, rfl, -, failed⟩
    · obtain ⟨σ, rest, -, ⟨Γ, is⟩, -⟩ := (placing.ordered rfl).exists_top rfl rfl
      have describes : Γ.Describes s.store env.frames := is.frames ▸ is.layers
      have absent := describes.lookup_eq_unbound_iff.mp failed
      have present : Γ.binds sym = true := Program.bound_of_node? allBound is.node
      rw [absent] at present
      cases present
    · obtain ⟨σ, rest, -, ⟨Γ, c, is, serves⟩, -⟩ := (placing.ordered rfl).exists_top rfl rfl
      have describes : Γ.Describes s.store env.frames := is.frames ▸ is.layers
      have absent := describes.assign_eq_unbound_iff.mp failed
      have present := Program.bound_of_node? allBound is.node
      rw [Command.binds_of_assigns serves present] at absent
      cases absent

end Scoping

/-- Static scoping is sound. In the runs of a program without goroutines:

* In every state the sites of the items and closures are known.
* A lookup and an assignment are worked on in the frames of their site, which bind the names of the
  scope of the node layer by layer. They find a name unbound if and only if it is not in that scope.
  The assignment of a declaration that is reached from the body of a block or of the program through
  sequences writes the innermost frame, which is that of the body, and no frame outside it: the
  value is then read there under the name, and everything else reads as before.
* If all names that the program uses are in scope, no run of it fails because of an unbound name. -/
theorem static_scoping (p : Program) (goFree : p.body.GoFree) (limits : Limits) :
    (∀ w m, World.Reachable (p.setting limits) p.initial w → w.machine? .main = some m →
      ∃ L, p.Sited (m, w.commons.shared) L) ∧
    (∀ m s L sym K, p.Sited (m, s) L → m.steps < limits.steps →
      (m.control.toList = .command (.name sym) :: K →
        ∃ σ rest Γ, L.items = σ :: rest ∧ σ.Is p s.store m.env Γ (.name sym) ∧
          ∀ x, m.Raises (p.setting limits) s (.unboundName x) ↔ x = sym ∧ Γ.binds sym = false) ∧
      (m.control.toList = .instruction (.assign sym) :: K →
        ∃ σ rest Γ c, L.items = σ :: rest ∧ σ.Is p s.store m.env Γ c ∧ c.assigns sym ∧
          (∀ x, m.Raises (p.setting limits) s (.unboundName x) ↔ x = sym ∧ Γ.binds sym = false) ∧
          (∀ body, p.Declares body σ.path sym → ∃ own outer v S m', σ.frames = own :: outer ∧
            own ∉ outer ∧ s.store.Binds body.locals own ∧ m.stash.toList = v :: S ∧
            m.advance (p.setting limits) .main s =
              .next m' { s with store := s.store.setInFrame own sym v } ∧
            ∀ ref x, (s.store.setInFrame own sym v).inFrame? ref x =
              if ref = own ∧ x = sym then some v else s.store.inFrame? ref x))) ∧
    (p.wellScoped = true → ∀ traced fuel report, p.run limits traced fuel = some report →
      ∀ sym, report.result ≠ .error (.unboundName sym)) := by
  refine ⟨fun w m reachable running => ?_, fun m s L sym K sited within => ⟨?_, ?_⟩,
    fun allBound traced fuel report ran sym failed => ?_⟩
  · exact Program.exists_sited (Program.reach_of_machine? goFree reachable running)
  · exact sited.fit.name within
  · have solo : Solo m s := (Program.solo goFree).reach sited.reach
    exact sited.fit.assign solo within
  · have uncut : report.Uncut := by
      intro e result
      rw [failed] at result
      cases result
      rfl
    obtain ⟨result, b, ⟨a, reach, stops⟩, shows⟩ := Program.finishes_of_runUnder goFree ran uncut
    rw [← shows.result, failed] at stops
    obtain ⟨L, sited⟩ := Program.exists_sited reach
    exact sited.not_unbound goFree allBound stops

/-- A block that declares a name, and a use of that name behind the block. -/
def leftScope : Program :=
  ⟨.seq [.block (.declare .letForm "x" (.lit (.int 1))), .name "x"]⟩

theorem static_scoping_leftScope :
    (∃ m s L m', leftScope.Sited (m, s) L ∧
      m.control.toList.head? = some (.instruction (.assign "x")) ∧
      m.advance (leftScope.setting {}) .main s =
        .next m' { s with store := s.store.setInFrame ⟨2⟩ "x" (.int 1) } ∧
      (s.store.setInFrame ⟨2⟩ "x" (.int 1)).inFrame? ⟨2⟩ "x" = some (.int 1)) ∧
    ∃ m s L, leftScope.Sited (m, s) L ∧ m.control.toList = [.command (.name "x")] ∧
      m.Raises (leftScope.setting {}) s (.unboundName "x") := by
  have scoping := static_scoping leftScope (by decide) {}
  have block : leftScope.node? [0] =
      some (leftScope.scope, .block (.declare .letForm "x" (.lit (.int 1)))) := rfl
  have declared : leftScope.Declares _ [0, 0] "x" := .block block .declare
  constructor
  · have sited : leftScope.Sited (_, _) _ := Program.sited_of_follow (n := 4) rfl
    obtain ⟨σ, rest, Γ, c, top, -, -, -, writes⟩ :=
      (scoping.2.1 _ _ _ "x" _ sited (by decide)).2 rfl
    obtain rfl : σ = ⟨[0, 0], [⟨2⟩, ⟨1⟩, ⟨0⟩]⟩ := (List.cons.inj top).1.symm
    obtain ⟨own, outer, v, S, m', frames, -, -, stash, next, reads⟩ := writes _ declared
    cases frames
    cases stash
    exact ⟨_, _, _, m', sited, rfl, next, (reads ⟨2⟩ "x").trans (if_pos ⟨rfl, rfl⟩)⟩
  · have sited : leftScope.Sited (_, _) _ := Program.sited_of_follow (n := 9) rfl
    obtain ⟨σ, rest, Γ, top, is, raises⟩ := (scoping.2.1 _ _ _ "x" _ sited (by decide)).1 rfl
    obtain rfl : σ = ⟨[1], [⟨1⟩, ⟨0⟩]⟩ := (List.cons.inj top).1.symm
    cases is.node
    exact ⟨_, _, _, sited, rfl, (raises "x").mpr ⟨rfl, by decide⟩⟩

end ControlStash
