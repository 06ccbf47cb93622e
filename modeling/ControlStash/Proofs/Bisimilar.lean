import Mathlib
import ControlStash.Store.Equality

/-!
# Equality of values is bisimilarity

Arrays may hold themselves, so that equality cannot be an induction on values. What it decides is
`Store.Bisimilar`: the two values are related by some relation that the store bears out pair by pair
(`Store.Bisimulation`).

The comparison is given a second time, as a loop over the pending pairs that leaves their order open
(`Store.compareNext`, `Store.Turn`). This loop ends whichever pair it takes next, since each pair of
arrays is unfolded once (`turn_wellFounded`), and all its verdicts are bisimilarity
(`Verdict.bisimilar_iff`). `Store.equal` takes the pairs in one of the possible orders
(`verdict_equal`); in particular the room it is given for unfoldings never runs out.
-/

namespace ControlStash

/-! ## Comparison of doubles -/

namespace Double

open Float.Model (UnpackedFloat)

/-- The number that a double stands for: that of both zeros is the same, and a double that is not a
number stands for none. -/
def numeral? : UnpackedFloat → Option UnpackedFloat
  | .notANumber => none
  | .zero _ => some (.zero .positive)
  | x => some x

theorem beq_unpacked_iff (x y : UnpackedFloat) :
    x.beq y = true ↔ ∃ n, numeral? x = some n ∧ numeral? y = some n := by
  rcases x with ⟨_ | _⟩ | _ | _ | ⟨_ | _, m, e, _⟩ <;>
    rcases y with ⟨_ | _⟩ | _ | _ | ⟨_ | _, n, f, _⟩ <;>
    simp [UnpackedFloat.beq, UnpackedFloat.compare, numeral?]
  case infinity.negative.infinity.negative | infinity.positive.infinity.positive => rfl
  all_goals exact ⟨fun ⟨exponent, mantissa⟩ => ⟨mantissa.symm, exponent.symm⟩,
    fun ⟨mantissa, exponent⟩ => ⟨exponent.symm, mantissa.symm⟩⟩

/-- Doubles are equal if they stand for the same number. -/
theorem beq_iff (a b : Float) :
    (a == b) = true ↔
      ∃ n, numeral? a.toModel.unpack = some n ∧ numeral? b.toModel.unpack = some n :=
  beq_unpacked_iff _ _

theorem beq_symm {a b : Float} (equal : (a == b) = true) : (b == a) = true := by
  rw [beq_iff] at equal ⊢
  obtain ⟨n, left, right⟩ := equal
  exact ⟨n, right, left⟩

theorem beq_trans {a b c : Float} (first : (a == b) = true) (second : (b == c) = true) :
    (a == c) = true := by
  rw [beq_iff] at first second ⊢
  obtain ⟨n, left, middle⟩ := first
  obtain ⟨n', middle', right⟩ := second
  rw [middle] at middle'
  cases middle'
  exact ⟨n, left, right⟩

end Double

namespace Value

variable {a b c : Value}

theorem sameScalar_symm (same : a.sameScalar b = true) : b.sameScalar a = true := by
  cases a <;> cases b <;> simp_all [sameScalar]
  exact Double.beq_symm same

theorem sameScalar_trans (first : a.sameScalar b = true) (second : b.sameScalar c = true) :
    a.sameScalar c = true := by
  cases a <;> cases b <;> cases c <;> simp_all [sameScalar]
  exact Double.beq_trans first second

end Value

/-! ## Bisimilarity -/

namespace Store

/-- A pair of values is borne out by the store if `R` is taken for granted: it is the same array
twice, or two arrays of the same length whose elements `R` relates one by one, or two equal scalars.
-/
inductive Matches (store : Store) (R : Value → Value → Prop) : Value → Value → Prop
  | same (ref : ArrayRef) : Matches store R (.array ref) (.array ref)
  | arrays {a b : ArrayRef} :
    List.Forall₂ R (store.elements a).toList (store.elements b).toList →
    Matches store R (.array a) (.array b)
  | scalars {a b : Value} : a.sameScalar b = true → Matches store R a b

/-- A relation all of whose pairs are borne out. -/
def Bisimulation (store : Store) (R : Value → Value → Prop) : Prop :=
  ∀ a b, R a b → store.Matches R a b

/-- Two values are related by some bisimulation. -/
def Bisimilar (store : Store) (a b : Value) : Prop :=
  ∃ R, store.Bisimulation R ∧ R a b

variable {store : Store} {R S : Value → Value → Prop} {a b c : Value}

theorem Matches.mono (weaker : ∀ a b, R a b → S a b) (matched : store.Matches R a b) :
    store.Matches S a b := by
  cases matched with
  | same ref => exact .same ref
  | arrays elements => exact .arrays (elements.imp weaker)
  | scalars same => exact .scalars same

/-- Bisimilarity is itself a bisimulation, the greatest there is. -/
theorem bisimulation_bisimilar : store.Bisimulation store.Bisimilar := by
  rintro a b ⟨R, bisimulation, related⟩
  exact (bisimulation a b related).mono fun _ _ related => ⟨R, bisimulation, related⟩

theorem Bisimilar.symm (bisimilar : store.Bisimilar a b) : store.Bisimilar b a := by
  refine ⟨flip store.Bisimilar, fun b a bisimilar => ?_, bisimilar⟩
  cases bisimulation_bisimilar a b bisimilar with
  | same ref => exact .same ref
  | arrays elements => exact .arrays elements.flip
  | scalars same => exact .scalars (Value.sameScalar_symm same)

theorem forall₂_trans {T : Value → Value → Prop} {l₁ l₂ l₃ : List Value}
    (chain : ∀ a b c, R a b → S b c → T a c) (first : List.Forall₂ R l₁ l₂)
    (second : List.Forall₂ S l₂ l₃) : List.Forall₂ T l₁ l₃ := by
  induction first generalizing l₃ with
  | nil =>
    cases second
    exact .nil
  | cons related _ ih =>
    cases second with
    | cons related' rest => exact .cons (chain _ _ _ related related') (ih rest)

theorem sameScalar_array_left (ref : ArrayRef) : (Value.array ref).sameScalar b = false := by
  cases b <;> rfl

theorem sameScalar_array_right (ref : ArrayRef) : a.sameScalar (.array ref) = false := by
  cases a <;> rfl

/-- The relation that shows transitivity holds the bisimilar pairs beside their chains: an array is
bisimilar to itself whatever it holds, so a chain over it gives no chains over its elements. -/
theorem Bisimilar.trans (first : store.Bisimilar a b) (second : store.Bisimilar b c) :
    store.Bisimilar a c := by
  refine ⟨fun a c => store.Bisimilar a c ∨ ∃ b, store.Bisimilar a b ∧ store.Bisimilar b c,
    fun a c related => ?_, .inr ⟨b, first, second⟩⟩
  rcases related with bisimilar | ⟨b, first, second⟩
  · exact (bisimulation_bisimilar a c bisimilar).mono fun _ _ => .inl
  have left := bisimulation_bisimilar a b first
  have right := bisimulation_bisimilar b c second
  cases left with
  | same ref => exact right.mono fun _ _ => .inl
  | arrays elements =>
    cases right with
    | same ref => exact .arrays (elements.imp fun _ _ => .inl)
    | arrays elements' =>
      exact .arrays (forall₂_trans (fun _ b _ first second => .inr ⟨b, first, second⟩) elements
        elements')
    | scalars same => rw [sameScalar_array_left] at same; cases same
  | scalars same =>
    cases right with
    | same ref => rw [sameScalar_array_right] at same; cases same
    | arrays => rw [sameScalar_array_right] at same; cases same
    | scalars same' => exact .scalars (Value.sameScalar_trans same same')

end Store

/-! ## The loop over pending pairs -/

/-- What a comparison knows between two pairs: the pairs of arrays that it takes to be equal, and
the pairs that are still to be compared, in no order. -/
structure Worklist where
  assumed : Finset (ArrayRef × ArrayRef)
  pending : Multiset (Value × Value)

namespace Store

variable {store : Store}

/-- Compares one of the pending pairs, where `pending` are the others. `none` is the end of the
comparison: the two values differ. -/
def compareNext (store : Store) (assumed : Finset (ArrayRef × ArrayRef))
    (pending : Multiset (Value × Value)) : Value × Value → Option Worklist
  | (.array a, .array b) =>
    if a = b ∨ (a, b) ∈ assumed then some ⟨assumed, pending⟩
    else if (store.elements a).size ≠ (store.elements b).size then none
    else
      some ⟨insert (a, b) assumed,
        ↑((store.elements a).toList.zip (store.elements b).toList) + pending⟩
  | (a, b) => if a.sameScalar b then some ⟨assumed, pending⟩ else none

/-- One turn of the loop, on any of the pending pairs. -/
inductive Turn (store : Store) : Worklist → Worklist → Prop
  | mk {assumed pending pair next} : store.compareNext assumed pending pair = some next →
    Turn store ⟨assumed, pair ::ₘ pending⟩ next

/-- The loop can end with a verdict: the pending pairs are all equal, or not. -/
inductive Verdict (store : Store) : Worklist → Bool → Prop
  | equal {assumed} : Verdict store ⟨assumed, 0⟩ true
  | differ {assumed pending pair} : store.compareNext assumed pending pair = none →
    Verdict store ⟨assumed, pair ::ₘ pending⟩ false
  | turn {assumed pending pair next verdict} :
    store.compareNext assumed pending pair = some next → Verdict store next verdict →
    Verdict store ⟨assumed, pair ::ₘ pending⟩ verdict

theorem compareNext_scalar {assumed : Finset (ArrayRef × ArrayRef)}
    {pending : Multiset (Value × Value)} {a b : Value}
    (scalar : ∀ x y, a = .array x → b = .array y → False) :
    store.compareNext assumed pending (a, b) =
      if a.sameScalar b then some ⟨assumed, pending⟩ else none := by
  unfold compareNext
  split
  · next eq =>
    cases eq
    exact (scalar _ _ rfl rfl).elim
  · next eq =>
    cases eq
    rfl

/-- What a turn on a pair of values can be. -/
theorem compareNext_cases {assumed : Finset (ArrayRef × ArrayRef)}
    {pending : Multiset (Value × Value)} {pair : Value × Value} {next : Worklist}
    (turned : store.compareNext assumed pending pair = some next) :
    (next = ⟨assumed, pending⟩ ∧ (pair.1.sameScalar pair.2 = true ∨
      ∃ a b, pair = (.array a, .array b) ∧ (a = b ∨ (a, b) ∈ assumed))) ∨
    ∃ a b, pair = (.array a, .array b) ∧ a ≠ b ∧ (a, b) ∉ assumed ∧
      (store.elements a).size = (store.elements b).size ∧
      next = ⟨insert (a, b) assumed,
        ↑((store.elements a).toList.zip (store.elements b).toList) + pending⟩ := by
  unfold compareNext at turned
  split at turned
  · next a b =>
    split at turned
    · next known =>
      cases turned
      exact .inl ⟨rfl, .inr ⟨a, b, rfl, known⟩⟩
    · next unknown =>
      split at turned
      · cases turned
      · next sizes =>
        cases turned
        obtain ⟨other, fresh⟩ := not_or.mp unknown
        exact .inr ⟨a, b, rfl, other, fresh, not_not.mp sizes, rfl⟩
  · split at turned
    · next same =>
      cases turned
      exact .inl ⟨rfl, .inl same⟩
    · cases turned

/-! ### Its end -/

/-- The places of pairs of arrays. -/
def pairs (store : Store) : Finset (ArrayRef × ArrayRef) :=
  let refs := (Finset.range store.arrays.size).image ArrayRef.mk
  refs ×ˢ refs

theorem mem_pairs {a b : ArrayRef} :
    (a, b) ∈ store.pairs ↔ a.index < store.arrays.size ∧ b.index < store.arrays.size := by
  have mem_refs : ∀ ref : ArrayRef, ref ∈ (Finset.range store.arrays.size).image ArrayRef.mk ↔
      ref.index < store.arrays.size := by
    rintro ⟨index⟩
    simp
  simp only [pairs, Finset.mem_product, mem_refs]

theorem card_pairs_le (store : Store) :
    store.pairs.card ≤ store.arrays.size * store.arrays.size := by
  have refs : ((Finset.range store.arrays.size).image ArrayRef.mk).card ≤ store.arrays.size :=
    Finset.card_image_le.trans (Nat.le_of_eq (Finset.card_range _))
  rw [pairs, Finset.card_product]
  exact Nat.mul_le_mul refs refs

/-- An array with elements has its place in the store. -/
theorem lt_size_of_elements {ref : ArrayRef} (elements : 0 < (store.elements ref).size) :
    ref.index < store.arrays.size := by
  by_contra outside
  rw [Store.elements, Array.getElem?_eq_none (Nat.le_of_not_lt outside)] at elements
  cases elements

theorem mem_pairs_of_elements {a b : ArrayRef} (elements : 0 < (store.elements a).size)
    (sizes : (store.elements a).size = (store.elements b).size) : (a, b) ∈ store.pairs :=
  mem_pairs.mpr ⟨lt_size_of_elements elements, lt_size_of_elements (sizes ▸ elements)⟩

/-- The loop ends, whichever pairs it takes: a turn takes a pair of arrays from those that are still
to be unfolded, or a pair from those that are pending. -/
theorem turn_wellFounded (store : Store) :
    WellFounded fun next list : Worklist => store.Turn list next := by
  refine Subrelation.wf (r := InvImage (Prod.Lex (· < ·) (· < ·)) fun list : Worklist =>
    ((store.pairs \ list.assumed).card, list.pending.card)) (fun {next list} turn => ?_)
    (InvImage.wf _ (WellFounded.prod_lex wellFounded_lt wellFounded_lt))
  obtain ⟨turned⟩ := turn
  rename_i assumed pending pair
  rcases compareNext_cases turned with ⟨rfl, -⟩ | ⟨a, b, rfl, other, unknown, sizes, rfl⟩
  · exact .right _ (by simp)
  · rcases Nat.eq_zero_or_pos (store.elements a).size with empty | elements
    · -- Arrays without elements leave no pairs behind, but they need not have a place.
      have none : (store.elements a).toList = [] := by simpa using empty
      have fewer : (store.pairs \ insert (a, b) assumed).card ≤ (store.pairs \ assumed).card :=
        Finset.card_le_card (Finset.sdiff_subset_sdiff le_rfl (Finset.subset_insert _ _))
      rcases Nat.lt_or_eq_of_le fewer with fewer | same
      · exact .left _ _ fewer
      · simp only [InvImage, same, none]
        exact .right _ (by simp)
    · refine .left _ _ (Finset.card_lt_card ?_)
      refine Finset.ssubset_iff_of_subset
        (Finset.sdiff_subset_sdiff le_rfl (Finset.subset_insert _ _)) |>.mpr ⟨(a, b), ?_, ?_⟩
      · exact Finset.mem_sdiff.mpr ⟨mem_pairs_of_elements elements sizes, unknown⟩
      · simp

/-! ### Its verdicts -/

/-- The pairs that a comparison with these unfolded pairs vouches for. -/
def Vouched (unfolded : Finset (ArrayRef × ArrayRef)) (a b : Value) : Prop :=
  a.sameScalar b = true ∨ ∃ x y, a = .array x ∧ b = .array y ∧ (x = y ∨ (x, y) ∈ unfolded)

/-- A verdict that all pairs are equal rests on unfolded pairs whose elements are vouched for. -/
theorem Verdict.exists_vouched {list : Worklist} (verdict : store.Verdict list true) :
    ∃ unfolded, list.assumed ⊆ unfolded ∧
      (∀ pair ∈ list.pending, Vouched unfolded pair.1 pair.2) ∧
      ∀ a b, (a, b) ∈ unfolded → (a, b) ∉ list.assumed →
        List.Forall₂ (Vouched unfolded) (store.elements a).toList (store.elements b).toList := by
  generalize equal : true = answer at verdict
  induction verdict with
  | @equal assumed =>
    exact ⟨assumed, subset_rfl, by simp, fun a b member fresh => absurd member fresh⟩
  | differ => cases equal
  | @turn assumed pending pair next verdict turned _ ih =>
    obtain ⟨unfolded, grown, vouched, borne⟩ := ih equal
    rcases compareNext_cases turned with ⟨rfl, known⟩ | ⟨a, b, rfl, other, unknown, sizes, rfl⟩
    · refine ⟨unfolded, grown, fun other member => ?_, borne⟩
      rcases Multiset.mem_cons.mp member with rfl | member
      · rcases known with same | ⟨a, b, rfl, same | member⟩
        · exact .inl same
        · exact .inr ⟨a, b, rfl, rfl, .inl same⟩
        · exact .inr ⟨a, b, rfl, rfl, .inr (grown member)⟩
      · exact vouched other member
    · obtain ⟨here, before⟩ := Finset.insert_subset_iff.mp grown
      refine ⟨unfolded, before, fun other member => ?_, fun x y member fresh => ?_⟩
      · rcases Multiset.mem_cons.mp member with rfl | member
        · exact .inr ⟨a, b, rfl, rfl, .inr here⟩
        · exact vouched other (Multiset.mem_add.mpr (.inr member))
      · by_cases unfoldedNow : (x, y) = (a, b)
        · cases unfoldedNow
          refine List.forall₂_iff_zip.mpr ⟨by simpa using sizes, fun {v w} member => ?_⟩
          exact vouched (v, w) (Multiset.mem_add.mpr (.inl (Multiset.mem_coe.mpr member)))
        · exact borne x y member (by simp [unfoldedNow, fresh])

/-- Turns lead from bisimilar pairs to bisimilar pairs, and bisimilar pairs do not differ. -/
theorem Verdict.eq_true {list : Worklist} {answer : Bool} (verdict : store.Verdict list answer)
    (bisimilar : ∀ pair ∈ list.pending, store.Bisimilar pair.1 pair.2) : answer = true := by
  induction verdict with
  | equal => rfl
  | @differ assumed pending pair differs =>
    exfalso
    have matched := bisimulation_bisimilar _ _ (bisimilar pair (Multiset.mem_cons_self _ _))
    unfold compareNext at differs
    split at differs
    · next a b =>
      split at differs
      · cases differs
      · next unknown =>
        split at differs
        · next sizes =>
          cases matched with
          | same => exact unknown (.inl rfl)
          | arrays elements => exact sizes (by simpa using elements.length_eq)
          | scalars same => cases same
        · cases differs
    · next a b scalar =>
      split at differs
      · cases differs
      · next different =>
        cases matched with
        | same ref => exact scalar ref ref rfl rfl
        | @arrays x y => exact scalar x y rfl rfl
        | scalars same => exact different same
  | @turn assumed pending pair next verdict turned _ ih =>
    obtain ⟨here, others⟩ := Multiset.forall_mem_cons.mp bisimilar
    rcases compareNext_cases turned with ⟨rfl, -⟩ | ⟨a, b, rfl, other, unknown, sizes, rfl⟩
    · exact ih others
    · refine ih fun pair member => ?_
      rcases Multiset.mem_add.mp member with element | member
      · cases bisimulation_bisimilar _ _ here with
        | same => exact absurd rfl other
        | arrays elements =>
          exact List.forall₂_zip elements (Multiset.mem_coe.mp element)
        | scalars same => cases same
      · exact others pair member

/-- A comparison of two values that has unfolded nothing yet. -/
def comparison (a b : Value) : Worklist :=
  ⟨∅, {(a, b)}⟩

/-- Whatever the order of the pairs, the verdict is whether the two values are bisimilar. -/
theorem Verdict.bisimilar_iff {a b : Value} {answer : Bool}
    (verdict : store.Verdict (comparison a b) answer) :
    answer = true ↔ store.Bisimilar a b := by
  constructor
  · rintro rfl
    obtain ⟨unfolded, -, vouched, borne⟩ := verdict.exists_vouched
    refine ⟨Vouched unfolded, fun v w related => ?_, vouched (a, b) (Multiset.mem_singleton_self _)⟩
    rcases related with same | ⟨x, y, rfl, rfl, rfl | member⟩
    · exact .scalars same
    · exact .same x
    · exact .arrays (borne x y member (Finset.notMem_empty _))
  · intro bisimilar
    refine verdict.eq_true fun pair member => ?_
    obtain rfl := Multiset.mem_singleton.mp member
    exact bisimilar

/-! ### The order that `Store.equal` takes them in -/

/-- Pairs of arrays with a place are no more than the pairs of places. -/
theorem size_le_of_subset {assumed : Std.HashSet (ArrayRef × ArrayRef)}
    (placed : ∀ pair ∈ assumed, pair ∈ store.pairs) :
    assumed.size ≤ store.arrays.size * store.arrays.size := by
  have nodup : assumed.toList.Nodup :=
    assumed.distinct_toList.imp fun different same => by simp [same] at different
  have subset : assumed.toList.toFinset ⊆ store.pairs := fun pair member =>
    placed pair (Std.HashSet.mem_toList.mp (List.mem_toFinset.mp member))
  rw [← Std.HashSet.length_toList, ← List.toFinset_card_of_nodup nodup]
  exact (Finset.card_le_card subset).trans store.card_pairs_le

section Noted

variable {noted : Std.HashSet (ArrayRef × ArrayRef)} {assumed : Finset (ArrayRef × ArrayRef)}
  {a b : ArrayRef}

/-- The loop may take more pairs to be equal than have been noted, but only pairs of arrays without
elements. -/
def Covers (store : Store) (noted : Std.HashSet (ArrayRef × ArrayRef))
    (assumed : Finset (ArrayRef × ArrayRef)) : Prop :=
  (∀ pair ∈ noted, pair ∈ assumed) ∧
    ∀ a b, (a, b) ∈ assumed → (a, b) ∈ noted ∨
      (store.elements a).size = 0 ∧ (store.elements b).size = 0

theorem Covers.unknown (covers : store.Covers noted assumed)
    (fresh : ¬ (a = b ∨ noted.contains (a, b) = true))
    (elements : ¬ ((store.elements a).size = 0 ∧ (store.elements b).size = 0)) :
    ¬ (a = b ∨ (a, b) ∈ assumed) := by
  obtain ⟨other, fresh⟩ := not_or.mp fresh
  rintro (same | member)
  · exact other same
  · rcases covers.2 a b member with found | none
    · exact fresh (Std.HashSet.contains_iff_mem.mpr found)
    · exact elements none

theorem Covers.empty (covers : store.Covers noted assumed)
    (none : (store.elements a).size = 0 ∧ (store.elements b).size = 0) :
    store.Covers noted (insert (a, b) assumed) := by
  refine ⟨fun pair member => Finset.mem_insert_of_mem (covers.1 pair member), fun x y member => ?_⟩
  rcases Finset.mem_insert.mp member with eq | member
  · cases eq
    exact .inr none
  · exact covers.2 x y member

theorem Covers.insert (covers : store.Covers noted assumed) (pair : ArrayRef × ArrayRef) :
    store.Covers (noted.insert pair) (insert pair assumed) := by
  refine ⟨fun other member => ?_, fun x y member => ?_⟩
  · rcases Std.HashSet.mem_insert.mp member with eq | member
    · exact Finset.mem_insert.mpr (.inl (beq_iff_eq.mp eq).symm)
    · exact Finset.mem_insert_of_mem (covers.1 other member)
  · rcases Finset.mem_insert.mp member with rfl | member
    · exact .inl Std.HashSet.mem_insert_self
    · exact (covers.2 x y member).imp_left fun old => Std.HashSet.mem_insert.mpr (.inr old)

end Noted

/-- What `Store.allEqual` gives is a verdict of the loop, if there is room for all pairs that have
not been noted. -/
theorem verdict_allEqual (room : Nat) (noted : Std.HashSet (ArrayRef × ArrayRef))
    (pending : List (Value × Value))
    (left : room + noted.size = store.arrays.size * store.arrays.size)
    (placed : ∀ pair ∈ noted, pair ∈ store.pairs) (assumed : Finset (ArrayRef × ArrayRef))
    (covers : store.Covers noted assumed) :
    store.Verdict ⟨assumed, ↑pending⟩ (store.allEqual room noted pending) := by
  have insertPlaced : ∀ {noted : Std.HashSet (ArrayRef × ArrayRef)} {a b : ArrayRef},
      (∀ pair ∈ noted, pair ∈ store.pairs) →
      ¬ (store.elements a).size ≠ (store.elements b).size →
      ¬ (store.elements a).isEmpty = true →
      ∀ pair ∈ noted.insert (a, b), pair ∈ store.pairs := by
    intro noted a b placed sizes some pair member
    rcases Std.HashSet.mem_insert.mp member with eq | member
    · obtain rfl := beq_iff_eq.mp eq
      have elements : 0 < (store.elements a).size := by
        simpa [Nat.pos_iff_ne_zero] using some
      exact mem_pairs_of_elements elements (not_not.mp sizes)
    · exact placed pair member
  fun_induction store.allEqual room noted pending generalizing assumed with
  | case1 => exact .equal
  | case2 room noted a b pending same ih =>
    have same : a = b ∨ (a, b) ∈ assumed :=
      same.imp_right fun found => covers.1 _ (Std.HashSet.contains_iff_mem.mp found)
    rw [← Multiset.cons_coe]
    exact .turn (if_pos same) (ih left placed assumed covers)
  | case3 room noted a b pending fresh sizes =>
    have unknown := covers.unknown fresh fun none => sizes (none.1.trans none.2.symm)
    rw [← Multiset.cons_coe]
    exact .differ ((if_neg unknown).trans (if_pos sizes))
  | case4 room noted a b pending fresh sizes none ih =>
    have none : (store.elements a).size = 0 := by simpa using none
    rw [← Multiset.cons_coe]
    by_cases same : a = b ∨ (a, b) ∈ assumed
    · exact .turn (if_pos same) (ih left placed assumed covers)
    · have next := ih left placed _ (covers.empty ⟨none, not_not.mp sizes ▸ none⟩)
      have elements : (store.elements a).toList = [] := by simpa using none
      refine .turn ((if_neg same).trans (if_neg sizes)) ?_
      rw [elements, List.zip_nil_left, Multiset.coe_nil, zero_add]
      exact next
  | case5 noted a b pending fresh sizes some ih =>
    -- One more pair could be noted, which would be one too many.
    exfalso
    have bound := size_le_of_subset (insertPlaced placed sizes some)
    have missing : (a, b) ∉ noted := fun member =>
      fresh (.inr (Std.HashSet.contains_iff_mem.mpr member))
    rw [Std.HashSet.size_insert, if_neg missing] at bound
    omega
  | case6 noted a b pending fresh sizes some room ih =>
    have missing : (a, b) ∉ noted := fun member =>
      fresh (.inr (Std.HashSet.contains_iff_mem.mpr member))
    have unknown := covers.unknown fresh fun none => some (by simpa using none.1)
    have left : room + (noted.insert (a, b)).size = store.arrays.size * store.arrays.size := by
      rw [Std.HashSet.size_insert, if_neg missing]
      omega
    have next := ih left (insertPlaced placed sizes some) _ (covers.insert (a, b))
    rw [← Multiset.cons_coe]
    refine .turn ((if_neg unknown).trans (if_neg sizes)) ?_
    rw [Multiset.coe_add]
    exact next
  | case7 room noted a b pending scalar same ih =>
    rw [← Multiset.cons_coe]
    refine .turn ?_ (ih left placed assumed covers)
    rw [compareNext_scalar scalar, if_pos same]
  | case8 room noted a b pending scalar different =>
    rw [← Multiset.cons_coe]
    exact .differ (by rw [compareNext_scalar scalar, if_neg different])

/-- Equality is the verdict of one of the loops. -/
theorem verdict_equal (store : Store) (a b : Value) :
    store.Verdict (comparison a b) (store.equal a b) := by
  unfold equal
  split
  · next a b =>
    have room : store.arrays.size * store.arrays.size +
        (∅ : Std.HashSet (ArrayRef × ArrayRef)).size =
          store.arrays.size * store.arrays.size := by simp
    exact verdict_allEqual _ _ [(.array a, .array b)] room (by simp) ∅ ⟨by simp, by simp⟩
  · next scalar =>
    have turned : store.compareNext ∅ 0 (a, b) = if a.sameScalar b then some ⟨∅, 0⟩ else none :=
      compareNext_scalar scalar
    cases same : a.sameScalar b with
    | true => exact .turn (turned.trans (if_pos same)) .equal
    | false => exact .differ (turned.trans (if_neg (by simp [same])))

theorem equal_eq_true_iff {a b : Value} : store.equal a b = true ↔ store.Bisimilar a b :=
  (store.verdict_equal a b).bisimilar_iff

end Store

/-- Equality of values comes to an end in every store and decides bisimilarity. The loop over the
pending pairs ends in whatever order it takes them, and its verdict is one and the same: that of
`Store.equal`, which says whether the two values are related by a relation that the store bears out.
So equality is symmetric and transitive. It is not reflexive: a double that is not a number differs
from itself. -/
theorem equal_decides_bisimilarity (store : Store) :
    (WellFounded fun next list : Worklist => store.Turn list next) ∧
    (∀ a b answer, store.Verdict (Store.comparison a b) answer ↔ answer = store.equal a b) ∧
    (∀ a b, store.equal a b = true ↔
      ∃ R : Value → Value → Prop, (∀ v w, R v w → store.Matches R v w) ∧ R a b) ∧
    (∀ a b, store.equal a b = store.equal b a) ∧
    ∀ a b c, store.equal a b = true → store.equal b c = true → store.equal a c = true := by
  have decides : ∀ a b, store.equal a b = true ↔ store.Bisimilar a b :=
    fun a b => Store.equal_eq_true_iff
  refine ⟨store.turn_wellFounded, fun a b answer => ⟨fun verdict => ?_, ?_⟩, decides, fun a b => ?_,
    fun a b c first second => ?_⟩
  · exact Bool.eq_iff_iff.mpr (verdict.bisimilar_iff.trans (decides a b).symm)
  · rintro rfl
    exact store.verdict_equal a b
  · refine Bool.eq_iff_iff.mpr ⟨fun equal => ?_, fun equal => ?_⟩
    · exact (decides b a).mpr ((decides a b).mp equal).symm
    · exact (decides a b).mpr ((decides b a).mp equal).symm
  · exact (decides a c).mpr (((decides a b).mp first).trans ((decides b c).mp second))

/-- An array that holds itself, and one that holds an array that holds it. -/
def rings : Store :=
  { arrays := #[#[.array ⟨0⟩], #[.array ⟨2⟩], #[.array ⟨1⟩]] }

example : rings.equal (.array ⟨0⟩) (.array ⟨1⟩) = true := by cbv

end ControlStash
