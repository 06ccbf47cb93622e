import ControlStash.Proofs.Bisimilar
import ControlStash.Store.Show

/-!
# The text of arrays inside arrays

Arrays may hold themselves, yet every value has a text of finite length, and it is given by a plain
recursion (`Store.text`): an array is written as its elements in brackets, except that inside itself
it is written `[...]`. What the recursion carries along is the set of the arrays around the value. It
ends since that set can only grow up to the arrays there are.

The writer works on a list of pieces instead, with one set of open arrays for all of them. This loop
is given a second time without any bound on its work (`Store.turn`). It ends on every store, and what
it has written then is the text (`turns_of_value`): each array that a piece opens is closed again
before the pieces behind it are looked at. `Store.render` follows the loop turn by turn
(`writePieces_eq_of_turns`); in particular the room that it is given for arrays never runs out.

`Store.outline` is the tree of what is written out. It shows that an array is cut short exactly where
it is among the arrays around it (`render_writes_text`).
-/

namespace ControlStash

namespace Store

variable {store : Store} {scalar : Value → String} {opened : Finset ArrayRef} {ref : ArrayRef}
  {v : Value}

/-! ## The recursion -/

/-- The arrays that could still be opened. -/
def unopened (store : Store) (opened : Finset ArrayRef) : Finset ArrayRef :=
  (Finset.range store.arrays.size).image ArrayRef.mk \ opened

theorem mem_unopened :
    ref ∈ store.unopened opened ↔ ref.index < store.arrays.size ∧ ref ∉ opened := by
  obtain ⟨index⟩ := ref
  simp [unopened]

theorem unopened_insert :
    store.unopened (insert ref opened) = (store.unopened opened).erase ref := by
  ext other
  simp only [mem_unopened, Finset.mem_insert, Finset.mem_erase, not_or]
  tauto

/-- An array that is opened leaves fewer to open, unless it has no elements. -/
theorem card_unopened_insert (fresh : ref ∉ opened) (elements : 0 < (store.elements ref).size) :
    (store.unopened (insert ref opened)).card + 1 = (store.unopened opened).card := by
  rw [unopened_insert]
  exact Finset.card_erase_add_one (mem_unopened.mpr ⟨lt_size_of_elements elements, fresh⟩)

theorem card_unopened_erase_le (ref : ArrayRef) :
    (store.unopened (opened.erase ref)).card ≤ (store.unopened opened).card + 1 := by
  refine (Finset.card_le_card (t := insert ref (store.unopened opened)) fun other => ?_).trans
    (Finset.card_insert_le _ _)
  simp only [mem_unopened, Finset.mem_insert, Finset.mem_erase]
  tauto

theorem card_unopened_empty : (store.unopened ∅).card = store.arrays.size := by
  rw [unopened, Finset.sdiff_empty, Finset.card_image_of_injective, Finset.card_range]
  intro a b same
  cases same
  rfl

theorem size_pos_of_mem_elements (held : v ∈ (store.elements ref).toList) :
    0 < (store.elements ref).size := by
  rw [← Array.length_toList]
  exact List.length_pos_of_mem held

/-- The text of a value that stands inside some arrays. -/
def text (store : Store) (scalar : Value → String) (opened : Finset ArrayRef) : Value → String
  | .array ref =>
    if inside : ref ∈ opened then "[...]"
    else
      "[" ++ ", ".intercalate ((store.elements ref).toList.attach.map fun ⟨v, held⟩ =>
        have := card_unopened_insert inside (size_pos_of_mem_elements held)
        store.text scalar (insert ref opened) v) ++ "]"
  | v => scalar v
termination_by (store.unopened opened).card

theorem text_scalar (plain : ∀ ref, v ≠ .array ref) : store.text scalar opened v = scalar v := by
  cases v with
  | array ref => exact absurd rfl (plain ref)
  | _ =>
    rw [text]
    rintro ref ⟨⟩

theorem text_inside (inside : ref ∈ opened) :
    store.text scalar opened (.array ref) = "[...]" := by
  rw [text, dif_pos inside]

theorem text_fresh (fresh : ref ∉ opened) :
    store.text scalar opened (.array ref) =
      "[" ++ ", ".intercalate
        ((store.elements ref).toList.map (store.text scalar (insert ref opened))) ++ "]" := by
  rw [text, dif_neg fresh]
  simp only [List.map_attach_eq_pmap, List.pmap_eq_map]

/-! ## The loop -/

/-- How far the writing has come: the arrays that are open, the pieces that are still to be written,
and what has been written. -/
structure Writing where
  opened : Finset ArrayRef
  pieces : List Piece
  out : String

/-- One turn of the loop. -/
def turn (store : Store) (scalar : Value → String) : Writing → Writing
  | ⟨opened, .value (.array ref) :: pieces, out⟩ =>
    if ref ∈ opened then ⟨opened, pieces, out ++ "[...]"⟩
    else
      ⟨insert ref opened, elementPieces (store.elements ref).toList (.close ref :: pieces), out ++ "["⟩
  | ⟨opened, .value v :: pieces, out⟩ => ⟨opened, pieces, out ++ scalar v⟩
  | ⟨opened, .separator :: pieces, out⟩ => ⟨opened, pieces, out ++ ", "⟩
  | ⟨opened, .close ref :: pieces, out⟩ => ⟨opened.erase ref, pieces, out ++ "]"⟩
  | ⟨opened, [], out⟩ => ⟨opened, [], out⟩

/-- Some turns of the loop lead from one state to another. -/
def Turns (store : Store) (scalar : Value → String) (w w' : Writing) : Prop :=
  ∃ n, (store.turn scalar)^[n] w = w'

theorem Turns.refl (w : Writing) : store.Turns scalar w w :=
  ⟨0, rfl⟩

theorem Turns.trans {w w' w'' : Writing} (first : store.Turns scalar w w')
    (second : store.Turns scalar w' w'') : store.Turns scalar w w'' := by
  obtain ⟨n, rfl⟩ := first
  obtain ⟨k, rfl⟩ := second
  exact ⟨k + n, Function.iterate_add_apply _ _ _ _⟩

theorem Turns.one (w : Writing) : store.Turns scalar w (store.turn scalar w) :=
  ⟨1, rfl⟩

theorem turn_scalar (plain : ∀ ref, v ≠ .array ref) (pieces : List Piece) (out : String) :
    store.turn scalar ⟨opened, .value v :: pieces, out⟩ = ⟨opened, pieces, out ++ scalar v⟩ := by
  cases v with
  | array ref => exact absurd rfl (plain ref)
  | _ => rfl

/-- If the loop gets past each of some values, it gets past all of them and what stands between. -/
theorem turns_of_elements {texts : Value → String} {vs : List Value}
    (each : ∀ v ∈ vs, ∀ pieces out, store.Turns scalar ⟨opened, .value v :: pieces, out⟩
      ⟨opened, pieces, out ++ texts v⟩) (rest : List Piece) (out : String) :
    store.Turns scalar ⟨opened, elementPieces vs rest, out⟩
      ⟨opened, rest, out ++ ", ".intercalate (vs.map texts)⟩ := by
  fun_induction elementPieces vs rest generalizing out with
  | case1 rest =>
    rw [List.map_nil, String.intercalate_nil, String.append_empty]
    exact .refl _
  | case2 v rest =>
    rw [List.map_singleton, String.intercalate_singleton]
    exact each v List.mem_cons_self rest out
  | case3 v vs rest more ih =>
    obtain ⟨w, ws, rfl⟩ := List.exists_cons_of_ne_nil more
    obtain ⟨first, others⟩ := List.forall_mem_cons.mp each
    rw [List.map_cons, List.map_cons, String.intercalate_cons_cons, ← List.map_cons,
      ← String.append_assoc, ← String.append_assoc]
    exact (first _ out).trans (.trans (.one _) (ih others _))

/-- The loop gets past every value, and writes its text. -/
theorem turns_of_value (opened : Finset ArrayRef) (v : Value) (pieces : List Piece)
    (out : String) :
    store.Turns scalar ⟨opened, .value v :: pieces, out⟩
      ⟨opened, pieces, out ++ store.text scalar opened v⟩ := by
  induction opened, v using text.induct store generalizing pieces out with
  | case1 opened ref inside =>
    have cut : store.turn scalar ⟨opened, .value (.array ref) :: pieces, out⟩ =
        ⟨opened, pieces, out ++ "[...]"⟩ := if_pos inside
    rw [text_inside inside, ← cut]
    exact .one _
  | case2 opened ref fresh ih =>
    have opens : store.turn scalar ⟨opened, .value (.array ref) :: pieces, out⟩ =
        ⟨insert ref opened, elementPieces (store.elements ref).toList (.close ref :: pieces),
          out ++ "["⟩ := if_neg fresh
    have elements := turns_of_elements ih (.close ref :: pieces) (out ++ "[")
    have closes (out : String) :
        store.turn scalar ⟨insert ref opened, .close ref :: pieces, out⟩ =
          ⟨opened, pieces, out ++ "]"⟩ := by
      rw [turn, Finset.erase_insert fresh]
    rw [text_fresh fresh, ← String.append_assoc, ← String.append_assoc, ← closes]
    exact (opens ▸ Turns.one _).trans (elements.trans (.one _))
  | case3 opened v plain =>
    rw [text_scalar plain, ← turn_scalar plain]
    exact .one _

/-! ## The writer -/

/-- The open arrays of the writer are those of the loop, where it is not at an array without
elements: these the writer does not open. -/
structure Keeps (store : Store) (held : Std.HashSet ArrayRef) (opened : Finset ArrayRef) : Prop where
  mem_iff : ∀ ref, ref ∈ held ↔ ref ∈ opened
  elements : ∀ ref, ref ∈ opened → 0 < (store.elements ref).size

theorem keeps_empty : store.Keeps ∅ ∅ :=
  ⟨fun ref => by simp, fun ref held => absurd held (Finset.notMem_empty ref)⟩

theorem Keeps.insert {held : Std.HashSet ArrayRef} (keeps : store.Keeps held opened)
    (elements : 0 < (store.elements ref).size) :
    store.Keeps (held.insert ref) (insert ref opened) := by
  refine ⟨fun other => ?_, fun other member => ?_⟩
  · rw [Std.HashSet.mem_insert, Finset.mem_insert, keeps.mem_iff, beq_iff_eq, eq_comm]
  · rcases Finset.mem_insert.mp member with rfl | member
    · exact elements
    · exact keeps.elements other member

theorem Keeps.erase {held : Std.HashSet ArrayRef} (keeps : store.Keeps held opened)
    (ref : ArrayRef) : store.Keeps (held.erase ref) (opened.erase ref) := by
  refine ⟨fun other => ?_, fun other member => keeps.elements other (Finset.mem_of_mem_erase member)⟩
  rw [Std.HashSet.mem_erase, Finset.mem_erase, keeps.mem_iff, beq_eq_false_iff_ne, ne_comm]

/-- With room for all arrays that are not open, the writer ends with a certain text. -/
def Writes (store : Store) (scalar : Value → String) (w : Writing) (out : String) : Prop :=
  ∀ held room, store.Keeps held w.opened → (store.unopened w.opened).card ≤ room →
    store.writePieces scalar room held w.pieces w.out = out

section

variable {pieces : List Piece} {before out : String}

theorem Writes.separator (writes : store.Writes scalar ⟨opened, pieces, before ++ ", "⟩ out) :
    store.Writes scalar ⟨opened, .separator :: pieces, before⟩ out := by
  intro held room keeps roomy
  rw [writePieces]
  exact writes held room keeps roomy

theorem Writes.close (writes : store.Writes scalar ⟨opened.erase ref, pieces, before ++ "]"⟩ out) :
    store.Writes scalar ⟨opened, .close ref :: pieces, before⟩ out := by
  intro held room keeps roomy
  rw [writePieces]
  exact writes _ _ (keeps.erase ref)
    ((card_unopened_erase_le ref).trans (Nat.succ_le_succ roomy))

theorem Writes.plain (plain : ∀ ref, v ≠ .array ref)
    (writes : store.Writes scalar ⟨opened, pieces, before ++ scalar v⟩ out) :
    store.Writes scalar ⟨opened, .value v :: pieces, before⟩ out := by
  intro held room keeps roomy
  cases v with
  | array ref => exact absurd rfl (plain ref)
  | _ =>
    rw [writePieces]
    · exact writes held room keeps roomy
    · rintro ref ⟨⟩

/-- An array that is open has elements. -/
theorem Writes.inside (inside : ref ∈ opened)
    (writes : store.Writes scalar ⟨opened, pieces, before ++ "[...]"⟩ out) :
    store.Writes scalar ⟨opened, .value (.array ref) :: pieces, before⟩ out := by
  intro held room keeps roomy
  have elements := keeps.elements ref inside
  have found : held.contains ref = true :=
    Std.HashSet.contains_iff_mem.mpr ((keeps.mem_iff ref).mpr inside)
  unfold writePieces
  dsimp only
  rw [if_neg (by simpa [Array.size_pos_iff] using elements), if_pos found]
  exact writes held room keeps roomy

/-- At an array without elements the writer takes two turns of the loop at once. -/
theorem Writes.empty (empty : (store.elements ref).size = 0)
    (writes : store.Writes scalar ⟨opened, pieces, before ++ "[" ++ "]"⟩ out) :
    store.Writes scalar ⟨opened, .value (.array ref) :: pieces, before⟩ out := by
  intro held room keeps roomy
  unfold writePieces
  dsimp only
  rw [if_pos (by simpa using empty)]
  rw [String.append_assoc] at writes
  exact writes held room keeps roomy

/-- There is room for an array that is not open. -/
theorem Writes.fresh (fresh : ref ∉ opened) (elements : 0 < (store.elements ref).size)
    (writes : store.Writes scalar ⟨insert ref opened,
      elementPieces (store.elements ref).toList (.close ref :: pieces), before ++ "["⟩ out) :
    store.Writes scalar ⟨opened, .value (.array ref) :: pieces, before⟩ out := by
  intro held room keeps (roomy : (store.unopened opened).card ≤ room)
  have missing : ¬ held.contains ref = true := fun found =>
    fresh ((keeps.mem_iff ref).mp (Std.HashSet.contains_iff_mem.mp found))
  have fewer := card_unopened_insert fresh elements
  obtain ⟨room, rfl⟩ := Nat.exists_eq_add_one_of_ne_zero (show room ≠ 0 by omega)
  unfold writePieces
  dsimp only
  rw [if_neg (by simpa [Array.size_pos_iff] using elements), if_neg missing]
  exact writes _ room (keeps.insert elements) (by dsimp only; omega)

end

/-- The writer follows the loop, one or two turns at a time. -/
theorem Writes.of_turn (w : Writing) (out : String) :
    (store.Writes scalar (store.turn scalar w) out → store.Writes scalar w out) ∨
      (store.turn scalar w).pieces ≠ [] ∧
        (store.Writes scalar (store.turn scalar (store.turn scalar w)) out →
          store.Writes scalar w out) := by
  obtain ⟨opened, pieces, before⟩ := w
  rcases pieces with _ | ⟨v | _ | ref, pieces⟩
  · exact .inl id
  · by_cases plain : ∀ ref, v ≠ .array ref
    · rw [turn_scalar plain]
      exact .inl (.plain plain)
    · obtain ⟨ref, rfl⟩ := not_forall_not.mp plain
      by_cases inside : ref ∈ opened
      · rw [turn, if_pos inside]
        exact .inl (.inside inside)
      · rw [turn, if_neg inside]
        rcases Nat.eq_zero_or_pos (store.elements ref).size with empty | elements
        · have none : (store.elements ref).toList = [] := by simpa using empty
          rw [none, elementPieces, turn, Finset.erase_insert inside]
          exact .inr ⟨List.cons_ne_nil _ _, .empty empty⟩
        · exact .inl (.fresh inside elements)
  · exact .inl .separator
  · exact .inl .close

/-- If the loop comes to its end, the writer ends with the same text. -/
theorem writes_of_turns {w : Writing} {out : String}
    (ends : store.Turns scalar w ⟨opened, [], out⟩) : store.Writes scalar w out := by
  obtain ⟨n, ends⟩ := ends
  induction n using Nat.strong_induction_on generalizing w with
  | _ n ih =>
    cases n with
    | zero =>
      cases ends
      intro held room keeps roomy
      rw [writePieces]
    | succ n =>
      rw [Function.iterate_succ_apply] at ends
      rcases Writes.of_turn w out with one | ⟨more, two⟩
      · exact one (ih n (Nat.lt_succ_self n) ends)
      · cases n with
        | zero => exact absurd (congrArg Writing.pieces ends) more
        | succ n =>
          rw [Function.iterate_succ_apply] at ends
          exact two (ih n (by omega) ends)

end Store

/-! ## What is written where -/

/-- What is written of a value, as a tree in which the arrays that are cut short are told from those
that are written out. -/
inductive Outline where
  | scalar (v : Value)
  | short (ref : ArrayRef)
  | full (ref : ArrayRef) (elements : List Outline)

namespace Outline

/-- The text that an outline stands for. -/
def text (scalar : Value → String) : Outline → String
  | .scalar v => scalar v
  | .short _ => "[...]"
  | .full _ elements => "[" ++ ", ".intercalate (elements.map fun o => o.text scalar) ++ "]"

/-- A part of an outline, with the arrays around it from the innermost outward. -/
inductive At (o : Outline) : List ArrayRef → Outline → Prop
  | root : At o [] o
  | element {around ref elements part} : At o around (.full ref elements) → part ∈ elements →
    At o (ref :: around) part

end Outline

namespace Store

variable {store : Store} {scalar : Value → String} {opened : Finset ArrayRef} {ref : ArrayRef}
  {v : Value}

/-- What is written of a value that stands inside some arrays. -/
def outline (store : Store) (opened : Finset ArrayRef) : Value → Outline
  | .array ref =>
    if inside : ref ∈ opened then .short ref
    else
      .full ref ((store.elements ref).toList.attach.map fun ⟨v, held⟩ =>
        have := card_unopened_insert inside (size_pos_of_mem_elements held)
        store.outline (insert ref opened) v)
  | v => .scalar v
termination_by (store.unopened opened).card

/-- A part of an outline is cut short if it is an array around itself. Otherwise an array has all its
elements, each written as it is inside the array. -/
def Shows (store : Store) (around : Finset ArrayRef) : Outline → Prop
  | .scalar v => ∀ ref, v ≠ .array ref
  | .short ref => ref ∈ around
  | .full ref elements => ref ∉ around ∧
    elements = (store.elements ref).toList.map (store.outline (insert ref around))

theorem outline_scalar (plain : ∀ ref, v ≠ .array ref) : store.outline opened v = .scalar v := by
  cases v with
  | array ref => exact absurd rfl (plain ref)
  | _ =>
    rw [outline]
    rintro ref ⟨⟩

theorem outline_inside (inside : ref ∈ opened) :
    store.outline opened (.array ref) = .short ref := by
  rw [outline, dif_pos inside]

theorem outline_fresh (fresh : ref ∉ opened) :
    store.outline opened (.array ref) =
      .full ref ((store.elements ref).toList.map (store.outline (insert ref opened))) := by
  rw [outline, dif_neg fresh]
  simp only [List.map_attach_eq_pmap, List.pmap_eq_map]

theorem text_outline (scalar : Value → String) (opened : Finset ArrayRef) (v : Value) :
    (store.outline opened v).text scalar = store.text scalar opened v := by
  induction opened, v using text.induct store with
  | case1 opened ref inside => rw [outline_inside inside, text_inside inside, Outline.text]
  | case2 opened ref fresh ih =>
    rw [outline_fresh fresh, text_fresh fresh, Outline.text, List.map_map]
    exact congrArg (fun texts => "[" ++ ", ".intercalate texts ++ "]") (List.map_congr_left ih)
  | case3 opened v plain => rw [outline_scalar plain, text_scalar plain, Outline.text]

theorem shows_outline (opened : Finset ArrayRef) (v : Value) :
    store.Shows opened (store.outline opened v) := by
  by_cases plain : ∀ ref, v ≠ .array ref
  · rw [outline_scalar plain]
    exact plain
  · obtain ⟨ref, rfl⟩ := not_forall_not.mp plain
    by_cases inside : ref ∈ opened
    · rw [outline_inside inside]
      exact inside
    · rw [outline_fresh inside]
      exact ⟨inside, rfl⟩

/-- Every part of an outline is itself what is written of a value inside the arrays around it. -/
theorem exists_outline_of_at {around : List ArrayRef} {part : Outline}
    (place : (store.outline ∅ v).At around part) :
    ∃ u, part = store.outline around.toFinset u := by
  induction place with
  | root => exact ⟨v, rfl⟩
  | @element around ref elements part _ member ih =>
    obtain ⟨u, whole⟩ := ih
    have shows := whole ▸ shows_outline around.toFinset u
    obtain ⟨u, -, rfl⟩ := List.mem_map.mp (shows.2 ▸ member)
    exact ⟨u, by rw [List.toFinset_cons]⟩

end Store

/-- The text of a value is that of the recursion on arrays inside arrays, and the loop that takes one
piece at a time, with no bound on its work, ends with this text. In the recursion a value that is no
array has its own text, an array inside itself is `[...]`, and every other array is its elements in
brackets. Seen as a tree, an array is cut short exactly where it is one of the arrays around that
place, and has all its elements wherever it is not. -/
theorem render_writes_text (store : Store) (scalar : Value → String) (v : Value) :
    store.render scalar v = store.text scalar ∅ v ∧
    store.Turns scalar ⟨∅, [.value v], ""⟩ ⟨∅, [], store.text scalar ∅ v⟩ ∧
    (∀ opened u, store.text scalar opened u =
      match u with
      | .array ref =>
        if ref ∈ opened then "[...]"
        else
          "[" ++ ", ".intercalate
            ((store.elements ref).toList.map (store.text scalar (insert ref opened))) ++ "]"
      | u => scalar u) ∧
    (store.outline ∅ v).text scalar = store.text scalar ∅ v ∧
    ∀ around part, (store.outline ∅ v).At around part → store.Shows around.toFinset part := by
  have ends : store.Turns scalar ⟨∅, [.value v], ""⟩ ⟨∅, [], "" ++ store.text scalar ∅ v⟩ :=
    Store.turns_of_value ∅ v [] ""
  rw [String.empty_append] at ends
  refine ⟨?_, ends, fun opened u => ?_, Store.text_outline scalar ∅ v, fun around part place => ?_⟩
  · by_cases plain : ∀ ref, v ≠ .array ref
    · rw [Store.text_scalar plain]
      cases v with
      | array ref => exact absurd rfl (plain ref)
      | _ => rfl
    · obtain ⟨ref, rfl⟩ := not_forall_not.mp plain
      exact Store.writes_of_turns ends ∅ _ Store.keeps_empty (Nat.le_of_eq Store.card_unopened_empty)
  · split
    · split
      · next inside => exact Store.text_inside inside
      · next fresh => exact Store.text_fresh fresh
    · next plain => exact Store.text_scalar plain
  · obtain ⟨u, rfl⟩ := Store.exists_outline_of_at place
    exact Store.shows_outline _ u

end ControlStash
