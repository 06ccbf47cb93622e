/-!
# Stacks

A list with its top first that knows its height. All facts about a stack are facts about `toList`;
the height is there so that the limits of a machine can be checked without walking the list.
-/

namespace ControlStash

/-- A stack, top first, with its height. -/
structure Stack (α : Type) where
  toList : List α
  size : Nat
  size_eq : size = toList.length

namespace Stack

variable {α : Type}

/-- Stacks with the same elements are the same. -/
@[ext]
theorem ext {s t : Stack α} (h : s.toList = t.toList) : s = t := by
  obtain ⟨l, n, hn⟩ := s
  obtain ⟨k, m, hm⟩ := t
  obtain rfl : l = k := h
  obtain rfl : n = m := hn.trans hm.symm
  rfl

/-- The stack of a list, whose head becomes the top. -/
def ofList (l : List α) : Stack α :=
  ⟨l, l.length, rfl⟩

/-- The stack without elements. -/
def empty : Stack α :=
  ⟨[], 0, rfl⟩

instance : Inhabited (Stack α) := ⟨empty⟩

/-- Puts one element on top. -/
def push (s : Stack α) (a : α) : Stack α :=
  ⟨a :: s.toList, s.size + 1, by simp [s.size_eq]⟩

/-- Puts a list on top, whose head becomes the top. -/
def pushAll (s : Stack α) (l : List α) : Stack α :=
  ⟨l ++ s.toList, l.length + s.size, by simp [s.size_eq]⟩

/-- The top and the stack below it. -/
def pop? (s : Stack α) : Option (α × Stack α) :=
  match s with
  | ⟨[], _, _⟩ => none
  | ⟨a :: l, n, h⟩ => some (a, ⟨l, n - 1, by simp_all⟩)

/-- The stack without its `n` topmost elements. -/
def drop (s : Stack α) (n : Nat) : Stack α :=
  ⟨s.toList.drop n, s.size - n, by simp [s.size_eq]⟩

/-- The stack cut down to a height; a lower stack stays as it is. -/
def cutTo (s : Stack α) (height : Nat) : Stack α :=
  s.drop (s.size - height)

/-- The `n` topmost elements, deepest first, and the stack below them; `none` if there are fewer. -/
def popMany? (s : Stack α) (n : Nat) : Option (List α × Stack α) :=
  if n ≤ s.size then some ((s.toList.take n).reverse, s.drop n) else none

@[simp]
theorem toList_ofList (l : List α) : (ofList l).toList = l := rfl

@[simp]
theorem toList_empty : (empty : Stack α).toList = [] := rfl

@[simp]
theorem toList_push (s : Stack α) (a : α) : (s.push a).toList = a :: s.toList := rfl

@[simp]
theorem toList_pushAll (s : Stack α) (l : List α) : (s.pushAll l).toList = l ++ s.toList := rfl

@[simp]
theorem toList_drop (s : Stack α) (n : Nat) : (s.drop n).toList = s.toList.drop n := rfl

@[simp]
theorem size_push (s : Stack α) (a : α) : (s.push a).size = s.size + 1 := rfl

@[simp]
theorem size_pushAll (s : Stack α) (l : List α) : (s.pushAll l).size = l.length + s.size := rfl

@[simp]
theorem size_drop (s : Stack α) (n : Nat) : (s.drop n).size = s.size - n := rfl

@[simp]
theorem size_ofList (l : List α) : (ofList l).size = l.length := rfl

@[simp]
theorem ofList_toList (s : Stack α) : ofList s.toList = s := ext rfl

@[simp]
theorem length_toList (s : Stack α) : s.toList.length = s.size := s.size_eq.symm

@[simp]
theorem push_ofList (l : List α) (a : α) : (ofList l).push a = ofList (a :: l) := rfl

@[simp]
theorem pushAll_ofList (l k : List α) : (ofList l).pushAll k = ofList (k ++ l) := ext rfl

@[simp]
theorem drop_ofList (l : List α) (n : Nat) : (ofList l).drop n = ofList (l.drop n) := ext rfl

@[simp]
theorem pop?_ofList_nil : (ofList ([] : List α)).pop? = none := rfl

@[simp]
theorem pop?_ofList_cons (a : α) (l : List α) : (ofList (a :: l)).pop? = some (a, ofList l) := rfl

/-- The values put on top one after the other come back in the same order. -/
theorem popMany?_ofList (k l : List α) :
    (ofList (k.reverse ++ l)).popMany? k.length = some (k, ofList l) := by
  simp [popMany?]

@[simp]
theorem popMany?_two (a b : α) (l : List α) :
    (ofList (b :: a :: l)).popMany? 2 = some ([a, b], ofList l) :=
  popMany?_ofList [a, b] l

@[simp]
theorem popMany?_three (a b c : α) (l : List α) :
    (ofList (c :: b :: a :: l)).popMany? 3 = some ([a, b, c], ofList l) :=
  popMany?_ofList [a, b, c] l

/-- What is popped lies on top in reverse, and there is as much of it as was asked for. -/
theorem popMany?_eq_some_iff {s t : Stack α} {n : Nat} {k : List α} :
    s.popMany? n = some (k, t) ↔ s.toList = k.reverse ++ t.toList ∧ k.length = n := by
  constructor
  · intro eq
    unfold popMany? at eq
    split at eq
    · next h =>
      simp only [Option.some.injEq, Prod.mk.injEq] at eq
      obtain ⟨rfl, rfl⟩ := eq
      simp only [List.reverse_reverse, toList_drop, List.take_append_drop, List.length_reverse,
        List.length_take, length_toList, true_and]
      omega
    · cases eq
  · rintro ⟨contents, rfl⟩
    obtain rfl : s = ofList (k.reverse ++ t.toList) := ext contents
    simpa using popMany?_ofList k t.toList

/-- Popping fails exactly when there is less than was asked for. -/
theorem popMany?_eq_none_iff {s : Stack α} {n : Nat} : s.popMany? n = none ↔ s.size < n := by
  unfold popMany?
  split <;> simp <;> omega

/-- What is popped was on top. -/
theorem pop?_eq_some_iff {s t : Stack α} {a : α} :
    s.pop? = some (a, t) ↔ s.toList = a :: t.toList := by
  obtain ⟨l, n, h⟩ := s
  cases l with
  | nil => simp [pop?]
  | cons b l =>
    constructor
    · intro eq
      simp only [pop?, Option.some.injEq, Prod.mk.injEq] at eq
      obtain ⟨rfl, rfl⟩ := eq
      rfl
    · intro eq
      obtain ⟨rfl, rfl⟩ := List.cons.inj eq
      simp only [pop?, Option.some.injEq, Prod.mk.injEq, true_and]
      exact ext rfl

/-- Nothing can be popped exactly when there is nothing. -/
theorem pop?_eq_none_iff {s : Stack α} : s.pop? = none ↔ s.toList = [] := by
  obtain ⟨l, n, h⟩ := s
  cases l <;> simp [pop?]

end Stack

end ControlStash
