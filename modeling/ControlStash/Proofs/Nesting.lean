import ControlStash.Proofs.Double
import ControlStash.Proofs.Lexing
import ControlStash.Wire.Decode

/-!
# Nesting

The depth of a value is the greatest number of brackets that are open at once in its text
(`nesting_render`). The reader accepts the tokens of a value exactly if this number is within its
limit (`read_tokens`, `read_root`), and whatever it accepts is a value within the limit whose
doubles are finite (`fits_of_scan`).

Programs are read with an eye on the tag of the root. If the root has a single tag and this is a
string, nothing is objected to (`Untroubled`).
-/

namespace ControlStash.Json

/-! ## Depth and numbers of a value -/

mutual

/-- The greatest number of containers around a part of a value, the value itself included. -/
def depth : Json → Nat
  | .null => 0
  | .bool _ => 0
  | .number _ => 0
  | .string _ => 0
  | .array elements => depthAll elements + 1
  | .object members => depthMembers members + 1

/-- The greatest depth among values. -/
def depthAll : List Json → Nat
  | [] => 0
  | value :: values => max value.depth (depthAll values)

/-- The greatest depth among the values of members. -/
def depthMembers : List (String × Json) → Nat
  | [] => 0
  | (_, value) :: members => max value.depth (depthMembers members)

end

mutual

/-- The numbers in a value. -/
def numbers : Json → List Number
  | .null => []
  | .bool _ => []
  | .number n => [n]
  | .string _ => []
  | .array elements => numbersAll elements
  | .object members => numbersMembers members

/-- The numbers in a list of values. -/
def numbersAll : List Json → List Number
  | [] => []
  | value :: values => value.numbers ++ numbersAll values

/-- The numbers in the values of members. -/
def numbersMembers : List (String × Json) → List Number
  | [] => []
  | (_, value) :: members => value.numbers ++ numbersMembers members

end

theorem depthAll_le_iff {values : List Json} {n : Nat} :
    depthAll values ≤ n ↔ ∀ value ∈ values, value.depth ≤ n := by
  induction values with
  | nil => simp [depthAll]
  | cons value values ih => rw [depthAll, Nat.max_le, ih, List.forall_mem_cons]

theorem depthMembers_le_iff {members : List (String × Json)} {n : Nat} :
    depthMembers members ≤ n ↔ ∀ m ∈ members, m.2.depth ≤ n := by
  induction members with
  | nil => simp [depthMembers]
  | cons m members ih => rw [depthMembers, Nat.max_le, ih, List.forall_mem_cons]

theorem mem_numbersAll {values : List Json} {n : Number} :
    n ∈ numbersAll values ↔ ∃ value ∈ values, n ∈ value.numbers := by
  induction values with
  | nil => simp [numbersAll]
  | cons value values ih => simp [numbersAll, ih]

theorem mem_numbersMembers {members : List (String × Json)} {n : Number} :
    n ∈ numbersMembers members ↔ ∃ m ∈ members, n ∈ m.2.numbers := by
  induction members with
  | nil => simp [numbersMembers]
  | cons m members ih => simp [numbersMembers, ih]

/-! ## Brackets of a text -/

/-- The number of open brackets after a token. -/
def Token.opened (count : Nat) : Token → Nat
  | .openBrace => count + 1
  | .openBracket => count + 1
  | .closeBrace => count - 1
  | .closeBracket => count - 1
  | _ => count

/-- The greatest number of brackets that are open at once, with `count` of them open before the
first token. -/
def Token.deepest (count : Nat) : List Token → Nat
  | [] => count
  | token :: tokens => max count (deepest (token.opened count) tokens)

/-- The greatest number of brackets that are open at once in a text. Those inside strings do not
count. -/
def nesting (text : String) : Nat :=
  Token.deepest 0 (Token.scan text.toList)

theorem le_deepest (count : Nat) (tokens : List Token) : count ≤ Token.deepest count tokens := by
  cases tokens with
  | nil => exact Nat.le_refl _
  | cons token tokens => exact Nat.le_max_left _ _

mutual

theorem deepest_tokens (value : Json) (count : Nat) (rest : List Token) :
    Token.deepest count (value.tokens rest) =
      max (count + value.depth) (Token.deepest count rest) := by
  have least := le_deepest count rest
  match value with
  | .null | .bool _ | .number _ | .string _ | .array [] | .object [] =>
    simp only [tokens, elementTokens, memberTokens, Token.deepest, Token.opened,
      Nat.add_sub_cancel, depth, depthAll, depthMembers]
    omega
  | .array (value :: elements) =>
    simp only [tokens, elementTokens, Token.deepest, Token.opened, deepest_tokens value,
      deepest_moreElementTokens elements, Nat.add_sub_cancel, depth, depthAll]
    omega
  | .object ((_, value) :: members) =>
    simp only [tokens, memberTokens, Token.deepest, Token.opened, deepest_tokens value,
      deepest_moreMemberTokens members, Nat.add_sub_cancel, depth, depthMembers]
    omega

theorem deepest_moreElementTokens (elements : List Json) (count : Nat) (rest : List Token) :
    Token.deepest count (moreElementTokens elements rest) =
      max (count + depthAll elements) (Token.deepest count rest) := by
  have least := le_deepest count rest
  match elements with
  | [] =>
    simp only [moreElementTokens, depthAll]
    omega
  | value :: elements =>
    simp only [moreElementTokens, Token.deepest, Token.opened, deepest_tokens value,
      deepest_moreElementTokens elements, depthAll]
    omega

theorem deepest_moreMemberTokens (members : List (String × Json)) (count : Nat)
    (rest : List Token) :
    Token.deepest count (moreMemberTokens members rest) =
      max (count + depthMembers members) (Token.deepest count rest) := by
  have least := le_deepest count rest
  match members with
  | [] =>
    simp only [moreMemberTokens, depthMembers]
    omega
  | (_, value) :: members =>
    simp only [moreMemberTokens, Token.deepest, Token.opened, deepest_tokens value,
      deepest_moreMemberTokens members, depthMembers]
    omega

end

/-! ## Printing and cutting -/

/-- Tokens whose text is cut into the same tokens again. -/
structure Legible (tokens : List Token) : Prop where
  readsBack : ∀ t ∈ tokens, t.ReadsBack
  apart : tokens.IsChain Token.Parts

/-- What may follow a value, a number in particular. -/
def Follows (tokens : List Token) : Prop :=
  ∀ t ∈ tokens.head?, t = .comma ∨ t = .closeBracket ∨ t = .closeBrace

theorem legible_nil : Legible [] :=
  ⟨nofun, .nil⟩

theorem follows_nil : Follows [] :=
  nofun

theorem follows_moreElementTokens (elements : List Json) (rest : List Token) :
    Follows (moreElementTokens elements (.closeBracket :: rest)) := by
  intro t first
  cases elements <;> cases first <;> simp

theorem follows_moreMemberTokens (members : List (String × Json)) (rest : List Token) :
    Follows (moreMemberTokens members (.closeBrace :: rest)) := by
  intro t first
  cases members <;> cases first <;> simp

/-- Whether a token is neither a number nor something unreadable. -/
def Token.isPlain : Token → Bool
  | .number _ => false
  | .unreadable => false
  | _ => true

section

variable {rest : List Token}

theorem Legible.number {n : Number} (legible : Legible rest) (readsBack : n.ReadsBack)
    (follows : Follows rest) : Legible (.number n :: rest) :=
  ⟨List.forall_mem_cons.mpr ⟨readsBack, legible.readsBack⟩,
    List.isChain_cons.mpr ⟨fun next first _ => follows next first, legible.apart⟩⟩

theorem Legible.plain (legible : Legible rest) (t : Token) (plain : t.isPlain = true) :
    Legible (t :: rest) := by
  have readsBack : t.ReadsBack := by cases t <;> trivial
  have apart : ∀ next, Token.Parts t next := by
    rintro next ⟨n, rfl⟩
    cases plain
  exact ⟨List.forall_mem_cons.mpr ⟨readsBack, legible.readsBack⟩,
    List.isChain_cons.mpr ⟨fun next _ => apart next, legible.apart⟩⟩

theorem Legible.key (legible : Legible rest) (key : String) :
    Legible (.string key :: .colon :: rest) :=
  (legible.plain .colon rfl).plain (.string key) rfl

end

mutual

theorem legible_tokens (value : Json) {rest : List Token}
    (readsBack : ∀ n ∈ value.numbers, n.ReadsBack) (follows : Follows rest)
    (legible : Legible rest) : Legible (value.tokens rest) := by
  match value with
  | .number n => exact legible.number (readsBack n (List.mem_singleton_self n)) follows
  | .null | .bool _ | .string _ => exact legible.plain _ rfl
  | .array [] | .object [] => exact (legible.plain _ rfl).plain _ rfl
  | .array (value :: elements) =>
    obtain ⟨first, others⟩ := List.forall_mem_append.mp readsBack
    have more := legible_moreElementTokens elements others (legible.plain .closeBracket rfl)
    exact (legible_tokens value first (follows_moreElementTokens _ _) more).plain _ rfl
  | .object ((key, value) :: members) =>
    obtain ⟨first, others⟩ := List.forall_mem_append.mp readsBack
    have more := legible_moreMemberTokens members others (legible.plain .closeBrace rfl)
    have first := legible_tokens value first (follows_moreMemberTokens _ _) more
    exact (first.key key).plain _ rfl

theorem legible_moreElementTokens (elements : List Json) {rest : List Token}
    (readsBack : ∀ n ∈ numbersAll elements, n.ReadsBack)
    (legible : Legible (.closeBracket :: rest)) :
    Legible (moreElementTokens elements (.closeBracket :: rest)) := by
  match elements with
  | [] => exact legible
  | value :: elements =>
    obtain ⟨first, others⟩ := List.forall_mem_append.mp readsBack
    have more := legible_moreElementTokens elements others legible
    exact (legible_tokens value first (follows_moreElementTokens _ _) more).plain _ rfl

theorem legible_moreMemberTokens (members : List (String × Json)) {rest : List Token}
    (readsBack : ∀ n ∈ numbersMembers members, n.ReadsBack)
    (legible : Legible (.closeBrace :: rest)) :
    Legible (moreMemberTokens members (.closeBrace :: rest)) := by
  match members with
  | [] => exact legible
  | (key, value) :: members =>
    obtain ⟨first, others⟩ := List.forall_mem_append.mp readsBack
    have more := legible_moreMemberTokens members others legible
    have first := legible_tokens value first (follows_moreMemberTokens _ _) more
    exact (first.key key).plain _ rfl

end

/-- The compact text of a value is cut into the tokens of the value. -/
theorem scan_render {value : Json} (readsBack : ∀ n ∈ value.numbers, n.ReadsBack) :
    Token.scan value.render.toList = value.tokens [] := by
  obtain ⟨readsBack, apart⟩ := legible_tokens value readsBack follows_nil legible_nil
  rw [render, String.toList_ofList, scan_text readsBack apart]

/-- The depth of a value is the nesting of its text. -/
theorem nesting_render {value : Json} (readsBack : ∀ n ∈ value.numbers, n.ReadsBack) :
    nesting value.render = value.depth := by
  rw [nesting, scan_render readsBack, deepest_tokens]
  simp [Token.deepest]

/-! ## Members under a key -/

/-- The values of the members with a given key, in order. -/
def valuesAt (key : String) (members : List (String × Json)) : List Json :=
  (members.filter (·.1 = key)).map (·.2)

section

variable {key name : String} {value : Json} {members : List (String × Json)}

@[simp]
theorem valuesAt_cons_self :
    valuesAt key ((key, value) :: members) = value :: valuesAt key members := by
  simp [valuesAt]

theorem valuesAt_cons_of_ne (ne : name ≠ key) :
    valuesAt key ((name, value) :: members) = valuesAt key members := by
  simp [valuesAt, ne]

theorem lookup_of_valuesAt (absent : valuesAt key members = []) : members.lookup key = none := by
  induction members with
  | nil => rfl
  | cons m members ih =>
    obtain ⟨name, value⟩ := m
    by_cases same : name = key
    · subst same
      rw [valuesAt_cons_self] at absent
      cases absent
    · rw [valuesAt_cons_of_ne same] at absent
      rw [List.lookup_cons, ih absent, beq_false_of_ne (Ne.symm same)]

end

/-! ## Runs of the reader -/

section

variable {ε : Type} {object? : State → Token → Option ε} {state next : State} {token : Token}
  {tokens : List Token}

theorem readWith_step (calm : object? state token = none) (step : state.step token = some next) :
    readWith object? state (token :: tokens) = readWith object? next tokens := by
  cases state with
  | complete => cases step
  | _ => simp only [readWith, calm, step]

theorem readWith_stuck (calm : object? state token = none) (step : state.step token = none)
    (incomplete : ∀ value, state ≠ .complete value) :
    readWith object? state (token :: tokens) = .error .syntaxError := by
  cases state with
  | complete value => exact absurd rfl (incomplete value)
  | _ => simp only [readWith, calm, step]

end

/-! ## What the reader accepts

A value that is read stands in a certain number of open containers; with its own depth this is
within the limit, and its numbers are those of the tokens. -/

/-- A value has room in `level` open containers, and its doubles are finite. -/
structure Fits (level : Nat) (value : Json) : Prop where
  depth : level + value.depth ≤ maxOpen
  isFinite : ∀ n ∈ value.numbers, n.isFinite = true

theorem Fits.array {level : Nat} {elements : List Json} (room : level < maxOpen)
    (fit : ∀ value ∈ elements, Fits (level + 1) value) : Fits level (.array elements) := by
  have inside : depthAll elements ≤ maxOpen - (level + 1) :=
    depthAll_le_iff.mpr fun value among => by have := (fit value among).depth; omega
  refine ⟨by rw [Json.depth]; omega, fun n among => ?_⟩
  obtain ⟨value, among, number⟩ := mem_numbersAll.mp among
  exact (fit value among).isFinite n number

theorem Fits.object {level : Nat} {members : List (String × Json)} (room : level < maxOpen)
    (fit : ∀ m ∈ members, Fits (level + 1) m.2) : Fits level (.object members) := by
  have inside : depthMembers members ≤ maxOpen - (level + 1) :=
    depthMembers_le_iff.mpr fun m among => by have := (fit m among).depth; omega
  refine ⟨by rw [Json.depth]; omega, fun n among => ?_⟩
  obtain ⟨m, among, number⟩ := mem_numbersMembers.mp among
  exact (fit m among).isFinite n number

/-- The finished values of a container that waits for another. -/
def Pending.values : Pending → List Json
  | .element done => done
  | .member done _ => done.map (·.2)

/-- The finished values of open containers fit where they stand. -/
def PendingFit : List Pending → Prop
  | [] => True
  | p :: pending => (∀ value ∈ p.values, Fits (pending.length + 1) value) ∧ PendingFit pending

/-- The containers that are open in a state. -/
def State.pending : State → List Pending
  | .value pending => pending
  | .firstElement pending => .element [] :: pending
  | .afterElement done pending => .element done :: pending
  | .firstKey pending => .member [] "" :: pending
  | .key done pending => .member done "" :: pending
  | .colon done name pending => .member done name :: pending
  | .afterMember done pending => .member done "" :: pending
  | .complete _ => []

/-- The values of a state fit where they stand. -/
structure State.Fit (state : State) : Prop where
  room : state.pending.length ≤ maxOpen
  values : PendingFit state.pending
  complete : ∀ value, state = .complete value → Fits 0 value

theorem State.fit_give {value : Json} {pending : List Pending} (room : pending.length ≤ maxOpen)
    (values : PendingFit pending) (fits : Fits pending.length value) :
    (State.give value pending).Fit := by
  cases pending with
  | nil => exact ⟨room, values, fun _ eq => State.complete.inj eq ▸ fits⟩
  | cons p pending =>
    obtain ⟨inner, outer⟩ := values
    cases p with
    | element done => exact ⟨room, ⟨List.forall_mem_cons.mpr ⟨fits, inner⟩, outer⟩, nofun⟩
    | member done name => exact ⟨room, ⟨List.forall_mem_cons.mpr ⟨fits, inner⟩, outer⟩, nofun⟩

theorem State.fit_stepValue {pending : List Pending} {token : Token} {next : State}
    (room : pending.length ≤ maxOpen) (values : PendingFit pending)
    (isFinite : ∀ n, token = .number n → n.isFinite = true)
    (step : State.stepValue pending token = some next) : next.Fit := by
  revert step
  fun_cases State.stepValue pending token <;> intro step
  case case3 n =>
    cases step
    exact fit_give room values ⟨room, fun m among => List.mem_singleton.mp among ▸ isFinite n rfl⟩
  case case1 | case2 | case4 =>
    cases step
    exact fit_give room values ⟨room, nofun⟩
  case case5 | case7 =>
    cases step
    exact ⟨by assumption, ⟨nofun, values⟩, nofun⟩
  case case6 | case8 | case9 => cases step

section

variable {pending : List Pending}

theorem State.fit_give_array {done : List Json}
    (room : (Pending.element done :: pending).length ≤ maxOpen)
    (values : PendingFit (.element done :: pending)) :
    (State.give (.array done.reverse) pending).Fit :=
  fit_give (Nat.le_of_lt room) values.2
    (Fits.array room fun value among => values.1 value (List.mem_reverse.mp among))

theorem State.fit_give_object {done : List (String × Json)} {name : String}
    (room : (Pending.member done name :: pending).length ≤ maxOpen)
    (values : PendingFit (.member done name :: pending)) :
    (State.give (.object done.reverse) pending).Fit :=
  fit_give (Nat.le_of_lt room) values.2
    (Fits.object room fun _ among =>
      values.1 _ (List.mem_map_of_mem (List.mem_reverse.mp among)))

end

/-- Every step keeps the values within the limit. -/
theorem State.Fit.step {state next : State} {token : Token} (fit : state.Fit)
    (isFinite : ∀ n, token = .number n → n.isFinite = true) (step : state.step token = some next) :
    next.Fit := by
  obtain ⟨room, values, -⟩ := fit
  revert step
  fun_cases State.step state token <;> intro step
  case case1 | case3 => exact fit_stepValue room values isFinite step
  case case2 | case5 =>
    cases step
    exact fit_give_array room values
  case case6 | case11 =>
    cases step
    exact fit_give_object room values
  case case4 | case7 | case8 | case9 | case10 =>
    cases step
    exact ⟨room, values, nofun⟩
  case case12 => cases step

theorem fits_of_readWith {ε : Type} {object? : State → Token → Option ε} {state : State}
    {tokens rest : List Token} {value : Json} (fit : state.Fit)
    (isFinite : ∀ n, .number n ∈ tokens → n.isFinite = true)
    (read : readWith object? state tokens = .ok (value, rest)) : Fits 0 value := by
  fun_induction readWith object? state tokens with
  | case1 value' tokens =>
    cases read
    exact fit.complete value rfl
  | case2 | case3 | case4 => cases read
  | case5 state token tokens _ _ next step ih =>
    have next := fit.step (fun n eq => isFinite n (eq ▸ List.mem_cons_self)) step
    exact ih next (fun n among => isFinite n (List.mem_cons_of_mem _ among)) read

/-- A value that is read from a text is within the limit, and its doubles are finite. -/
theorem fits_of_scan {ε : Type} {object? : State → Token → Option ε} {cs : List Char}
    {rest : List Token} {value : Json}
    (read : readWith object? .start (Token.scan cs) = .ok (value, rest)) : Fits 0 value := by
  have start : State.start.Fit := ⟨Nat.zero_le _, trivial, nofun⟩
  exact fits_of_readWith start (fun _ => isFinite_scan) read

end ControlStash.Json

namespace ControlStash.Wire

open Json

/-! ## Reading the tokens of a value -/

/-- Reading a program, from some state on. -/
abbrev readOn : State → List Token → Except (Stop Complaint) (Json × List Token) :=
  readWith objectToRoot?

section

variable {pending : List Pending} {rest : List Token}

/-- The first element of an array is read like the others. -/
theorem readOn_firstElement (value : Json) (nested : pending ≠ []) :
    readOn (.firstElement pending) (value.tokens rest) =
      readOn (.value (.element [] :: pending)) (value.tokens rest) := by
  cases pending with
  | nil => exact absurd rfl nested
  | cons p pending => cases value <;> rfl

/-- An opening bracket is read where there is room for one more container. -/
theorem readOn_bracket {bracket : Token} {first : State}
    (calm : objectToRoot? (.value pending) bracket = none)
    (opens : State.step (.value pending) bracket =
      if pending.length < maxOpen then some first else none) :
    readOn (.value pending) (bracket :: rest) =
      if pending.length < maxOpen then readOn first rest else .error .syntaxError := by
  split
  · next room => exact readWith_step calm (opens.trans (if_pos room))
  · next full => exact readWith_stuck calm (opens.trans (if_neg full)) nofun

/-- Reading one value and then others, each only if there is room for it. -/
theorem room_and {room depth others : Nat} {α : Type} {read stop : α} :
    (if room + depth ≤ maxOpen then if room + others ≤ maxOpen then read else stop else stop) =
      if room + max depth others ≤ maxOpen then read else stop := by
  rw [← ite_and]
  exact if_congr (by omega) rfl rfl

/-- What is still to come of an object does not trouble a reader that looks at the tag of the root:
no tag, or one that is a string if there was none before. -/
def Untroubled (done members : List (String × Json)) : Prop :=
  valuesAt tagKey members = [] ∨
    valuesAt tagKey done = [] ∧ ∃ s, valuesAt tagKey members = [.string s]

section

variable {done members : List (String × Json)} {key : String} {value : Json}

theorem Untroubled.first (calm : Untroubled done ((tagKey, value) :: members)) :
    valuesAt tagKey done = [] ∧ (∃ s, value = .string s) ∧ valuesAt tagKey members = [] := by
  unfold Untroubled at calm
  rw [valuesAt_cons_self] at calm
  rcases calm with none | ⟨first, s, only⟩
  · cases none
  · obtain ⟨rfl, others⟩ := List.cons.inj only
    exact ⟨first, ⟨s, rfl⟩, others⟩

theorem Untroubled.others (calm : Untroubled done ((key, value) :: members)) :
    Untroubled ((key, value) :: done) members := by
  by_cases isTag : key = tagKey
  · subst isTag
    exact .inl calm.first.2.2
  · unfold Untroubled at calm ⊢
    rwa [valuesAt_cons_of_ne isTag] at calm ⊢

/-- A key is objected to only if it is a second tag of the root. -/
theorem Untroubled.calm_key (calm : pending = [] → Untroubled done ((key, value) :: members)) :
    objectToRoot? (.key done pending) (.string key) = none := by
  cases pending with
  | cons p pending => rfl
  | nil =>
    refine if_neg fun ⟨isTag, again⟩ => ?_
    subst isTag
    rw [lookup_of_valuesAt (calm rfl).first.1] at again
    cases again

/-- The value of a member is objected to only if it is the tag of the root and no string. -/
theorem Untroubled.calm_value (calm : pending = [] → Untroubled done ((key, value) :: members)) :
    ∀ t ∈ (value.tokens []).head?,
      objectToRoot? (.value (.member done key :: pending)) t = none := by
  intro t start
  cases pending with
  | cons p pending => rfl
  | nil =>
    by_cases isTag : key = tagKey
    · subst isTag
      obtain ⟨s, rfl⟩ := (calm rfl).first.2.1
      cases start
      simp only [objectToRoot?, objectToTag?, if_true]
    · exact if_neg isTag

end

mutual

/-- Below the root the tokens of a value are read as this value, if there is room for its
containers. The first of them must not be objected to, where it belongs to the tag of the root. -/
theorem read_tokens (value : Json) (pending : List Pending) (rest : List Token)
    (nested : pending ≠ []) (room : pending.length ≤ maxOpen)
    (calm : ∀ t ∈ (value.tokens []).head?, objectToRoot? (.value pending) t = none) :
    readOn (.value pending) (value.tokens rest) =
      if pending.length + value.depth ≤ maxOpen then readOn (State.give value pending) rest
      else .error .syntaxError := by
  match value with
  | .null | .bool _ | .number _ | .string _ =>
    rw [depth, Nat.add_zero, if_pos room]
    exact readWith_step (calm _ rfl) rfl
  | .array elements =>
    rw [tokens, readOn_bracket (calm _ rfl) rfl, depth]
    split
    · next room =>
      rw [read_elementTokens elements pending rest nested room, Nat.add_right_comm, Nat.add_assoc]
    · next full => rw [if_neg (by omega)]
  | .object members =>
    rw [tokens, readOn_bracket (calm _ rfl) rfl, depth]
    split
    · next room =>
      rw [read_memberTokens members pending rest room fun root => absurd root nested,
        Nat.add_right_comm, Nat.add_assoc]
    · next full => rw [if_neg (by omega)]

/-- The elements of an array below the root are read one by one, up to its end. -/
theorem read_elementTokens (elements : List Json) (pending : List Pending) (rest : List Token)
    (nested : pending ≠ []) (room : pending.length < maxOpen) :
    readOn (.firstElement pending) (elementTokens elements (.closeBracket :: rest)) =
      if pending.length + 1 + depthAll elements ≤ maxOpen then
        readOn (State.give (.array elements) pending) rest
      else .error .syntaxError := by
  match elements with
  | [] =>
    rw [depthAll, if_pos (by omega)]
    cases pending with
    | nil => exact absurd rfl nested
    | cons p pending => exact readWith_step rfl rfl
  | value :: elements =>
    have first := read_tokens value (.element [] :: pending)
      (moreElementTokens elements (.closeBracket :: rest)) nofun room (fun _ _ => rfl)
    have others := read_moreElementTokens elements [value] pending rest room
    calc readOn (.firstElement pending)
          (value.tokens (moreElementTokens elements (.closeBracket :: rest)))
        = readOn (.value (.element [] :: pending))
            (value.tokens (moreElementTokens elements (.closeBracket :: rest))) :=
          readOn_firstElement value nested
      _ = _ := first
      _ = _ := if_congr Iff.rfl others rfl
      _ = _ := room_and

/-- The elements of an array after the first are read one by one, up to its end. -/
theorem read_moreElementTokens (elements done : List Json) (pending : List Pending)
    (rest : List Token) (room : pending.length < maxOpen) :
    readOn (.afterElement done pending) (moreElementTokens elements (.closeBracket :: rest)) =
      if pending.length + 1 + depthAll elements ≤ maxOpen then
        readOn (State.give (.array (done.reverse ++ elements)) pending) rest
      else .error .syntaxError := by
  match elements with
  | [] =>
    rw [depthAll, if_pos (by omega), List.append_nil]
    exact readWith_step rfl rfl
  | value :: elements =>
    have first := read_tokens value (.element done :: pending)
      (moreElementTokens elements (.closeBracket :: rest)) nofun room (fun _ _ => rfl)
    have others := read_moreElementTokens elements (value :: done) pending rest room
    rw [List.reverse_cons, List.append_assoc, List.singleton_append] at others
    calc readOn (.afterElement done pending)
          (.comma :: value.tokens (moreElementTokens elements (.closeBracket :: rest)))
        = readOn (.value (.element done :: pending))
            (value.tokens (moreElementTokens elements (.closeBracket :: rest))) :=
          readWith_step rfl rfl
      _ = _ := first
      _ = _ := if_congr Iff.rfl others rfl
      _ = _ := room_and

/-- The members of an object are read one by one, up to its end. -/
theorem read_memberTokens (members : List (String × Json)) (pending : List Pending)
    (rest : List Token) (room : pending.length < maxOpen)
    (calm : pending = [] → Untroubled [] members) :
    readOn (.firstKey pending) (memberTokens members (.closeBrace :: rest)) =
      if pending.length + 1 + depthMembers members ≤ maxOpen then
        readOn (State.give (.object members) pending) rest
      else .error .syntaxError := by
  match members with
  | [] =>
    rw [depthMembers, if_pos (by omega)]
    exact readWith_step rfl rfl
  | (key, value) :: members =>
    have first := read_tokens value (.member [] key :: pending)
      (moreMemberTokens members (.closeBrace :: rest)) nofun room (Untroubled.calm_value calm)
    have others := read_moreMemberTokens members [(key, value)] pending rest room
      fun root => (calm root).others
    calc readOn (.firstKey pending) (.string key :: .colon ::
          value.tokens (moreMemberTokens members (.closeBrace :: rest)))
        = readOn (.colon [] key pending) (.colon ::
            value.tokens (moreMemberTokens members (.closeBrace :: rest))) :=
          readWith_step rfl rfl
      _ = readOn (.value (.member [] key :: pending))
            (value.tokens (moreMemberTokens members (.closeBrace :: rest))) :=
          readWith_step rfl rfl
      _ = _ := first
      _ = _ := if_congr Iff.rfl others rfl
      _ = _ := room_and

/-- The members of an object after the first are read one by one, up to its end. -/
theorem read_moreMemberTokens (members done : List (String × Json)) (pending : List Pending)
    (rest : List Token) (room : pending.length < maxOpen)
    (calm : pending = [] → Untroubled done members) :
    readOn (.afterMember done pending) (moreMemberTokens members (.closeBrace :: rest)) =
      if pending.length + 1 + depthMembers members ≤ maxOpen then
        readOn (State.give (.object (done.reverse ++ members)) pending) rest
      else .error .syntaxError := by
  match members with
  | [] =>
    rw [depthMembers, if_pos (by omega), List.append_nil]
    exact readWith_step rfl rfl
  | (key, value) :: members =>
    have first := read_tokens value (.member done key :: pending)
      (moreMemberTokens members (.closeBrace :: rest)) nofun room (Untroubled.calm_value calm)
    have others := read_moreMemberTokens members ((key, value) :: done) pending rest room
      fun root => (calm root).others
    rw [List.reverse_cons, List.append_assoc, List.singleton_append] at others
    calc readOn (.afterMember done pending) (.comma :: .string key :: .colon ::
          value.tokens (moreMemberTokens members (.closeBrace :: rest)))
        = readOn (.key done pending) (.string key :: .colon ::
            value.tokens (moreMemberTokens members (.closeBrace :: rest))) :=
          readWith_step rfl rfl
      _ = readOn (.colon done key pending) (.colon ::
            value.tokens (moreMemberTokens members (.closeBrace :: rest))) :=
          readWith_step (Untroubled.calm_key calm) rfl
      _ = readOn (.value (.member done key :: pending))
            (value.tokens (moreMemberTokens members (.closeBrace :: rest))) :=
          readWith_step rfl rfl
      _ = _ := first
      _ = _ := if_congr Iff.rfl others rfl
      _ = _ := room_and

end

end

/-- A value with at most one tag, which is a string: an object with such members, or an array that
starts with a string. -/
def SingleTag : Json → Prop
  | .object members => Untroubled [] members
  | .array (.string _ :: _) => True
  | _ => False

/-- The tokens of a value with a single tag are read as this value if its depth is within the limit,
and are no value to the reader otherwise. -/
theorem read_root {value : Json} (single : SingleTag value) :
    readOn .start (value.tokens []) =
      if value.depth ≤ maxOpen then .ok (value, []) else .error .syntaxError := by
  have room : List.length ([] : List Pending) < maxOpen := by decide
  unfold SingleTag at single
  split at single
  · next members =>
    have read := read_memberTokens members [] [] room fun _ => single
    rw [List.length_nil, Nat.zero_add, Nat.add_comm] at read
    exact (readWith_step rfl rfl).trans read
  · next tag elements =>
    have read := read_moreElementTokens elements [.string tag] [] [] room
    rw [List.length_nil, Nat.zero_add, Nat.add_comm] at read
    calc readOn .start (.openBracket :: .string tag ::
          moreElementTokens elements [.closeBracket])
        = readOn (.firstElement []) (.string tag :: moreElementTokens elements [.closeBracket]) :=
          readWith_step rfl rfl
      _ = readOn (.afterElement [.string tag] []) (moreElementTokens elements [.closeBracket]) :=
          readWith_step rfl rfl
      _ = _ := read
      _ = _ := if_congr (by simp only [depth, depthAll, Nat.zero_max]) rfl rfl
  · exact single.elim

end ControlStash.Wire
