import Mathlib.Data.List.Chain
import Mathlib.Data.List.TakeWhile
import ControlStash.Json.Writer

/-!
# Tokens that are printed and read back

The text of a token is read back as this token, whatever follows it, if the text does not run into
the next one. Only numbers can do that: a number ends where a character stands that does not
continue it (`Ends`).

The digits of integers read back (`readsBack_natural`, `readsBack_negative`), and so do the escapes
of strings. Of a double it depends on the double: its text has the digits that stand for it exactly,
but reading rounds twice.
-/

namespace ControlStash.Json

/-! ## Numbers that are followed by something else -/

/-- Whether a character after a number belongs to the number. -/
def continues (c : Char) : Bool :=
  c.isDigit || c == '.' || c == 'e' || c == 'E'

/-- A number that stands before `rest` ends there. -/
def Ends (rest : List Char) : Prop :=
  ∀ c ∈ rest.head?, continues c = false

theorem ends_nil : Ends [] :=
  nofun

theorem ends_cons {c : Char} {rest : List Char} (ends : continues c = false) : Ends (c :: rest) :=
  fun _ head => Option.some.inj head ▸ ends

section

variable {cs rest after : List Char}

theorem Ends.takeWhile_append (ends : Ends rest) :
    (cs ++ rest).takeWhile Char.isDigit = cs.takeWhile Char.isDigit := by
  induction cs with
  | nil =>
    cases rest with
    | nil => rfl
    | cons c rest =>
      have last := ends c rfl
      simp [continues] at last
      simp [last]
  | cons c cs ih =>
    simp only [List.cons_append, List.takeWhile_cons, ih]

theorem Ends.dropWhile_append (ends : Ends rest) :
    (cs ++ rest).dropWhile Char.isDigit = cs.dropWhile Char.isDigit ++ rest := by
  have whole := List.takeWhile_append_dropWhile (p := Char.isDigit) (l := cs ++ rest)
  have part := List.takeWhile_append_dropWhile (p := Char.isDigit) (l := cs)
  rw [ends.takeWhile_append] at whole
  refine List.append_cancel_left (whole.trans ?_)
  rw [← List.append_assoc, part]

theorem Ends.digits (ends : Ends rest) {ds : List Char}
    (read : scanDigits? cs = some (ds, after)) :
    scanDigits? (cs ++ rest) = some (ds, after ++ rest) := by
  unfold scanDigits? at read ⊢
  rw [ends.takeWhile_append, ends.dropWhile_append]
  split at read
  · cases read
  · cases read
    rfl

theorem Ends.whole (ends : Ends rest) {ds : List Char}
    (read : scanWhole? cs = some (ds, after)) :
    scanWhole? (cs ++ rest) = some (ds, after ++ rest) := by
  unfold scanWhole? at read
  split at read
  · cases read
  · next plain =>
    unfold scanWhole?
    rw [ends.digits read]
    split
    · next zero => cases zero; exact absurd read (plain _ _ _)
    · rfl

theorem Ends.fraction (ends : Ends rest) {f : Option (List Char)}
    (read : scanFraction? cs = some (f, after)) :
    scanFraction? (cs ++ rest) = some (f, after ++ rest) := by
  unfold scanFraction? at read
  split at read
  · next cs =>
    obtain ⟨⟨ds, after'⟩, digits, eq⟩ := Option.map_eq_some_iff.mp read
    cases eq
    show (scanDigits? (cs ++ rest)).map _ = _
    rw [ends.digits digits]
    rfl
  · next none =>
    cases read
    unfold scanFraction?
    split
    · next point =>
      cases cs with
      | nil =>
        rw [List.nil_append] at point
        exact absurd (ends '.' (point ▸ rfl)) (by decide)
      | cons c cs => cases point; exact absurd rfl (none _)
    · rfl

theorem scanSign_append (solid : cs ≠ []) :
    scanSign (cs ++ rest) = ((scanSign cs).1, (scanSign cs).2 ++ rest) := by
  cases cs with
  | nil => exact absurd rfl solid
  | cons c cs => simp only [List.cons_append, scanSign]; split <;> simp_all

/-- The digits of an exponent, after its sign. -/
theorem Ends.signedDigits (ends : Ends rest) {ds : List Char}
    (read : scanDigits? (scanSign cs).2 = some (ds, after)) :
    (scanSign (cs ++ rest)).1 = (scanSign cs).1 ∧
      scanDigits? (scanSign (cs ++ rest)).2 = some (ds, after ++ rest) := by
  have solid : cs ≠ [] := by
    rintro rfl
    cases read
  rw [scanSign_append solid]
  exact ⟨rfl, ends.digits read⟩

theorem Ends.exponent (ends : Ends rest) {e : Option (Bool × List Char)}
    (read : scanExponent? cs = some (e, after)) :
    scanExponent? (cs ++ rest) = some (e, after ++ rest) := by
  revert read
  fun_cases scanExponent? cs with
  | case1 cs | case2 cs =>
    intro read
    obtain ⟨⟨ds, after'⟩, digits, eq⟩ := Option.map_eq_some_iff.mp read
    cases eq
    obtain ⟨sign, digits⟩ := ends.signedDigits digits
    show (scanDigits? (scanSign (cs ++ rest)).2).map
      (fun r => (some ((scanSign (cs ++ rest)).1, r.1), r.2)) = _
    rw [digits, sign]
    rfl
  | case3 cs lower upper =>
    intro read
    cases read
    cases cs with
    | nil =>
      rw [List.nil_append]
      unfold scanExponent?
      split
      · exact absurd (ends 'e' rfl) (by decide)
      · exact absurd (ends 'E' rfl) (by decide)
      · rfl
    | cons c cs =>
      unfold scanExponent?
      split
      · next eq => cases eq; exact absurd rfl (lower _)
      · next eq => cases eq; exact absurd rfl (upper _)
      · rfl

theorem Ends.unsigned (ends : Ends rest) {negative : Bool} {n : Number}
    (read : scanUnsigned? negative cs = some (n, after)) :
    scanUnsigned? negative (cs ++ rest) = some (n, after ++ rest) := by
  unfold scanUnsigned? at read ⊢
  split at read
  · cases read
  next whole =>
  split at read
  · cases read
  next fraction =>
  split at read
  · cases read
  next exponent =>
  obtain ⟨m, number, eq⟩ := Option.map_eq_some_iff.mp read
  cases eq
  simp only [ends.whole whole, ends.fraction fraction, ends.exponent exponent, number,
    Option.map_some]

/-- A number that is read from a text is read from it also where something else follows. -/
theorem Ends.number (ends : Ends rest) {n : Number} (read : scanNumber? cs = some (n, after)) :
    scanNumber? (cs ++ rest) = some (n, after ++ rest) := by
  cases cs with
  | nil => cases read
  | cons c cs =>
    unfold scanNumber? at read ⊢
    split at read
    · next eq => cases eq; exact ends.unsigned read
    · next positive =>
      split
      · next eq => cases eq; exact absurd rfl (positive _)
      · exact ends.unsigned read

end

/-! ## Integers -/

/-- A number whose text, on its own, is read back. -/
def Number.ReadsBack (n : Number) : Prop :=
  scanNumber? n.text.toList = some (n, [])

instance (n : Number) : Decidable n.ReadsBack :=
  inferInstanceAs (Decidable (_ = _))

/-- The digits of a number do not start with a zero, unless it is zero. -/
theorem toDigits_of_zero {n : Nat} {ds : List Char} (digits : Nat.toDigits 10 n = '0' :: ds) :
    n = 0 := by
  induction n using Nat.strongRecOn generalizing ds with
  | _ n ih =>
    rw [Nat.toDigits_eq_if (by decide)] at digits
    split at digits
    · next small =>
      have zero : ∀ n < 10, n.digitChar = '0' → n = 0 := by decide
      exact zero n small (List.cons.inj digits).1
    · next large =>
      cases first : Nat.toDigits 10 (n / 10) with
      | nil => exact absurd first Nat.toDigits_ne_nil
      | cons d ds' =>
        rw [first] at digits
        obtain ⟨rfl, -⟩ := List.cons.inj digits
        have := ih (n / 10) (by omega) first
        omega

theorem scanDigits?_toDigits (n : Nat) :
    scanDigits? (Nat.toDigits 10 n) = some (Nat.toDigits 10 n, []) := by
  have all : ∀ c ∈ Nat.toDigits 10 n, c.isDigit = true := fun c among =>
    Nat.isDigit_of_mem_toDigits (by decide) (by decide) among
  unfold scanDigits?
  rw [List.takeWhile_eq_self_iff.mpr all, List.dropWhile_eq_nil_iff.mpr all]
  split
  · next none => exact absurd none Nat.toDigits_ne_nil
  · rfl

theorem scanWhole?_toDigits (n : Nat) :
    scanWhole? (Nat.toDigits 10 n) = some (Nat.toDigits 10 n, []) := by
  unfold scanWhole?
  rw [scanDigits?_toDigits]
  split
  · next zeros =>
    have leading := congrArg Prod.fst (Option.some.inj zeros)
    have zero := toDigits_of_zero leading
    subst zero
    cases leading
  · rfl

theorem digitsValue_toDigits (n : Nat) : digitsValue 0 (Nat.toDigits 10 n) = n := by
  have value : Nat.ofDigitChars 10 (Nat.toDigits 10 n) 0 = n := Nat.ofDigitChars_ten_toDigits
  rw [Nat.ofDigitChars_eq_foldl] at value
  simpa only [digitsValue, Nat.mul_comm 10] using value

theorem scanUnsigned?_toDigits (negative : Bool) (n : Nat) :
    scanUnsigned? negative (Nat.toDigits 10 n) =
      (Written.number? ⟨negative, Nat.toDigits 10 n, none, none⟩).map (·, []) := by
  unfold scanUnsigned?
  rw [scanWhole?_toDigits]
  rfl

theorem readsBack_natural (n : UInt64) : (Number.natural n).ReadsBack := by
  have text : (Number.natural n).text.toList = Nat.toDigits 10 n.toNat := by
    simp [Number.text]
  have bound : ¬ UInt64.size ≤ n.toNat := Nat.not_le.mpr n.toNat_lt
  have head : ∀ rest, Nat.toDigits 10 n.toNat ≠ '-' :: rest := by
    intro rest eq
    have digit := Nat.isDigit_of_mem_toDigits (b := 10) (n := n.toNat) (c := '-') (by decide)
      (by decide) (by simp [eq])
    exact absurd digit (by decide)
  unfold Number.ReadsBack
  rw [text]
  unfold scanNumber?
  split
  · next rest eq => exact absurd eq (head rest)
  · rw [scanUnsigned?_toDigits]
    simp [Written.number?, digitsValue_toDigits, bound]

/-- The magnitude of a negative integer of 64 bits. -/
theorem exists_magnitude {n : Int64} (negative : n < 0) :
    ∃ k : Nat, n.toInt = -(k : Int) ∧ k ≠ 0 ∧ k ≤ UInt64.size / 2 := by
  have below : n.toInt < 0 := Int64.lt_iff_toInt_lt.mp negative
  have least := n.le_toInt
  have size : UInt64.size = 2 ^ 64 := rfl
  exact ⟨n.toInt.natAbs, by omega, by omega, by omega⟩

theorem readsBack_negative {n : Int64} (negative : n < 0) : (Number.negative n).ReadsBack := by
  obtain ⟨k, value, nonzero, bound⟩ := exists_magnitude negative
  have text : (Number.negative n).text.toList = '-' :: Nat.toDigits 10 k := by
    obtain ⟨k, rfl⟩ := Nat.exists_eq_succ_of_ne_zero nonzero
    have repr : toString n.toInt = "-" ++ (k + 1).repr := by rw [value]; rfl
    simp [Number.text, repr, Nat.repr_eq_ofList_toDigits]
  have small : ¬ UInt64.size ≤ k := by omega
  have ordinary : ¬ (k = 0 ∨ UInt64.size / 2 < k) := by omega
  unfold Number.ReadsBack
  rw [text]
  show scanUnsigned? true (Nat.toDigits 10 k) = _
  rw [scanUnsigned?_toDigits]
  simp [Written.number?, digitsValue_toDigits, small, ordinary, ← value]

/-! ## Strings -/

/-- The two digits of a control character stand for it. -/
theorem hexUnit?_hexDigit : ∀ n < 0x20,
    hexUnit? '0' '0' (hexDigit (n / 16)) (hexDigit (n % 16)) = some n := by
  decide

theorem scanChar?_escape (c : Char) (rest : List Char) :
    scanChar? (escape c ++ rest) = some (c, rest) := by
  unfold escape
  split
  case h_8 quote backslash _ _ _ _ _ =>
    split
    · next control =>
      show scanChar? ('\\' :: 'u' :: '0' :: '0' :: _ :: _ :: rest) = _
      have low : ¬ (0xD800 ≤ c.toNat ∧ c.toNat < 0xDC00) := by omega
      have high : ¬ (0xDC00 ≤ c.toNat ∧ c.toNat < 0xE000) := by omega
      simp only [scanChar?, hexUnit?_hexDigit _ control, if_neg low, if_neg high,
        Char.ofNat_toNat]
    · next plain =>
      show scanChar? (c :: rest) = _
      unfold scanChar?
      split
      · next eq => cases eq; exact absurd rfl backslash
      · next eq => cases eq; exact absurd rfl backslash
      · next eq => cases eq; exact if_neg (not_or.mpr ⟨plain, backslash⟩)
      · next eq => cases eq
  all_goals rfl

/-- An escape does not start with a quote. -/
theorem escape_ne_quote {c : Char} {rest after : List Char} :
    escape c ++ rest ≠ '"' :: after := by
  unfold escape
  split
  case h_8 quote _ _ _ _ _ _ =>
    split
    · nofun
    · intro eq
      exact quote (List.cons.inj eq).1
  all_goals nofun

theorem scanString?_escape (cs done rest : List Char) :
    scanString? (cs.flatMap escape ++ '"' :: rest) done =
      some (String.ofList (done.reverse ++ cs), rest) := by
  induction cs generalizing done with
  | nil => rw [List.flatMap_nil, List.nil_append, scanString?, List.append_nil]
  | cons c cs ih =>
    rw [List.flatMap_cons, List.append_assoc, scanString?]
    · split
      · next none =>
        rw [scanChar?_escape] at none
        cases none
      · next some =>
        rw [scanChar?_escape] at some
        cases some
        rw [ih, List.reverse_cons, List.append_assoc, List.singleton_append]
    · exact fun _ => escape_ne_quote

/-! ## Tokens -/

/-- A token whose text is read back where nothing follows that continues it. -/
def Token.ReadsBack : Token → Prop
  | .number n => n.ReadsBack
  | .unreadable => False
  | _ => True

/-- What starts with a number starts with a minus sign or a digit. -/
theorem head_of_scanNumber? {c : Char} {cs rest : List Char} {n : Number}
    (read : scanNumber? (c :: cs) = some (n, rest)) : c = '-' ∨ c.isDigit = true := by
  unfold scanNumber? at read
  split at read
  · next eq =>
    cases eq
    exact .inl rfl
  · by_contra neither
    rw [not_or, Bool.not_eq_true] at neither
    simp [scanUnsigned?, scanWhole?, scanDigits?, neither.2] at read

theorem first?_number {cs rest : List Char} {n : Number}
    (read : scanNumber? cs = some (n, rest)) : Token.first? cs = some (.number n, rest) := by
  fun_cases Token.first? cs with
  | case11 => rw [read]; rfl
  | _ => exact absurd (head_of_scanNumber? read) (by decide)

/-- The text of a token that reads back, with what follows it. -/
theorem first?_text {t : Token} {rest : List Char} (legible : t.ReadsBack)
    (ends : (∃ n, t = .number n) → Ends rest) : Token.first? (t.text ++ rest) = some (t, rest) := by
  cases t with
  | number n => exact first?_number ((ends ⟨n, rfl⟩).number legible)
  | string s =>
    have read := scanString?_escape s.toList [] rest
    show ((scanString? (s.toList.flatMap escape ++ ['"'] ++ rest) []).map _ : Option _) = _
    rw [List.append_assoc, List.singleton_append, read]
    simp
  | bool b => cases b <;> rfl
  | unreadable => exact legible.elim
  | _ => rfl

theorem isBlank_of_first? {c : Char} {cs rest : List Char} {t : Token}
    (read : Token.first? (c :: cs) = some (t, rest)) : isBlank c = false := by
  by_contra blank
  simp only [isBlank, Bool.not_eq_false, Bool.or_eq_true, beq_iff_eq] at blank
  rcases blank with ((rfl | rfl) | rfl) | rfl <;> cases read

theorem scan_of_first? {cs rest : List Char} {t : Token} (read : Token.first? cs = some (t, rest)) :
    Token.scan cs = t :: Token.scan rest := by
  cases cs with
  | nil => cases read
  | cons c cs =>
    rw [Token.scan_eq, List.dropWhile_cons_of_neg (by simp [isBlank_of_first? read])]
    simp only [read]

/-- Two tokens that may stand next to each other: a number is followed by a comma or a bracket that
closes. -/
def Token.Parts (t next : Token) : Prop :=
  (∃ n, t = .number n) → next = .comma ∨ next = .closeBracket ∨ next = .closeBrace

/-- The text of tokens is cut into these tokens again. -/
theorem scan_text {ts : List Token} (legible : ∀ t ∈ ts, t.ReadsBack)
    (apart : ts.IsChain Token.Parts) : Token.scan (ts.flatMap Token.text) = ts := by
  induction ts with
  | nil => rw [List.flatMap_nil, Token.scan_eq]; rfl
  | cons t ts ih =>
    obtain ⟨first, legible⟩ := List.forall_mem_cons.mp legible
    have ends : (∃ n, t = .number n) → Ends (ts.flatMap Token.text) := by
      intro number
      cases ts with
      | nil => exact ends_nil
      | cons next ts =>
        obtain ⟨parts, -⟩ := List.isChain_cons_cons.mp apart
        rcases parts number with rfl | rfl | rfl <;> exact ends_cons (by decide)
    rw [List.flatMap_cons, scan_of_first? (first?_text first ends), ih legible apart.of_cons]

end ControlStash.Json
