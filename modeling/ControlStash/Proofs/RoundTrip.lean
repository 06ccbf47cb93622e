import ControlStash.Proofs.Spelling

/-!
# Programs that are written and read

The canonical text of a tree is a text of one of its spellings, so it is decoded to the tree as long
as its nesting is within the limit.

For a tree that was itself decoded from a text there is nothing to ask about nesting: the canonical
form of what a JSON value is decoded to is no deeper than this value (`within_decodeNode`), which
has been read within the limit, and its float literals are finite because the doubles of a text are.
-/

namespace ControlStash

open Wire Json

/-! ## The numbers of a canonical form -/

theorem readsBack_encodeInt (n : Int64) : ∀ m ∈ (encodeInt n).numbers, m.ReadsBack := by
  intro m among
  cases List.mem_singleton.mp among
  split
  · next negative => exact readsBack_negative negative
  · exact readsBack_natural _

theorem readsBack_encodeLiteral {l : Literal} (legible : (!l.isFinite || l.readsBack) = true) :
    ∀ n ∈ (encodeLiteral l).numbers, n.ReadsBack := by
  cases l with
  | int n => exact readsBack_encodeInt n
  | float x =>
    intro n among
    by_cases finite : x.isFinite = true
    · rw [encodeLiteral, if_pos finite] at among
      cases List.mem_singleton.mp among
      have finite : (Literal.float x).isFinite = true := finite
      rw [finite] at legible
      exact of_decide_eq_true legible
    · rw [encodeLiteral, if_neg finite] at among
      cases among
  | _ =>
    intro n among
    cases among

theorem numbers_encodeParam (p : Param) : (encodeParam p).numbers = [] := by
  obtain ⟨name, type?⟩ := p
  cases type? <;> rfl

/-- The numbers of a field's canonical form are those of a literal and of the commands inside. -/
theorem readsBack_datum {d : Datum}
    (literal : ∀ l, d = .literal l → ∀ n ∈ (encodeLiteral l).numbers, n.ReadsBack)
    (inner : ∀ c ∈ d.commands, ∀ n ∈ (encode c).numbers, n.ReadsBack) :
    ∀ n ∈ d.encode.numbers, n.ReadsBack := by
  intro n among
  cases d with
  | literal l => exact literal l rfl n among
  | node c => exact inner c (List.mem_singleton_self c) n among
  | optionalNode c? =>
    cases c? with
    | none => cases among
    | some c => exact inner c (List.mem_singleton_self c) n among
  | nodes cs =>
    simp only [Datum.encode, numbers, encodeAll_eq] at among
    obtain ⟨_, value, among⟩ := mem_numbersAll.mp among
    obtain ⟨c, listed, rfl⟩ := List.mem_map.mp value
    exact inner c listed n among
  | params ps =>
    simp only [Datum.encode, numbers] at among
    obtain ⟨_, value, among⟩ := mem_numbersAll.mp among
    obtain ⟨p, -, rfl⟩ := List.mem_map.mp value
    rw [numbers_encodeParam] at among
    cases among
  | names syms =>
    simp only [Datum.encode, encodeNames, numbers] at among
    obtain ⟨_, value, among⟩ := mem_numbersAll.mp among
    obtain ⟨sym, -, rfl⟩ := List.mem_map.mp value
    cases among
  | _ => cases among

theorem mem_encodeFields {fields : List Field} {data : List Datum} {m : String × Json}
    (among : m ∈ encodeFields fields data) : ∃ d ∈ data, m.2 = d.encode := by
  fun_induction encodeFields fields data with
  | case1 f fields d data written ih =>
    cases among with
    | head => exact ⟨d, List.mem_cons_self, rfl⟩
    | tail _ among =>
      obtain ⟨d', listed, eq⟩ := ih among
      exact ⟨d', List.mem_cons_of_mem _ listed, eq⟩
  | case2 f fields d data missing ih =>
    obtain ⟨d', listed, eq⟩ := ih among
    exact ⟨d', List.mem_cons_of_mem _ listed, eq⟩
  | case3 => cases among

/-- The numbers in the canonical form of a tree are read back if the float literals are. -/
theorem readsBack_encode {c : Command} (legible : c.Legible) :
    ∀ n ∈ (encode c).numbers, n.ReadsBack := by
  induction c using Command.inner_induction with
  | up c ih =>
    obtain ⟨literals, below⟩ := Command.everywhere_onLiteral_iff.mp legible
    intro n among
    cases recognized : c.kind? with
    | none =>
      cases Command.eq_unrecognized_of_kind? recognized
      simp [encode, tagged, numbers, numbersMembers] at among
    | some kind =>
      rw [encode_eq recognized] at among
      obtain ⟨m, member, among⟩ := mem_numbersMembers.mp among
      cases member with
      | head => cases among
      | tail _ member =>
        obtain ⟨d, field, eq⟩ := mem_encodeFields member
        rw [eq] at among
        refine readsBack_datum (fun l isLiteral => ?_) (fun b inside => ?_) n among
        · exact readsBack_encodeLiteral (literals l (isLiteral ▸ field))
        · have listed : b ∈ c.inner := List.mem_flatMap.mpr ⟨d, field, inside⟩
          exact ih b listed (below b listed)

/-! ## What a value is decoded to -/

namespace Wire

/-- The canonical form of a command stays within a depth, and its float literals are finite. -/
structure Within (bound : Nat) (c : Command) : Prop where
  depth : (encode c).depth ≤ bound
  isFinite : c.Finite

/-- The value of a field of a given type, with its canonical form within a depth. -/
structure FieldWithin (bound : Nat) (type : FieldType) (d : Datum) : Prop where
  type : d.type = type
  depth : d.encode.depth ≤ bound
  literal : ∀ l, d = .literal l → l.isFinite = true
  inner : ∀ c ∈ d.commands, c.Finite

/-- A command that is assembled from fields within a depth is one container deeper. -/
theorem within_assemble {kind : Kind} {data : List Datum} {bound : Nat}
    (fields : List.Forall₂ (fun (f : Field) d => FieldWithin bound f.type d) kind.fields data) :
    Within (bound + 1) (kind.assemble data) := by
  have all : ∀ d ∈ data, ∃ type, FieldWithin bound type d := by
    intro d among
    obtain ⟨f, -, within⟩ := exists_of_forall₂ fields.flip among
    exact ⟨f.type, within⟩
  have typed : data.map Datum.type = kind.fields.map Field.type := by
    refine List.forall₂_eq_eq_eq ▸ ?_
    rw [List.forall₂_map_left_iff, List.forall₂_map_right_iff]
    exact fields.flip.imp fun _ _ within => within.type
  obtain ⟨recognized, same⟩ := Command.data_assemble typed
  refine ⟨?_, Command.everywhere_onLiteral_iff.mpr ⟨fun l field => ?_, fun b inside => ?_⟩⟩
  · rw [encode_eq recognized, same, tagged, depth, Nat.add_le_add_iff_right,
      depthMembers_le_iff]
    refine List.forall_mem_cons.mpr ⟨Nat.zero_le _, fun m member => ?_⟩
    obtain ⟨d, field, eq⟩ := mem_encodeFields member
    obtain ⟨type, within⟩ := all d field
    exact eq ▸ within.depth
  · obtain ⟨type, within⟩ := all _ (same ▸ field)
    exact within.literal l rfl
  · obtain ⟨d, field, inside⟩ := List.mem_flatMap.mp inside
    obtain ⟨type, within⟩ := all d (same ▸ field)
    exact within.inner b inside

theorem within_unrecognized {bound : Nat} : Within (bound + 1) .unrecognized :=
  ⟨by simp [encode, tagged, depth, depthMembers], by decide⟩

/-- What is decoded element by element stands for the elements one by one. -/
theorem forall₂_of_decodeList {α : Type} {element : Json → Except Complaint α} {j : Json}
    {xs : List α} (decoded : decodeList element j = .ok xs) :
    ∃ js, j = .array js ∧ List.Forall₂ (fun j x => element j = .ok x) js xs := by
  cases j with
  | array js =>
    refine ⟨js, rfl, ?_⟩
    have decoded : js.mapM element = .ok xs := decoded
    induction js generalizing xs with
    | nil =>
      cases decoded
      exact .nil
    | cons j js ih =>
      rw [List.mapM_cons] at decoded
      cases first : element j with
      | error e =>
        rw [first] at decoded
        cases decoded
      | ok x =>
        rw [first] at decoded
        cases others : js.mapM element with
        | error e =>
          rw [others] at decoded
          cases decoded
        | ok xs' =>
          rw [others] at decoded
          cases decoded
          exact .cons first (ih others others)
  | _ => cases decoded

theorem exists_of_map_ok {ε α β : Type} {e : Except ε α} {f : α → β} {b : β}
    (mapped : e.map f = .ok b) : ∃ a, e = .ok a ∧ f a = b := by
  cases e with
  | error e => cases mapped
  | ok a => exact ⟨a, rfl, Except.ok.inj mapped⟩

theorem isFinite_decodeLiteral {j : Json} {l : Literal} (decoded : decodeLiteral j = .ok l)
    (finite : ∀ n ∈ j.numbers, n.isFinite = true) : l.isFinite = true := by
  revert decoded
  fun_cases decodeLiteral j <;> intro decoded <;> cases decoded
  case case3 n =>
    split
    · rfl
    · exact Double.isFinite_toFloat n
  case case5 x => exact finite _ (List.mem_singleton_self _)
  all_goals rfl

theorem depth_encodeLiteral (l : Literal) : (encodeLiteral l).depth = 0 := by
  fun_cases encodeLiteral l <;> simp [encodeInt, depth]

theorem depth_encodeParam (p : Param) : (encodeParam p).depth = 1 := by
  obtain ⟨name, type?⟩ := p
  cases type? <;> rfl

/-- A parameter is decoded from a container. -/
theorem depth_pos_of_decodeParam {j : Json} {p : Param} (decoded : decodeParam j = .ok p) :
    1 ≤ j.depth := by
  cases j with
  | array | object => exact Nat.le_add_left _ _
  | _ => cases decoded

/-- What a field is decoded to is no deeper than its value, if this is so of the nodes inside. -/
theorem within_decodeField {type : FieldType} {value : Json} {d : Datum}
    {node : Unit → Except Complaint Command} {nodes : Unit → Except Complaint (List Command)}
    (decoded : decodeField type value node nodes = .ok d)
    (finite : ∀ n ∈ value.numbers, n.isFinite = true)
    (inNode : ∀ c, node () = .ok c → Within value.depth c)
    (inNodes : ∀ cs, nodes () = .ok cs → ∃ n, value.depth = n + 1 ∧ ∀ c ∈ cs, Within n c) :
    FieldWithin value.depth type d := by
  have single : ∀ c, Within value.depth c → ∀ b ∈ [c], b.Finite := fun c within b among =>
    List.mem_singleton.mp among ▸ within.isFinite
  revert decoded
  fun_cases decodeField type value node nodes <;> intro decoded
  case case1 =>
    obtain ⟨l, read, rfl⟩ := exists_of_map_ok decoded
    refine ⟨rfl, (depth_encodeLiteral l).le.trans (Nat.zero_le _), fun l' eq => ?_, nofun⟩
    cases eq
    exact isFinite_decodeLiteral read finite
  case case2 | case3 | case4 | case5 =>
    obtain ⟨_, -, rfl⟩ := exists_of_map_ok decoded
    exact ⟨rfl, Nat.zero_le _, nofun, nofun⟩
  case case6 =>
    obtain ⟨ps, read, rfl⟩ := exists_of_map_ok decoded
    obtain ⟨js, rfl, listed⟩ := forall₂_of_decodeList read
    refine ⟨rfl, ?_, nofun, nofun⟩
    rw [Datum.encode, depth, depth, Nat.add_le_add_iff_right, depthAll_le_iff]
    refine List.forall_mem_map.mpr fun p among => ?_
    obtain ⟨j, value, read⟩ := exists_of_forall₂ listed.flip among
    calc (encodeParam p).depth = 1 := depth_encodeParam p
      _ ≤ j.depth := depth_pos_of_decodeParam read
      _ ≤ depthAll js := depthAll_le_iff.mp (Nat.le_refl _) j value
  case case7 =>
    obtain ⟨syms, read, rfl⟩ := exists_of_map_ok decoded
    obtain ⟨js, rfl, -⟩ := forall₂_of_decodeList read
    refine ⟨rfl, ?_, nofun, nofun⟩
    rw [Datum.encode, encodeNames, depth, depth, Nat.add_le_add_iff_right, depthAll_le_iff]
    exact List.forall_mem_map.mpr fun _ _ => Nat.zero_le _
  case case8 =>
    obtain ⟨c, read, rfl⟩ := exists_of_map_ok decoded
    exact ⟨rfl, (inNode c read).depth, nofun, single c (inNode c read)⟩
  case case9 =>
    cases decoded
    exact ⟨rfl, Nat.zero_le _, nofun, nofun⟩
  case case10 =>
    obtain ⟨c, read, rfl⟩ := exists_of_map_ok decoded
    exact ⟨rfl, (inNode c read).depth, nofun, single c (inNode c read)⟩
  case case11 =>
    obtain ⟨cs, read, rfl⟩ := exists_of_map_ok decoded
    obtain ⟨n, deep, within⟩ := inNodes cs read
    refine ⟨rfl, ?_, nofun, fun c among => (within c among).isFinite⟩
    rw [Datum.encode, depth, deep, Nat.add_le_add_iff_right, depthAll_le_iff, encodeAll_eq]
    exact List.forall_mem_map.mpr fun c among => (within c among).depth

theorem Within.mono {bound bound' : Nat} {c : Command} (within : Within bound c)
    (le : bound ≤ bound') : Within bound' c :=
  { within with depth := within.depth.trans le }

theorem FieldWithin.mono {bound bound' : Nat} {type : FieldType} {d : Datum}
    (within : FieldWithin bound type d) (le : bound ≤ bound') : FieldWithin bound' type d :=
  { within with depth := within.depth.trans le }

theorem within_default {bound : Nat} {type : FieldType} {d : Datum}
    (default : type.default? = some d) : FieldWithin bound type d := by
  cases type <;> cases default
  · exact ⟨rfl, Nat.zero_le _, fun l eq => by cases eq; rfl, nofun⟩
  · exact ⟨rfl, Nat.zero_le _, nofun, nofun⟩

/-- The values that are collected for the fields are among those that were read, or are defaults. -/
theorem within_collectFields {bound : Nat} {done : List (String × Datum)} {fields : List Field}
    {data : List Datum} (collected : collectFields done fields = .ok data)
    (read : ∀ f ∈ fields, ∀ d, done.lookup f.key = some d → FieldWithin bound f.type d) :
    List.Forall₂ (fun (f : Field) d => FieldWithin bound f.type d) fields data := by
  induction fields generalizing data with
  | nil =>
    cases collected
    exact .nil
  | cons f fields ih =>
    obtain ⟨first, others⟩ := List.forall_mem_cons.mp read
    unfold collectFields at collected
    split at collected
    · cases collected
    · next d settled =>
      obtain ⟨data, rest, rfl⟩ := exists_of_map_ok collected
      refine .cons ?_ (ih rest others)
      cases held : done.lookup f.key with
      | some d' =>
        rw [held] at settled
        exact Option.some.inj settled ▸ first d' held
      | none =>
        rw [held] at settled
        exact within_default settled

theorem within_collectDefaults {bound count : Nat} {kind : Kind} {fields : List Field}
    {data : List Datum} (collected : collectDefaults kind count fields = .ok data) :
    List.Forall₂ (fun (f : Field) d => FieldWithin bound f.type d) fields data := by
  induction fields generalizing data with
  | nil =>
    cases collected
    exact .nil
  | cons f fields ih =>
    unfold collectDefaults at collected
    split at collected
    · cases collected
    · next d default =>
      obtain ⟨data, rest, rfl⟩ := exists_of_map_ok collected
      exact .cons (within_default default) (ih rest)

mutual

/-- The canonical form of what a value is decoded to is no deeper than the value. -/
theorem within_decodeNode (j : Json) {c : Command} (decoded : decodeNode j = .ok c)
    (finite : ∀ n ∈ j.numbers, n.isFinite = true) : Within j.depth c := by
  match j with
  | .object members =>
    rw [decodeNode] at decoded
    split at decoded
    · cases decoded
    · cases decoded
      exact within_unrecognized
    · next kind _ =>
      split at decoded
      · cases decoded
      · next done read =>
        obtain ⟨data, collected, rfl⟩ := exists_of_map_ok decoded
        have within := within_decodeMembers members read finite (Nat.le_refl _) nofun
        refine within_assemble (within_collectFields collected fun f own d held => ?_)
        obtain ⟨f', found, within⟩ := within f.key d held
        cases found.symm.trans (find?_key f own)
        exact within
  | .array [] => cases decoded
  | .array (tag :: values) =>
    rw [decodeNode] at decoded
    split at decoded
    · cases decoded
    · split at decoded
      · cases decoded
        exact within_unrecognized
      · cases decoded
    · next kind _ =>
      obtain ⟨data, read, rfl⟩ := exists_of_map_ok decoded
      have rest := (List.forall_mem_append.mp finite).2
      exact within_assemble
        (within_decodeElements values read rest (Nat.le_max_right _ _))
  | .null | .bool _ | .number _ | .string _ => cases decoded

theorem within_decodeNodes (j : Json) {cs : List Command} (decoded : decodeNodes j = .ok cs)
    (finite : ∀ n ∈ j.numbers, n.isFinite = true) :
    ∃ n, j.depth = n + 1 ∧ ∀ c ∈ cs, Within n c := by
  match j with
  | .array values =>
    rw [decodeNodes] at decoded
    exact ⟨_, rfl, within_decodeAll values decoded finite⟩
  | .object _ | .null | .bool _ | .number _ | .string _ => cases decoded

theorem within_decodeAll (values : List Json) {cs : List Command}
    (decoded : decodeAll values = .ok cs)
    (finite : ∀ n ∈ numbersAll values, n.isFinite = true) :
    ∀ c ∈ cs, Within (depthAll values) c := by
  match values with
  | [] =>
    rw [decodeAll] at decoded
    cases decoded
    exact nofun
  | value :: values =>
    obtain ⟨finite, others⟩ := List.forall_mem_append.mp finite
    rw [decodeAll] at decoded
    split at decoded
    · cases decoded
    · next c read =>
      obtain ⟨cs, rest, rfl⟩ := exists_of_map_ok decoded
      refine List.forall_mem_cons.mpr ⟨?_, fun c among => ?_⟩
      · exact (within_decodeNode value read finite).mono (Nat.le_max_left _ _)
      · exact (within_decodeAll values rest others c among).mono (Nat.le_max_right _ _)

theorem within_decodeMembers (members : List (String × Json)) {fields : List Field}
    {done done' : List (String × Datum)} {bound : Nat}
    (decoded : decodeMembers fields members done = .ok done')
    (finite : ∀ n ∈ numbersMembers members, n.isFinite = true)
    (deep : depthMembers members ≤ bound)
    (within : ∀ key d, done.lookup key = some d →
      ∃ f, fields.find? (·.key = key) = some f ∧ FieldWithin bound f.type d) :
    ∀ key d, done'.lookup key = some d →
      ∃ f, fields.find? (·.key = key) = some f ∧ FieldWithin bound f.type d := by
  match members with
  | [] =>
    rw [decodeMembers] at decoded
    cases decoded
    exact within
  | (key, value) :: members =>
    obtain ⟨finite, others⟩ := List.forall_mem_append.mp finite
    obtain ⟨shallow, deep⟩ := Nat.max_le.mp deep
    rw [decodeMembers] at decoded
    split at decoded
    · exact within_decodeMembers members decoded others deep within
    · next f found =>
      split at decoded
      · cases decoded
      · split at decoded
        · cases decoded
        · next d read =>
          have field := within_decodeField read finite
            (fun c read => within_decodeNode value read finite)
            (fun cs read => within_decodeNodes value read finite)
          refine within_decodeMembers members decoded others deep fun key' d' held => ?_
          rw [List.lookup_cons] at held
          split at held
          · next same =>
            cases eq_of_beq same
            exact ⟨f, found, Option.some.inj held ▸ field.mono shallow⟩
          · exact within key' d' held

theorem within_decodeElements (values : List Json) {kind : Kind} {count bound : Nat}
    {fields : List Field} {data : List Datum}
    (decoded : decodeElements kind count fields values = .ok data)
    (finite : ∀ n ∈ numbersAll values, n.isFinite = true) (deep : depthAll values ≤ bound) :
    List.Forall₂ (fun (f : Field) d => FieldWithin bound f.type d) fields data := by
  match values with
  | [] =>
    rw [decodeElements] at decoded
    exact within_collectDefaults decoded
  | value :: values =>
    obtain ⟨finite, others⟩ := List.forall_mem_append.mp finite
    obtain ⟨shallow, deep⟩ := Nat.max_le.mp deep
    cases fields with
    | nil =>
      rw [decodeElements] at decoded
      cases decoded
    | cons f fields =>
      rw [decodeElements] at decoded
      split at decoded
      · cases decoded
      · next d read =>
        obtain ⟨data, rest, rfl⟩ := exists_of_map_ok decoded
        have field := within_decodeField read finite
          (fun c read => within_decodeNode value read finite)
          (fun cs read => within_decodeNodes value read finite)
        exact .cons (field.mono shallow) (within_decodeElements values rest others deep)

end

/-- What is decoded from a text is within the nesting limit in its canonical form, and its float
literals are finite. -/
theorem within_decode {text : String} {c : Command} (decoded : decode text = .ok c) :
    Within maxOpen c := by
  unfold decode at decoded
  split at decoded
  · cases decoded
  · cases decoded
  · next value rest read =>
    obtain ⟨room, finite⟩ := fits_of_scan read
    split at decoded
    · cases decoded
    · next c' node =>
      split at decoded
      · cases decoded
        exact (within_decodeNode value node finite).mono (by omega)
      · cases decoded

end Wire

/-- **The wire format round-trips.** A tree whose float literals are finite is decoded from its
canonical text if at most 127 brackets are open at once in the text, and the text is no JSON to the
decoder otherwise. A tree that was decoded from any text is decoded from its canonical text too,
whose nesting is then within the limit. Of the float literals it is assumed that their texts read
back. -/
theorem round_trip :
    (∀ c : Command, c.Finite → c.Legible →
      (nesting c.render ≤ 127 → decode c.render = .ok c) ∧
      (127 < nesting c.render → decode c.render = .error .notJson)) ∧
    ∀ (text : String) (c : Command), decode text = .ok c → c.Legible →
      decode c.render = .ok c := by
  have decodes : ∀ c : Command, c.Finite → c.Legible →
      decode c.render = if nesting c.render ≤ maxOpen then .ok c else .error .notJson :=
    fun c finite legible =>
      decode_of_spells (spells_encode finite) (scan_render (readsBack_encode legible))
  refine ⟨fun c finite legible => ⟨fun shallow => ?_, fun deep => ?_⟩, ?_⟩
  · exact (decodes c finite legible).trans (if_pos shallow)
  · exact (decodes c finite legible).trans (if_neg (Nat.not_le.mpr deep))
  · intro text c decoded legible
    obtain ⟨shallow, finite⟩ := within_decode decoded
    have deep : nesting c.render = (encode c).depth := nesting_render (readsBack_encode legible)
    rw [decodes c finite legible, if_pos (deep ▸ shallow)]

/-- Literals of all kinds and a node that is not recognized. -/
def literalSamples : Command :=
  .arrayOf [.lit (.float 2.5), .lit (.int (-3)), .lit (.string "\"\n"), .lit .undefined,
    .unrecognized]

/-- Blocks around a literal, each in the one before. -/
def nestedBlocks (count : Nat) : Command :=
  Nat.iterate Command.block count (.lit (.bool true))

theorem round_trip_samples :
    (nesting literalSamples.render ≤ 127 ∧ decode literalSamples.render = .ok literalSamples) ∧
    (127 < nesting (nestedBlocks 127).render ∧
      decode (nestedBlocks 127).render = .error .notJson) ∧
    decode "[\"lit\"]" = .ok (.lit .undefined) ∧
      decode (Command.lit .undefined).render = .ok (.lit .undefined) := by
  obtain ⟨canonical, again⟩ := round_trip
  refine ⟨?_, ?_, ?_⟩
  · have finite : literalSamples.Finite := by decide +kernel
    have legible : literalSamples.Legible := by decide +kernel
    have depth : (encode literalSamples).depth ≤ 127 := by decide +kernel
    have shallow := (nesting_render (readsBack_encode legible)).trans_le depth
    exact ⟨shallow, (canonical _ finite legible).1 shallow⟩
  · have finite : (nestedBlocks 127).Finite := by decide +kernel
    have legible : (nestedBlocks 127).Legible := by decide +kernel
    have depth : 127 < (encode (nestedBlocks 127)).depth := by decide +kernel
    have deep := depth.trans_eq (nesting_render (readsBack_encode legible)).symm
    exact ⟨deep, (canonical _ finite legible).2 deep⟩
  · have spelled : Spells (.lit .undefined) (.array [.string "lit"]) :=
      @Spells.array .lit [.literal .undefined] [] (.omitted rfl)
    have decoded := decode_of_spells spelled
      (by decide +kernel : Token.scan "[\"lit\"]".toList = _)
    rw [if_pos (by decide +kernel)] at decoded
    exact ⟨decoded, again _ _ decoded (by decide)⟩

end ControlStash
