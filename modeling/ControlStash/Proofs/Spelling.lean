import Mathlib.Data.List.Forall2
import Mathlib.Data.List.Perm.Basic
import ControlStash.Proofs.Fields

/-!
# Spellings of a tree

A tree can be written in many ways: the keys of its objects in any order and among others, a node or
a parameter as an array, an operator by another of its names or in an object of its own, what is
missing as `null` or not at all. `Spells c j` is said by recursion on the JSON value `j` and leaves
every one of these choices open at every node.

Reading a node looks at each key for itself: what stands under the keys of its fields, in whatever
order, settles the command (`decodeNode_object`). So by induction on the spelling all spellings of a
tree are decoded to this tree (`decodeNode_of_spells`), and by what the reader accepts so are all
texts of them (`decode_of_spells`).
-/

namespace ControlStash.Wire

open Json

/-! ## Spellings -/

/-- An operator is spelled by one of its names, or by an object with such a name for its only key
and `null` under it. -/
inductive OperatorSpelled {α : Type} (spellings : List (String × α)) (op : α) : Json → Prop
  | name {s : String} (named : (s, op) ∈ spellings) : OperatorSpelled spellings op (.string s)
  | key {s : String} (named : (s, op) ∈ spellings) :
      OperatorSpelled spellings op (.object [(s, .null)])

/-- The type of a parameter is spelled by itself, a missing one by `null`. -/
inductive TypeSpelled : Option String → Json → Prop
  | absent : TypeSpelled none .null
  | present {type : String} : TypeSpelled (some type) (.string type)

/-- The member for the type of a parameter, which may be left out if there is no type. -/
inductive TypeMember : Option String → List (String × Json) → Prop
  | omitted : TypeMember none []
  | written {type? : Option String} {value : Json} (spelled : TypeSpelled type? value) :
      TypeMember type? [("type", value)]

/-- A parameter is spelled by an object with its name and its type, in any order and among members
of any other keys, or by an array of the two. -/
inductive ParamSpelled (p : Param) : Json → Prop
  | object {type extra members : List (String × Json)} (typed : TypeMember p.type? type)
      (ignored : ∀ m ∈ extra, m.1 ≠ "name" ∧ m.1 ≠ "type")
      (order : members.Perm (("name", .string p.name) :: type ++ extra)) :
      ParamSpelled p (.object members)
  | short (untyped : p.type? = none) : ParamSpelled p (.array [.string p.name])
  | long {type : Json} (typed : TypeSpelled p.type? type) :
      ParamSpelled p (.array [.string p.name, type])

mutual

/-- A command is spelled by an object with its tag and its fields, in any order and among members of
any other keys, or by an array of the tag and the fields. -/
inductive Spells : Command → Json → Prop
  | object {kind : Kind} {data : List Datum} {own extra members : List (String × Json)}
      (fields : MembersSpelled kind.fields data own)
      (ignored : ∀ m ∈ extra, m.1 ≠ tagKey ∧ ∀ f ∈ kind.fields, m.1 ≠ f.key)
      (order : members.Perm ((tagKey, .string kind.tag) :: own ++ extra)) :
      Spells (kind.assemble data) (.object members)
  | array {kind : Kind} {data : List Datum} {values : List Json}
      (fields : ValuesSpelled kind.fields data values) :
      Spells (kind.assemble data) (.array (.string kind.tag :: values))
  | unrecognized {tag : String} {extra members : List (String × Json)}
      (unknown : Kind.ofTag? tag = none) (ignored : ∀ m ∈ extra, m.1 ≠ tagKey)
      (order : members.Perm ((tagKey, .string tag) :: extra)) :
      Spells .unrecognized (.object members)

/-- The members for some fields. A field whose value is the default of its type may be left out. -/
inductive MembersSpelled : List Field → List Datum → List (String × Json) → Prop
  | nil : MembersSpelled [] [] []
  | written {f : Field} {fields : List Field} {d : Datum} {data : List Datum} {value : Json}
      {own : List (String × Json)} (spelled : DatumSpelled f.type d value)
      (others : MembersSpelled fields data own) :
      MembersSpelled (f :: fields) (d :: data) ((f.key, value) :: own)
  | omitted {f : Field} {fields : List Field} {d : Datum} {data : List Datum}
      {own : List (String × Json)} (default : f.type.default? = some d)
      (others : MembersSpelled fields data own) :
      MembersSpelled (f :: fields) (d :: data) own

/-- The values of an array for some fields. At the end, fields whose values are the defaults of
their types may be left out. -/
inductive ValuesSpelled : List Field → List Datum → List Json → Prop
  | omitted {fields : List Field} {data : List Datum}
      (defaults : fields.map (·.type.default?) = data.map some) : ValuesSpelled fields data []
  | written {f : Field} {fields : List Field} {d : Datum} {data : List Datum} {value : Json}
      {values : List Json} (spelled : DatumSpelled f.type d value)
      (others : ValuesSpelled fields data values) :
      ValuesSpelled (f :: fields) (d :: data) (value :: values)

/-- The value of a field. Only literals that are finite have a spelling. -/
inductive DatumSpelled : FieldType → Datum → Json → Prop
  | literal {l : Literal} (finite : l.isFinite = true) :
      DatumSpelled .literal (.literal l) (encodeLiteral l)
  | name {sym : String} : DatumSpelled .name (.name sym) (.string sym)
  | unaryOp {op : UnaryOp} {j : Json} (spelled : OperatorSpelled unarySpellings op j) :
      DatumSpelled .unaryOp (.unaryOp op) j
  | binaryOp {op : BinaryOp} {j : Json} (spelled : OperatorSpelled binarySpellings op j) :
      DatumSpelled .binaryOp (.binaryOp op) j
  | logicalOp {op : LogicalOp} {j : Json} (spelled : OperatorSpelled logicalSpellings op j) :
      DatumSpelled .logicalOp (.logicalOp op) j
  | params {ps : List Param} {js : List Json} (spelled : List.Forall₂ ParamSpelled ps js) :
      DatumSpelled .params (.params ps) (.array js)
  | names {syms : List String} : DatumSpelled .names (.names syms) (encodeNames syms)
  | node {c : Command} {j : Json} (spelled : Spells c j) : DatumSpelled .node (.node c) j
  | absent : DatumSpelled .optionalNode (.optionalNode none) .null
  | present {c : Command} {j : Json} (spelled : Spells c j) :
      DatumSpelled .optionalNode (.optionalNode (some c)) j
  | nodes {cs : List Command} {js : List Json} (spelled : AllSpelled cs js) :
      DatumSpelled .nodes (.nodes cs) (.array js)

/-- Commands that are spelled one by one. -/
inductive AllSpelled : List Command → List Json → Prop
  | nil : AllSpelled [] []
  | cons {c : Command} {cs : List Command} {j : Json} {js : List Json} (first : Spells c j)
      (others : AllSpelled cs js) : AllSpelled (c :: cs) (j :: js)

end

/-! ## Operators, literals and parameters -/

theorem decodeOperator_of_spelled {α : Type} {spellings : List (String × α)} {op : α} {j : Json}
    (known : ∀ m ∈ spellings, spellings.lookup m.1 = some m.2)
    (spelled : OperatorSpelled spellings op j) : decodeOperator spellings j = .ok op := by
  cases spelled with
  | name named | key named => simp only [decodeOperator, findOperator, known _ named]

/-- The literal of an integer is decoded to the integer, whatever its sign. -/
theorem decodeLiteral_encodeInt (n : Int64) : decodeLiteral (encodeInt n) = .ok (.int n) := by
  unfold encodeInt
  split
  · rfl
  · next positive =>
    have small : n.toUInt64.toNat < UInt64.size / 2 := by
      rw [Int64.toNat_toUInt64_of_le (Int64.not_lt.mp positive), ← Int64.toNat_toInt]
      have below := n.toInt_lt
      have size : UInt64.size / 2 = 2 ^ 63 := rfl
      omega
    simp only [decodeLiteral, if_pos small, Int64.toInt64_toUInt64]

theorem decodeLiteral_encodeLiteral {l : Literal} (finite : l.isFinite = true) :
    decodeLiteral (encodeLiteral l) = .ok l := by
  cases l with
  | float x =>
    have finite : x.isFinite = true := finite
    simp only [encodeLiteral, if_pos finite, decodeLiteral]
  | int n => exact decodeLiteral_encodeInt n
  | _ => rfl

theorem decodeType_of_spelled {type? : Option String} {j : Json} (spelled : TypeSpelled type? j) :
    decodeType j = .ok type? := by
  cases spelled <;> rfl

/-- What stands under the two keys of a parameter settles the parameter. -/
theorem decodeParamMembers_eq {p : Param} {members : List (String × Json)} {name? : Option String}
    {type? : Option (Option String)}
    (name : name? = some p.name ∧ valuesAt "name" members = [] ∨
      name? = none ∧ valuesAt "name" members = [.string p.name])
    (type : type?.join = p.type? ∧ valuesAt "type" members = [] ∨
      type? = none ∧ ∃ j, TypeSpelled p.type? j ∧ valuesAt "type" members = [j]) :
    decodeParamMembers members name? type? = .ok p := by
  induction members generalizing name? type? with
  | nil =>
    obtain ⟨rfl, -⟩ | ⟨-, none⟩ := name
    · obtain ⟨typed, -⟩ | ⟨-, j, -, none⟩ := type
      · simp only [decodeParamMembers, typed]
      · cases none
    · cases none
  | cons m members ih =>
    obtain ⟨key, value⟩ := m
    by_cases isName : key = "name"
    · subst isName
      rw [valuesAt_cons_self] at name
      rw [valuesAt_cons_of_ne (by decide)] at type
      obtain ⟨-, none⟩ | ⟨rfl, only⟩ := name
      · cases none
      · obtain ⟨rfl, others⟩ := List.cons.inj only
        simp only [decodeParamMembers, if_true, decodeText]
        exact ih (.inl ⟨rfl, others⟩) type
    rw [valuesAt_cons_of_ne isName] at name
    by_cases isType : key = "type"
    · subst isType
      rw [valuesAt_cons_self] at type
      obtain ⟨-, none⟩ | ⟨rfl, j, spelled, only⟩ := type
      · cases none
      · obtain ⟨rfl, others⟩ := List.cons.inj only
        simp only [decodeParamMembers, if_neg isName, if_true, decodeType_of_spelled spelled]
        exact ih name (.inl ⟨rfl, others⟩)
    · rw [valuesAt_cons_of_ne isType] at type
      simp only [decodeParamMembers, if_neg isName, if_neg isType]
      exact ih name type

/-! ## Members under a key, in any order -/

section

variable {key : String} {members others : List (String × Json)}

theorem valuesAt_append : valuesAt key (members ++ others) =
    valuesAt key members ++ valuesAt key others := by
  simp [valuesAt]

theorem valuesAt_eq_nil (absent : ∀ m ∈ members, m.1 ≠ key) : valuesAt key members = [] := by
  simpa [valuesAt] using absent

/-- Several members under one key would be told apart by their order, one is not. -/
theorem valuesAt_of_perm (order : members.Perm others) (few : (valuesAt key others).length ≤ 1) :
    valuesAt key members = valuesAt key others := by
  have perm : (valuesAt key members).Perm (valuesAt key others) := (order.filter _).map _
  match values : valuesAt key others with
  | [] => exact List.perm_nil.mp (values ▸ perm)
  | [value] => exact List.perm_singleton.mp (values ▸ perm)
  | _ :: _ :: _ => simp [values] at few

end

theorem decodeParam_of_spelled {p : Param} {j : Json} (spelled : ParamSpelled p j) :
    decodeParam j = .ok p := by
  obtain ⟨name, type?⟩ := p
  cases spelled with
  | @object type extra members typed ignored order =>
    have others : ∀ key, key = "name" ∨ key = "type" → valuesAt key extra = [] := by
      rintro key isKey
      refine valuesAt_eq_nil fun m among => ?_
      rcases isKey with rfl | rfl
      · exact (ignored m among).1
      · exact (ignored m among).2
    have noName : valuesAt "name" type = [] := by cases typed <;> rfl
    have names : valuesAt "name" (("name", .string name) :: type ++ extra) = [.string name] := by
      rw [List.cons_append, valuesAt_cons_self, valuesAt_append, noName, others _ (.inl rfl)]
      rfl
    have types : valuesAt "type" (("name", .string name) :: type ++ extra) =
        valuesAt "type" type := by
      rw [List.cons_append, valuesAt_cons_of_ne (by decide), valuesAt_append, others _ (.inr rfl),
        List.append_nil]
    have name := valuesAt_of_perm order (by rw [names]; rfl)
    have type := valuesAt_of_perm order (by rw [types]; cases typed <;> simp [valuesAt])
    refine decodeParamMembers_eq (.inr ⟨rfl, name.trans names⟩) ?_
    rw [type, types]
    cases typed with
    | omitted => exact .inl ⟨rfl, rfl⟩
    | written spelled => exact .inr ⟨rfl, _, spelled, rfl⟩
  | short untyped =>
    cases untyped
    rfl
  | long typed =>
    simp only [decodeParam, decodeText, decodeType_of_spelled typed, List.isEmpty_nil, if_true]

/-! ## What stands under the keys of a node -/

/-- The value of a field that is written. -/
abbrev decodeValue (type : FieldType) (value : Json) : Except Complaint Datum :=
  decodeField type value (fun _ => decodeNode value) fun _ => decodeNodes value

theorem decodeKind_known {members : List (String × Json)} {kind? : Option Kind}
    (untagged : valuesAt tagKey members = []) : decodeKind members (some kind?) = .ok kind? := by
  induction members with
  | nil => rfl
  | cons m members ih =>
    obtain ⟨key, value⟩ := m
    by_cases isTag : key = tagKey
    · subst isTag
      rw [valuesAt_cons_self] at untagged
      cases untagged
    · rw [valuesAt_cons_of_ne isTag] at untagged
      simp only [decodeKind, if_neg isTag, ih untagged]

/-- The kind of an object is that of its only tag, wherever it stands. -/
theorem decodeKind_eq {members : List (String × Json)} {tag : String}
    (single : valuesAt tagKey members = [.string tag]) :
    decodeKind members none = .ok (Kind.ofTag? tag) := by
  induction members with
  | nil => cases single
  | cons m members ih =>
    obtain ⟨key, value⟩ := m
    by_cases isTag : key = tagKey
    · subst isTag
      rw [valuesAt_cons_self] at single
      obtain ⟨rfl, others⟩ := List.cons.inj single
      simp only [decodeKind, if_true, decodeTag, decodeKind_known others]
    · rw [valuesAt_cons_of_ne isTag] at single
      simp only [decodeKind, if_neg isTag, ih single]

theorem ofTag?_tag (kind : Kind) : Kind.ofTag? kind.tag = some kind := by
  cases kind <;> decide

/-- What the members still to be read and the values already read tell about a field: it has been
read, or it stands among the members once, or it is missing and has a default. -/
inductive Resolves (fields : List Field) (members : List (String × Json))
    (done : List (String × Datum)) (f : Field) (d : Datum) : Prop
  | read (own : fields.find? (·.key = f.key) = some f) (held : done.lookup f.key = some d)
      (last : valuesAt f.key members = [])
  | ahead (own : fields.find? (·.key = f.key) = some f) (unread : done.lookup f.key = none)
      {value : Json} (only : valuesAt f.key members = [value])
      (decodes : decodeValue f.type value = .ok d)
  | missing (unread : done.lookup f.key = none) (none : valuesAt f.key members = [])
      (default : f.type.default? = some d)

theorem collectFields_of_resolves {all fields : List Field} {data : List Datum}
    {done : List (String × Datum)} (resolves : List.Forall₂ (Resolves all [] done) fields data) :
    collectFields done fields = .ok data := by
  induction resolves with
  | nil => rfl
  | cons first _ ih =>
    cases first with
    | read _ held => simp only [collectFields, held, Option.orElse_some, ih, Except.map]
    | ahead _ _ only => cases only
    | missing unread _ default =>
      simp only [collectFields, unread, Option.orElse_none, default, ih, Except.map]

section

variable {fields : List Field} {members : List (String × Json)} {done : List (String × Datum)}
  {f f₀ : Field} {d d₀ : Datum} {key : String} {value : Json}

theorem ne_of_valuesAt (none : valuesAt f.key ((key, value) :: members) = []) : key ≠ f.key := by
  rintro rfl
  rw [valuesAt_cons_self] at none
  cases none

/-- A member that is no field of the node tells nothing. -/
theorem Resolves.skip (foreign : fields.find? (·.key = key) = none)
    (resolves : Resolves fields ((key, value) :: members) done f d) :
    Resolves fields members done f d := by
  cases resolves with
  | read own held last =>
    exact .read own held (valuesAt_cons_of_ne (ne_of_valuesAt last) ▸ last)
  | ahead own unread only decodes =>
    have ne : key ≠ f.key := by
      rintro rfl
      rw [own] at foreign
      cases foreign
    exact .ahead own unread (valuesAt_cons_of_ne ne ▸ only) decodes
  | missing unread none default =>
    exact .missing unread (valuesAt_cons_of_ne (ne_of_valuesAt none) ▸ none) default

/-- A member that is a field of the node settles this field and tells nothing about the others. -/
theorem Resolves.take (found : fields.find? (·.key = key) = some f₀)
    (decoded : decodeValue f₀.type value = .ok d₀)
    (resolves : Resolves fields ((key, value) :: members) done f d) :
    Resolves fields members ((key, d₀) :: done) f d := by
  have kept : key ≠ f.key → ((key, d₀) :: done).lookup f.key = done.lookup f.key := fun ne => by
    rw [List.lookup_cons, beq_false_of_ne ne.symm]
  cases resolves with
  | read own held last =>
    have ne := ne_of_valuesAt last
    exact .read own ((kept ne).trans held) (valuesAt_cons_of_ne ne ▸ last)
  | ahead own unread only decodes =>
    by_cases same : key = f.key
    · subst same
      cases own.symm.trans found
      rw [valuesAt_cons_self] at only
      obtain ⟨rfl, last⟩ := List.cons.inj only
      cases decodes.symm.trans decoded
      exact .read own List.lookup_cons_self last
    · exact .ahead own ((kept same).trans unread) (valuesAt_cons_of_ne same ▸ only) decodes
  | missing unread none default =>
    have ne := ne_of_valuesAt none
    exact .missing ((kept ne).trans unread) (valuesAt_cons_of_ne ne ▸ none) default

/-- A field under whose key a member stands has not been read, and the value can be decoded. -/
theorem Resolves.first (resolves : Resolves fields ((f.key, value) :: members) done f d) :
    done.lookup f.key = none ∧ decodeValue f.type value = .ok d := by
  cases resolves with
  | read _ _ last => exact absurd rfl (ne_of_valuesAt last)
  | ahead _ unread only decodes =>
    rw [valuesAt_cons_self] at only
    obtain ⟨rfl, -⟩ := List.cons.inj only
    exact ⟨unread, decodes⟩
  | missing _ none => exact absurd rfl (ne_of_valuesAt none)

end

theorem exists_of_forall₂ {α β : Type} {R : α → β → Prop} {as : List α} {bs : List β} {a : α}
    (related : List.Forall₂ R as bs) (among : a ∈ as) : ∃ b ∈ bs, R a b := by
  induction related with
  | nil => cases among
  | cons first _ ih =>
    cases among with
    | head => exact ⟨_, List.mem_cons_self, first⟩
    | tail _ among =>
      obtain ⟨b, listed, related⟩ := ih among
      exact ⟨b, List.mem_cons_of_mem _ listed, related⟩

theorem decodeMembers_of_resolves {fields : List Field} {data : List Datum}
    {members : List (String × Json)} {done : List (String × Datum)}
    (resolves : List.Forall₂ (Resolves fields members done) fields data) :
    ∃ done', decodeMembers fields members done = .ok done' ∧
      List.Forall₂ (Resolves fields [] done') fields data := by
  induction members generalizing done with
  | nil => exact ⟨done, by rw [decodeMembers], resolves⟩
  | cons m members ih =>
    obtain ⟨key, value⟩ := m
    rw [decodeMembers]
    cases found : fields.find? (·.key = key) with
    | none => exact ih (resolves.imp fun _ _ => .skip found)
    | some f =>
      have isKey : f.key = key := by simpa using List.find?_some found
      subst isKey
      obtain ⟨d, -, first⟩ := exists_of_forall₂ resolves (List.mem_of_find?_eq_some found)
      obtain ⟨unread, decodes⟩ := first.first
      simp only [unread, Option.isSome_none, Bool.false_eq_true, if_false, decodes]
      exact ih (resolves.imp fun _ _ => .take found decodes)

/-- An object with a single tag that names a kind is decoded to the command of this kind with the
fields that stand under their keys, wherever they stand and whatever stands between them. -/
theorem decodeNode_object {kind : Kind} {data : List Datum} {members : List (String × Json)}
    (single : valuesAt tagKey members = [.string kind.tag])
    (resolves : List.Forall₂ (Resolves kind.fields members []) kind.fields data) :
    decodeNode (.object members) = .ok (kind.assemble data) := by
  obtain ⟨done, decoded, resolves⟩ := decodeMembers_of_resolves resolves
  rw [decodeNode, decodeKind_eq single, ofTag?_tag]
  simp only [decoded, collectFields_of_resolves resolves, Except.map]

/-! ## Every spelling is decoded -/

/-- What stands under the key of a field: one value that is decoded to that of the field, or none if
that is the default. -/
inductive Stands (members : List (String × Json)) (f : Field) (d : Datum) : Prop
  | written {value : Json} (only : valuesAt f.key members = [value])
      (decodes : decodeValue f.type value = .ok d)
  | omitted (none : valuesAt f.key members = []) (default : f.type.default? = some d)

section

variable {fields : List Field} {data : List Datum} {members own extra : List (String × Json)}
  {f : Field} {d : Datum} {key : String} {value : Json}

theorem Stands.length_le (stands : Stands members f d) : (valuesAt f.key members).length ≤ 1 := by
  cases stands with
  | written only => rw [only]; rfl
  | omitted none => rw [none]; exact Nat.zero_le _

theorem Stands.of_eq (stands : Stands own f d) (eq : valuesAt f.key members = valuesAt f.key own) :
    Stands members f d := by
  cases stands with
  | written only decodes => exact .written (eq.trans only) decodes
  | omitted none default => exact .omitted (eq.trans none) default

theorem Stands.resolves (stands : Stands members f d)
    (own : fields.find? (·.key = f.key) = some f) : Resolves fields members [] f d := by
  cases stands with
  | written only decodes => exact .ahead own rfl only decodes
  | omitted none default => exact .missing rfl none default

end

/-- Every field of a kind is found by its key. -/
theorem find?_key {kind : Kind} :
    ∀ f ∈ kind.fields, kind.fields.find? (·.key = f.key) = some f := by
  cases kind <;> decide

/-- The keys of a node are all different. -/
theorem nodup_keys (kind : Kind) : (tagKey :: kind.fields.map (·.key)).Nodup := by
  cases kind <;> decide

theorem decodeList_of_forall₂ {α : Type} {element : Json → Except Complaint α} {xs : List α}
    {js : List Json} (decodes : List.Forall₂ (fun x j => element j = .ok x) xs js) :
    decodeList element (.array js) = .ok xs := by
  show js.mapM element = .ok xs
  induction decodes with
  | nil => rfl
  | cons first _ ih =>
    rw [List.mapM_cons, first, ih]
    rfl

theorem decodeText_names (syms : List String) :
    decodeList decodeText (encodeNames syms) = .ok syms := by
  refine decodeList_of_forall₂ ?_
  rw [List.forall₂_map_right_iff, List.forall₂_same]
  exact fun _ _ => rfl

theorem collectDefaults_eq {kind : Kind} {count : Nat} {fields : List Field} {data : List Datum}
    (defaults : fields.map (·.type.default?) = data.map some) :
    collectDefaults kind count fields = .ok data := by
  induction fields generalizing data with
  | nil =>
    cases data with
    | nil => rfl
    | cons => cases defaults
  | cons f fields ih =>
    cases data with
    | nil => cases defaults
    | cons d data =>
      obtain ⟨first, others⟩ := List.cons.inj defaults
      simp only [collectDefaults, first, ih others, Except.map]

section

variable {f : Field} {fields : List Field} {d : Datum} {data : List Datum} {value : Json}
  {own extra members : List (String × Json)}

/-- The members of some fields have none for a field with another key. -/
theorem valuesAt_of_foreign (foreign : f.key ∉ fields.map (·.key))
    (keys : ∀ m ∈ own, m.1 ∈ fields.map (·.key)) : valuesAt f.key own = [] :=
  valuesAt_eq_nil fun m among same => foreign (same ▸ keys m among)

theorem Stands.extend (foreign : f.key ∉ fields.map (·.key))
    (stands : List.Forall₂ (Stands own) fields data) :
    List.Forall₂ (Stands ((f.key, value) :: own)) fields data := by
  have others : ∀ f' ∈ fields, f.key ≠ f'.key := fun f' among same =>
    foreign (same ▸ List.mem_map_of_mem among)
  refine ((List.forall₂_and_left _ _).mpr ⟨others, stands⟩).imp fun f' d ⟨ne, stands⟩ => ?_
  exact stands.of_eq (valuesAt_cons_of_ne ne)

/-- In an object with the tag and the fields of a kind, in any order and among other members, there
is one tag and the fields stand under their keys. -/
theorem resolves_of_stands {kind : Kind} (stands : List.Forall₂ (Stands own) kind.fields data)
    (keys : ∀ m ∈ own, m.1 ∈ kind.fields.map (·.key))
    (ignored : ∀ m ∈ extra, m.1 ≠ tagKey ∧ ∀ f ∈ kind.fields, m.1 ≠ f.key)
    (order : members.Perm ((tagKey, .string kind.tag) :: own ++ extra)) :
    valuesAt tagKey members = [.string kind.tag] ∧
      List.Forall₂ (Resolves kind.fields members []) kind.fields data := by
  obtain ⟨noTag, -⟩ := List.nodup_cons.mp (nodup_keys kind)
  have tag : valuesAt tagKey ((tagKey, .string kind.tag) :: own ++ extra) = [.string kind.tag] := by
    have others : ∀ m ∈ own ++ extra, m.1 ≠ tagKey := by
      intro m among
      rcases List.mem_append.mp among with own | extra
      · exact fun same => noTag (same ▸ keys m own)
      · exact (ignored m extra).1
    rw [List.cons_append, valuesAt_cons_self, valuesAt_eq_nil others]
  refine ⟨(valuesAt_of_perm order (by rw [tag]; rfl)).trans tag, ?_⟩
  refine ((List.forall₂_and_left _ _).mpr ⟨fun _ among => among, stands⟩).imp
    fun f d ⟨among, stands⟩ => ?_
  have ne : tagKey ≠ f.key := fun same => noTag (same ▸ List.mem_map_of_mem among)
  have whole : valuesAt f.key ((tagKey, .string kind.tag) :: own ++ extra) =
      valuesAt f.key own := by
    rw [List.cons_append, valuesAt_cons_of_ne ne, valuesAt_append,
      valuesAt_eq_nil fun m extra => (ignored m extra).2 f among, List.append_nil]
  have few := whole ▸ stands.length_le
  exact (stands.of_eq ((valuesAt_of_perm order few).trans whole)).resolves (find?_key f among)

/-- The value of an unknown tag makes an unrecognized node of an object, whatever else it holds. -/
theorem valuesAt_unrecognized {tag : String} (ignored : ∀ m ∈ extra, m.1 ≠ tagKey)
    (order : members.Perm ((tagKey, .string tag) :: extra)) :
    valuesAt tagKey members = [.string tag] := by
  have whole : valuesAt tagKey ((tagKey, .string tag) :: extra) = [.string tag] := by
    rw [valuesAt_cons_self, valuesAt_eq_nil ignored]
  exact (valuesAt_of_perm order (by rw [whole]; rfl)).trans whole

end

mutual

/-- Every spelling of a command is decoded to the command. -/
theorem decodeNode_of_spells {c : Command} {j : Json} (spelled : Spells c j) :
    decodeNode j = .ok c := by
  match spelled with
  | @Spells.object kind _ _ _ _ fields ignored order =>
    have distinct := (List.nodup_cons.mp (nodup_keys kind)).2
    obtain ⟨stands, keys⟩ := stands_of_spelled fields distinct
    obtain ⟨single, resolves⟩ := resolves_of_stands stands keys ignored order
    exact decodeNode_object single resolves
  | .array fields =>
    simp only [decodeNode, decodeTag, ofTag?_tag, decodeElements_of_spelled fields, Except.map]
  | .unrecognized unknown ignored order =>
    rw [decodeNode, decodeKind_eq (valuesAt_unrecognized ignored order), unknown]

theorem stands_of_spelled {fields : List Field} {data : List Datum} {own : List (String × Json)}
    (spelled : MembersSpelled fields data own) (distinct : (fields.map (·.key)).Nodup) :
    List.Forall₂ (Stands own) fields data ∧ ∀ m ∈ own, m.1 ∈ fields.map (·.key) := by
  match spelled with
  | .nil => exact ⟨.nil, nofun⟩
  | .written spelled others =>
    obtain ⟨foreign, distinct⟩ := List.nodup_cons.mp distinct
    obtain ⟨stands, keys⟩ := stands_of_spelled others distinct
    refine ⟨.cons (.written ?_ (decodeValue_of_spelled spelled)) (Stands.extend foreign stands),
      List.forall_mem_cons.mpr
        ⟨List.mem_cons_self, fun m among => List.mem_cons_of_mem _ (keys m among)⟩⟩
    rw [valuesAt_cons_self, valuesAt_of_foreign foreign keys]
  | .omitted default others =>
    obtain ⟨foreign, distinct⟩ := List.nodup_cons.mp distinct
    obtain ⟨stands, keys⟩ := stands_of_spelled others distinct
    exact ⟨.cons (.omitted (valuesAt_of_foreign foreign keys) default) stands,
      fun m among => List.mem_cons_of_mem _ (keys m among)⟩

theorem decodeElements_of_spelled {kind : Kind} {count : Nat} {fields : List Field}
    {data : List Datum} {values : List Json} (spelled : ValuesSpelled fields data values) :
    decodeElements kind count fields values = .ok data := by
  match spelled with
  | .omitted defaults => rw [decodeElements, collectDefaults_eq defaults]
  | .written spelled others =>
    simp only [decodeElements, decodeValue_of_spelled spelled, decodeElements_of_spelled others,
      Except.map]

theorem decodeValue_of_spelled {type : FieldType} {d : Datum} {j : Json}
    (spelled : DatumSpelled type d j) : decodeValue type j = .ok d := by
  match spelled with
  | .literal finite =>
    simp only [decodeValue, decodeField, decodeLiteral_encodeLiteral finite, Except.map]
  | .name => rfl
  | .unaryOp spelled =>
    simp only [decodeValue, decodeField, decodeOperator_of_spelled (by decide) spelled, Except.map]
  | .binaryOp spelled =>
    simp only [decodeValue, decodeField, decodeOperator_of_spelled (by decide) spelled, Except.map]
  | .logicalOp spelled =>
    simp only [decodeValue, decodeField, decodeOperator_of_spelled (by decide) spelled, Except.map]
  | .params spelled =>
    have decodes := decodeList_of_forall₂ (spelled.imp fun _ _ => decodeParam_of_spelled)
    simp only [decodeValue, decodeField, decodes, Except.map]
  | .names => simp only [decodeValue, decodeField, decodeText_names, Except.map]
  | .node spelled => simp only [decodeValue, decodeField, decodeNode_of_spells spelled, Except.map]
  | .absent => rfl
  | .present spelled =>
    have decodes := decodeNode_of_spells spelled
    cases j with
    | null => cases decodes
    | _ => simp only [decodeValue, decodeField, decodes, Except.map]
  | .nodes spelled =>
    simp only [decodeValue, decodeField, decodeNodes, decodeAll_of_spelled spelled, Except.map]

theorem decodeAll_of_spelled {cs : List Command} {js : List Json} (spelled : AllSpelled cs js) :
    decodeAll js = .ok cs := by
  match spelled with
  | .nil => rw [decodeAll]
  | .cons first others =>
    simp only [decodeAll, decodeNode_of_spells first, decodeAll_of_spelled others, Except.map]

end

/-! ## The canonical form -/

theorem paramSpelled_encodeParam (p : Param) : ParamSpelled p (encodeParam p) := by
  obtain ⟨name, type?⟩ := p
  cases type? with
  | none => exact .object .omitted (List.forall_mem_nil _) (.refl _)
  | some type => exact .object (.written .present) (List.forall_mem_nil _) (.refl _)

theorem allSpelled_encodeAll {cs : List Command} (spelled : ∀ c ∈ cs, Spells c (encode c)) :
    AllSpelled cs (encodeAll cs) := by
  rw [encodeAll_eq]
  induction cs with
  | nil => exact .nil
  | cons c cs ih =>
    obtain ⟨first, others⟩ := List.forall_mem_cons.mp spelled
    exact .cons first (ih others)

/-- The canonical form of a field spells it, if this is so of the commands inside. -/
theorem datumSpelled_encode {d : Datum} (finite : ∀ l, d = .literal l → l.isFinite = true)
    (inner : ∀ c ∈ d.commands, Spells c (encode c)) : DatumSpelled d.type d d.encode := by
  cases d with
  | literal l => exact .literal (finite l rfl)
  | name => exact .name
  | unaryOp op => exact .unaryOp (.name (by cases op <;> simp [unarySpellings, UnaryOp.symbol]))
  | binaryOp op => exact .binaryOp (.name (by cases op <;> simp [binarySpellings, BinaryOp.symbol]))
  | logicalOp op =>
    exact .logicalOp (.name (by cases op <;> simp [logicalSpellings, LogicalOp.symbol]))
  | node c => exact .node (inner c (List.mem_singleton_self c))
  | optionalNode c? =>
    cases c? with
    | none => exact .absent
    | some c => exact .present (inner c (List.mem_singleton_self c))
  | nodes cs => exact .nodes (allSpelled_encodeAll inner)
  | params ps =>
    refine .params ?_
    rw [List.forall₂_map_right_iff, List.forall₂_same]
    exact fun p _ => paramSpelled_encodeParam p
  | names => exact .names

theorem membersSpelled_encodeFields {fields : List Field} {data : List Datum}
    (typed : data.map Datum.type = fields.map Field.type)
    (finite : ∀ l, .literal l ∈ data → l.isFinite = true)
    (inner : ∀ d ∈ data, ∀ c ∈ d.commands, Spells c (encode c)) :
    MembersSpelled fields data (encodeFields fields data) := by
  induction fields generalizing data with
  | nil =>
    cases data with
    | nil => exact .nil
    | cons => cases typed
  | cons f fields ih =>
    cases data with
    | nil => cases typed
    | cons d data =>
      obtain ⟨type, others⟩ := List.cons.inj typed
      have rest := ih others (fun l among => finite l (List.mem_cons_of_mem _ among))
        fun d among => inner d (List.mem_cons_of_mem _ among)
      unfold encodeFields
      split
      · have spelled := datumSpelled_encode (fun l eq => finite l (eq ▸ List.mem_cons_self))
          (inner d List.mem_cons_self)
        exact .written (type ▸ spelled) rest
      · next missing =>
        have default : d.type.default? = some d := by
          cases d with
          | optionalNode c? => cases c? <;> first | rfl | exact absurd rfl missing
          | _ => exact absurd rfl missing
        exact .omitted (type ▸ default) rest

/-- The canonical form of a command is one of its spellings, if its literals are finite. -/
theorem spells_encode {c : Command} (finite : c.Finite) : Spells c (encode c) := by
  induction c using Command.inner_induction with
  | up c ih =>
    cases recognized : c.kind? with
    | none =>
      cases Command.eq_unrecognized_of_kind? recognized
      exact .unrecognized (by decide) (List.forall_mem_nil _) (.refl _)
    | some kind =>
      obtain ⟨literals, below⟩ := Command.everywhere_onLiteral_iff.mp finite
      have spelled := membersSpelled_encodeFields (Command.types_data recognized) literals
        fun d field b inside =>
          have among : b ∈ c.inner := List.mem_flatMap.mpr ⟨d, field, inside⟩
          ih b among (below b among)
      have whole := Spells.object spelled (List.forall_mem_nil _) (.refl _)
      rw [Command.assemble_data recognized, List.append_nil] at whole
      exact encode_eq recognized ▸ whole

/-! ## Texts -/

/-- A spelling has a single tag, which is a string. -/
theorem singleTag_of_spells {c : Command} {j : Json} (spelled : Spells c j) : SingleTag j := by
  cases spelled with
  | @object kind _ _ _ _ fields ignored order =>
    obtain ⟨stands, keys⟩ := stands_of_spelled fields (List.nodup_cons.mp (nodup_keys kind)).2
    obtain ⟨single, -⟩ := resolves_of_stands stands keys ignored order
    exact .inr ⟨rfl, _, single⟩
  | array => trivial
  | unrecognized unknown ignored order =>
    exact .inr ⟨rfl, _, valuesAt_unrecognized ignored order⟩

/-- A text of a spelling is decoded to the command within the nesting limit, and beyond it is no
JSON. -/
theorem decode_of_spells {c : Command} {j : Json} {text : String} (spelled : Spells c j)
    (scanned : Token.scan text.toList = j.tokens []) :
    decode text = if nesting text ≤ maxOpen then .ok c else .error .notJson := by
  have deep : nesting text = j.depth := by
    rw [nesting, scanned, deepest_tokens, Token.deepest, Nat.zero_add, Nat.max_zero]
  have read := read_root (singleTag_of_spells spelled)
  rw [decode, scanned, deep]
  by_cases shallow : j.depth ≤ maxOpen
  · rw [if_pos shallow] at read ⊢
    simp only [read, decodeNode_of_spells spelled, List.isEmpty_nil, if_true]
  · rw [if_neg shallow] at read ⊢
    simp only [read]

end ControlStash.Wire

namespace ControlStash

open Wire Json

/-- **All spellings of a tree decode to the same tree.** The canonical form of a tree whose float
literals are finite is one of its spellings. Any text that is cut into the tokens of a spelling, and
is within the nesting limit, is decoded to exactly the tree that is spelled; the compact text of the
spelling is such a text if its numbers are read back. -/
theorem spellings_agree :
    (∀ c : Command, c.Finite → Spells c (encode c)) ∧
    ∀ (c : Command) (j : Json), Spells c j →
      ((∀ n ∈ j.numbers, n.ReadsBack) → Token.scan j.render.toList = j.tokens []) ∧
      ∀ text : String, Token.scan text.toList = j.tokens [] → nesting text ≤ maxOpen →
        decode text = .ok c := by
  refine ⟨fun c finite => spells_encode finite, fun c j spelled => ⟨scan_render, ?_⟩⟩
  intro text scanned shallow
  rw [decode_of_spells spelled scanned, if_pos shallow]

/-- A spelling of `if (x == -2.5) function f(a, b int) undefined` that makes use of every choice. -/
def shuffledBranch : Json :=
  .object [
    ("note", .array [.object [("tag", .null)]]),
    ("alt", .null),
    ("cons", .object [
      ("body", .array [.string "lit"]),
      ("prms", .array [.array [.string "a"],
        .object [("type", .string "int"), ("name", .string "b")]]),
      ("sym", .string "f"),
      ("tag", .string "fun")]),
    ("pred", .array [.string "binop", .object [("===", .null)],
      .object [("sym", .string "x"), ("tag", .string "nam")],
      .array [.string "unop", .string "-unary",
        .object [("tag", .string "lit"), ("val", .number (.double 2.5))]]]),
    ("tag", .string "cond_stmt")]

/-- The tree that `shuffledBranch` spells. -/
def plainBranch : Command :=
  .branch (.binary .eq (.name "x") (.unary .neg (.lit (.float 2.5))))
    (.function "f" [⟨"a", none⟩, ⟨"b", some "int"⟩] (.lit .undefined)) none

/-- The keys of an object may stand in reverse. -/
theorem Wire.Spells.reversed (kind : Kind) {data : List Datum} {own extra : List (String × Json)}
    (fields : MembersSpelled kind.fields data own)
    (ignored : ∀ m ∈ extra, m.1 ≠ tagKey ∧ ∀ f ∈ kind.fields, m.1 ≠ f.key) :
    Spells (kind.assemble data) (.object ((tagKey, .string kind.tag) :: own ++ extra).reverse) :=
  .object fields ignored (List.reverse_perm _)

theorem shuffledBranch_spells : Spells plainBranch shuffledBranch := by
  have done : ValuesSpelled [] [] [] := .omitted rfl
  have x : Spells (.name "x") (.object [("sym", .string "x"), ("tag", .string "nam")]) :=
    .reversed .nam (.written .name .nil) (List.forall_mem_nil _)
  have number : Spells (.lit (.float 2.5))
      (.object [("tag", .string "lit"), ("val", .number (.double 2.5))]) :=
    spells_encode (by decide +kernel)
  have minus : OperatorSpelled unarySpellings .neg (.string "-unary") :=
    .name (by simp [unarySpellings])
  have equals : OperatorSpelled binarySpellings .eq (.object [("===", .null)]) :=
    .key (by simp [binarySpellings])
  have negated := @Spells.array .unop _ _ (.written (.unaryOp minus) (.written (.node number) done))
  have pred := @Spells.array .binop _ _
    (.written (.binaryOp equals) (.written (.node x) (.written (.node negated) done)))
  have params : List.Forall₂ ParamSpelled [⟨"a", none⟩, ⟨"b", some "int"⟩]
      [.array [.string "a"], .object [("type", .string "int"), ("name", .string "b")]] :=
    .cons (.short rfl) (.cons
      (.object (.written .present) (List.forall_mem_nil _) (.swap _ _ _)) .nil)
  have missing : Spells (.lit .undefined) (.array [.string "lit"]) :=
    @Spells.array .lit [.literal .undefined] [] (.omitted rfl)
  have cons := @Spells.reversed .function _ _ _
    (.written (@DatumSpelled.name "f") (.written (.params params) (.written (.node missing) .nil)))
    (List.forall_mem_nil _)
  have ignored : ∀ m ∈ [("note", Json.array [.object [("tag", .null)]])],
      m.1 ≠ tagKey ∧ ∀ f ∈ Kind.condStmt.fields, m.1 ≠ f.key := by
    simp [tagKey, Kind.fields]
  exact .reversed .condStmt (.written (.node pred) (.written (.node cons) (.written .absent .nil)))
    ignored

theorem spellings_agree_shuffledBranch :
    decode shuffledBranch.render = .ok plainBranch ∧ Spells plainBranch (encode plainBranch) := by
  have readsBack : ∀ n ∈ shuffledBranch.numbers, n.ReadsBack := by decide +kernel
  have shallow : nesting shuffledBranch.render ≤ maxOpen := by
    rw [nesting_render readsBack]
    decide +kernel
  obtain ⟨canonical, others⟩ := spellings_agree
  obtain ⟨cut, decodes⟩ := others plainBranch shuffledBranch shuffledBranch_spells
  exact ⟨decodes _ (cut readsBack) shallow, canonical _ (by decide +kernel)⟩

/-- Not every tree is decoded from its own canonical text. The text of a finite float is scaled with
a rounding of its own when it is read, and may come back as the next float; a float that is not
finite is written `null`, the text of no value; and a number out of range spoils a text even in a
member that is ignored. -/
theorem canonical_text_misread :
    ((Command.lit (.float 1e-23)).render = "\x7b\"tag\":\"lit\",\"val\":1e-23\x7d" ∧
      decode "\x7b\"tag\":\"lit\",\"val\":1e-23\x7d" =
        .ok (.lit (.float 1.0000000000000001e-23)) ∧
      (1.0000000000000001e-23 : Float) ≠ 1e-23) ∧
    ((Command.lit (.float (0.0 / 0.0))).render = "\x7b\"tag\":\"lit\",\"val\":null\x7d" ∧
      decode "\x7b\"tag\":\"lit\",\"val\":null\x7d" = .ok (.lit .undefined)) ∧
    decode "\x7b\"tag\":\"nam\",\"sym\":\"x\",\"note\":1e400\x7d" = .error .notJson := by
  refine ⟨⟨by decide +kernel, ?_, by decide +kernel⟩, ⟨by decide +kernel, ?_⟩, ?_⟩
  · have spelled : Spells (.lit (.float 1.0000000000000001e-23)) _ :=
      spells_encode (by decide +kernel)
    rw [decode_of_spells spelled (by decide +kernel), if_pos (by decide +kernel)]
  · have spelled : Spells (.lit .undefined) _ := spells_encode rfl
    rw [decode_of_spells spelled (by decide +kernel), if_pos (by decide +kernel)]
  · have scanned : Token.scan "\x7b\"tag\":\"nam\",\"sym\":\"x\",\"note\":1e400\x7d".toList =
        [.openBrace, .string "tag", .colon, .string "nam", .comma, .string "sym", .colon,
          .string "x", .comma, .string "note", .colon, .unreadable] := by
      decide +kernel
    rw [decode, scanned]
    rfl

end ControlStash
