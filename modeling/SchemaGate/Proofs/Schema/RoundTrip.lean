import SchemaGate.Json.Sorted
import SchemaGate.Schema.Document
import SchemaGate.Schema.Trimming

/-!
# Reading schemas back

A schema that is written as a document and read back has lost what the document does not show:
the members that the kinds of its nodes ignore, and the order in which properties were declared.
Nothing else changes: what is read equals the trimmed schema, and it is written the same again.

`Node.toJson_eq` says once what the normal form of a node consists of. Reading goes through
these parts in their order (`Schema.readMembers_ownMembers`), with as much room for brackets as
the document needs (`Schema.readsBack_of_wellFormed`). A document from elsewhere may show a
schema in a form in which none is written; what is read of it is well-formed all the same
(`Schema.wellFormed_of_read`), and so the first part applies to it.
-/

namespace SchemaGate

open Json (Draft)

namespace Node

variable {ι : Type} {node : Node ι}

theorem propertyDocuments_eq_map (properties : List (String × Node ι)) :
    propertyDocuments properties =
      properties.map fun property => (property.1, property.2.toDocument) := by
  induction properties with
  | nil => rfl
  | cons property rest ih => rw [propertyDocuments, ih, List.map_cons]

/-- The members that only the kind of a node brings into its normal form. -/
def ownMembers (node : Node ι) : List (String × Json) :=
  match node.kind with
  | .object => [
      ("properties", .object ((KeyedList.sorted node.properties).map fun property =>
        (property.1, property.2.toJson))),
      ("required", Json.ofStrings node.required)]
  | .array => (node.items.map fun child => ("items", child.toJson)).toList
  | _ => []

/-- In a document as it is declared the kind comes first, and what it brings last. -/
theorem exists_toDocument_eq (node : Node ι) : ∃ own : List (String × Json),
    node.toDocument = .object
      (("type", .string node.kind.name) :: (describe node.description ++ own)) ∧
    Json.sortedMembers own = node.ownMembers := by
  obtain ⟨label, kind, description, properties, required, items⟩ := node
  cases kind with
  | object =>
    refine ⟨_, rfl, ?_⟩
    have inner : (propertyDocuments properties).map (fun entry => (entry.1, entry.2.sorted)) =
        properties.map fun property => (property.1, property.2.toJson) := by
      rw [propertyDocuments_eq_map, List.map_map]
      rfl
    simp only [Json.sortedMembers, Json.sorted, Json.sortedMembers_eq_map, inner,
      KeyedList.sorted_map, Json.sorted_ofStrings, ownMembers]
  | array =>
    refine ⟨_, rfl, ?_⟩
    cases items <;> rfl
  | string | number | boolean => exact ⟨[], rfl, rfl⟩

theorem isRising_normal (node : Node ι) : KeyedList.IsRising (describe node.description ++
    (node.ownMembers ++ [("type", .string node.kind.name)])) := by
  have described : KeyedList.keys (describe node.description) = [] ∨
      KeyedList.keys (describe node.description) = ["description"] := by
    unfold describe
    split <;> simp [KeyedList.keys]
  have own : KeyedList.keys node.ownMembers = [] ∨
      KeyedList.keys node.ownMembers = ["items"] ∨
      KeyedList.keys node.ownMembers = ["properties", "required"] := by
    unfold ownMembers
    cases node.kind <;> cases node.items <;> simp [KeyedList.keys]
  have names : KeyedList.keys (describe node.description ++
      (node.ownMembers ++ [("type", Json.string node.kind.name)])) =
      KeyedList.keys (describe node.description) ++
        (KeyedList.keys node.ownMembers ++ ["type"]) := by
    simp only [KeyedList.keys, List.map_append, List.map_cons, List.map_nil]
  rw [KeyedList.IsRising, names]
  rcases described with hd | hd <;> rcases own with ho | ho | ho <;> rw [hd, ho] <;> decide

theorem sortedMembers_describe (description : String) :
    Json.sortedMembers (describe description) = describe description := by
  unfold describe
  split <;> rfl

/-- The normal form of a schema: its description if there is one, what its kind brings, and
last the kind. -/
theorem toJson_eq (node : Node ι) : node.toJson = .object (describe node.description ++
    (node.ownMembers ++ [("type", .string node.kind.name)])) := by
  obtain ⟨own, document, sortedOwn⟩ := exists_toDocument_eq node
  have sortedRest : Json.sortedMembers (describe node.description ++ own) =
      describe node.description ++ node.ownMembers := by
    rw [Json.sortedMembers_eq_map, List.map_append, ← Json.sortedMembers_eq_map,
      ← Json.sortedMembers_eq_map, sortedMembers_describe, sortedOwn]
  rw [toJson, document, Json.sorted, Json.sortedMembers, sortedRest, Json.sorted]
  refine congrArg Json.object (KeyedList.sorted_eq_of_perm (isRising_normal node) ?_)
  rw [← List.append_assoc]
  exact (List.perm_append_singleton _ _).symm

end Node

namespace Schema

section Members

variable {kind : Draft → Read NodeKind} {properties : Draft → Read (KeyedList String Schema)}
  {required : Draft → Read NameSet} {items : Draft → Read Schema} {seen : List String}
  {node : Schema}

theorem readMembers_describe (description : String) (rest : List (Option String × Draft)) :
    ∃ seen : List String, (∀ name ∈ seen, name = "description") ∧
      (layout kind properties required items).readMembers [] (Node.bare .string)
          (Draft.ofMembers (Node.describe description) ++ rest) =
        (layout kind properties required items).readMembers seen
          { Node.bare .string with description } rest := by
  by_cases hd : description = ""
  · subst hd
    exact ⟨[], fun _ hm => absurd hm List.not_mem_nil, rfl⟩
  · refine ⟨["description"], fun _ hm => List.mem_singleton.mp hm, ?_⟩
    rw [Node.describe, if_neg hd]
    exact RecordLayout.readMembers_cons rfl List.not_mem_nil rfl rest

theorem readMembers_type {draft : Draft} {outcome : NodeKind} (fresh : "type" ∉ seen)
    (hk : kind draft = .ok outcome) :
    (layout kind properties required items).readMembers seen node [(some "type", draft)] =
      .ok { node with kind := outcome } := by
  rw [RecordLayout.readMembers_cons rfl fresh (Member.read_needed hk node)]
  refine RecordLayout.readMembers_nil ?_
  simp [RecordLayout.firstMissing?, layout, Member.needed, Member.defaulted]

theorem readMembers_object {first second third : Draft} {held : KeyedList String Schema}
    {names : NameSet} {outcome : NodeKind} (early : ∀ name ∈ seen, name = "description")
    (hp : properties first = .ok held) (hr : required second = .ok names)
    (hk : kind third = .ok outcome) :
    (layout kind properties required items).readMembers seen node
        [(some "properties", first), (some "required", second), (some "type", third)] =
      .ok { node with kind := outcome, properties := held, required := names } := by
  have fresh : ∀ name, name ≠ "description" → name ∉ seen := fun name hne hm => hne (early name hm)
  rw [RecordLayout.readMembers_cons rfl (fresh _ (by decide)) (Member.read_defaulted hp node),
    RecordLayout.readMembers_cons rfl (by simp [fresh]) (Member.read_defaulted hr _),
    readMembers_type (by simp [fresh]) hk]

theorem readMembers_items {first second : Draft} {child : Schema} {outcome : NodeKind}
    (early : ∀ name ∈ seen, name = "description")
    (hi : Read.optional items first = .ok (some child)) (hk : kind second = .ok outcome) :
    (layout kind properties required items).readMembers seen node
        [(some "items", first), (some "type", second)] =
      .ok { node with kind := outcome, items := some child } := by
  have fresh : ∀ name, name ≠ "description" → name ∉ seen := fun name hne hm => hne (early name hm)
  rw [RecordLayout.readMembers_cons rfl (fresh _ (by decide)) (Member.read_defaulted hi node),
    readMembers_type (by simp [fresh]) hk]

end Members

/-- Inside the bracket of a schema, properties have a bracket of their own. -/
theorem exists_read_object_eq (origin : Origin) (inner : Nat) :
    ∃ properties : Draft → Read (KeyedList String Schema),
      (∀ deeper, inner = deeper + 1 → properties = Read.parts inner (read origin deeper)) ∧
      ∀ members, read origin (inner + 1) (.object members) =
        (layout (NodeKind.reader origin inner) properties (Read.textSet inner)
          (read origin inner)).readMembers [] (Node.bare .string) members := by
  cases inner with
  | zero =>
    refine ⟨_, fun deeper hd => ?_, fun _ => rfl⟩
    cases hd
  | succ deeper =>
    refine ⟨_, fun other hd => ?_, fun _ => rfl⟩
    obtain rfl := Nat.succ.inj hd
    rfl

theorem reader_ofJson_name (kind : NodeKind) (room : Nat) :
    NodeKind.reader .value room (Draft.ofJson (.string kind.name)) = .ok kind := by
  cases kind <;> rfl

/-- The normal form of a schema is not null, so it is read as items that are there. -/
theorem optional_toJson {ι : Type} {child : Node ι} {reader : Draft → Read Schema}
    {outcome : Schema} (h : reader (Draft.ofJson child.toJson) = .ok outcome) :
    Read.optional reader (Draft.ofJson child.toJson) = .ok (some outcome) := by
  rw [Node.toJson_eq] at h ⊢
  exact Read.map_eq_ok_iff.mpr ⟨outcome, h, rfl⟩

/-- A schema is read back from its normal form as the trimmed schema, arranged, as soon as there
is room for the brackets. -/
def ReadsBack {ι : Type} (node : Node ι) : Prop :=
  ∀ room, (Draft.ofJson node.toJson).nesting ≤ room →
    read .value room (Draft.ofJson node.toJson) = .ok node.trimmed.arranged

/-- Properties are read back in rising order. -/
theorem parts_toJson {ι : Type} {properties : List (String × Node ι)} {deeper : Nat}
    (each : ∀ property ∈ properties, ReadsBack property.2)
    (shallow : (Draft.ofJson (.object ((KeyedList.sorted properties).map fun property =>
      (property.1, property.2.toJson)))).nesting ≤ deeper + 1) :
    Read.parts (deeper + 1) (read .value deeper)
        (Draft.ofJson (.object ((KeyedList.sorted properties).map fun property =>
          (property.1, property.2.toJson)))) =
      .ok (KeyedList.sorted (properties.map fun property =>
        (property.1, property.2.trimmed.arranged))) := by
  have below := Draft.nesting_object_le_iff.mp shallow
  rw [KeyedList.sorted_map (fun child : Node ι => child.trimmed.arranged) properties]
  refine Read.parts_ofJson Node.toJson (fun child => child.trimmed.arranged) ?_
    (Nat.succ_pos deeper) fun property hm => ?_
  · exact KeyedList.nodup_keys_of_isRising (KeyedList.isRising_sorted _)
  · refine each property (KeyedList.mem_of_mem_sorted hm) deeper ?_
    refine below (some property.1, _) ?_
    rw [Draft.ofMembers_eq_map, List.map_map]
    exact List.mem_map_of_mem hm

/-- What a kind brings into the normal form of a node is read back into the trimmed node. -/
theorem readMembers_ownMembers {ι : Type} {node : Node ι} {inner : Nat} {seen : List String}
    {properties : Draft → Read (KeyedList String Schema)}
    (early : ∀ name ∈ seen, name = "description")
    (shallow : ∀ member ∈ Draft.ofMembers node.ownMembers, member.2.nesting ≤ inner)
    (deep : ∀ deeper, inner = deeper + 1 → properties = Read.parts inner (read .value deeper))
    (inProperties : ∀ property ∈ node.properties, ReadsBack property.2)
    (inItems : ∀ child, node.items = some child → ReadsBack child) :
    (layout (NodeKind.reader .value inner) properties (Read.textSet inner)
        (read .value inner)).readMembers seen
      { Node.bare .string with description := node.description }
      (Draft.ofMembers node.ownMembers ++
        [(some "type", Draft.ofJson (.string node.kind.name))]) =
      .ok node.trimmed.arranged := by
  have kindRead := fun kind => reader_ofJson_name kind inner
  have fresh : ∀ name, name ≠ "description" → name ∉ seen := fun name hne hm => hne (early name hm)
  cases hk : node.kind with
  | object =>
    have own : node.ownMembers = [
        ("properties", .object ((KeyedList.sorted node.properties).map fun property =>
          (property.1, property.2.toJson))),
        ("required", Json.ofStrings node.required)] := by rw [Node.ownMembers, hk]
    rw [own] at shallow ⊢
    have bracket := shallow _ List.mem_cons_self
    cases inner with
    | zero => exact absurd bracket (Nat.not_succ_le_zero _)
    | succ deeper =>
      have held := parts_toJson inProperties bracket
      have names := Read.textSet_ofStrings node.required (Nat.succ_pos deeper)
      rw [deep deeper rfl, Node.trimmed_of_object hk, Node.arranged_eq]
      refine (readMembers_object early held names (kindRead .object)).trans ?_
      simp only [List.map_map, Function.comp_def]
      rfl
  | array =>
    rw [Node.trimmed_of_array hk, Node.arranged_eq]
    cases hi : node.items with
    | none =>
      have own : node.ownMembers = [] := by rw [Node.ownMembers, hk, hi]; rfl
      rw [own]
      exact readMembers_type (fresh _ (by decide)) (kindRead .array)
    | some child =>
      have own : node.ownMembers = [("items", child.toJson)] := by
        rw [Node.ownMembers, hk, hi]
        rfl
      rw [own] at shallow ⊢
      have inside := inItems child hi _ (shallow _ List.mem_cons_self)
      exact readMembers_items early (optional_toJson inside) (kindRead .array)
  | string | number | boolean =>
    have own : node.ownMembers = [] := by rw [Node.ownMembers, hk]
    rw [own, Node.trimmed_of_isScalar (by rw [hk]; rfl), Node.arranged_eq, hk]
    exact readMembers_type (fresh _ (by decide)) (kindRead _)

theorem readsBack_of_wellFormed {ι : Type} {node : Node ι} (h : node.WellFormed) :
    ReadsBack node := by
  induction node using Node.induction with
  | step node properties items =>
    intro room hr
    have members : Draft.ofJson node.toJson =
        .object (Draft.ofMembers (Node.describe node.description) ++
          (Draft.ofMembers node.ownMembers ++
            [(some "type", Draft.ofJson (.string node.kind.name))])) := by
      rw [Node.toJson_eq]
      refine congrArg Draft.object ?_
      rw [Draft.ofMembers_append, Draft.ofMembers_append]
      rfl
    rw [members] at hr ⊢
    cases room with
    | zero => exact absurd hr (Nat.not_succ_le_zero _)
    | succ inner =>
      have shallow := Draft.nesting_object_le_iff.mp hr
      obtain ⟨propertiesReader, deep, opened⟩ := exists_read_object_eq .value inner
      obtain ⟨seen, early, described⟩ := readMembers_describe node.description
        (Draft.ofMembers node.ownMembers ++ [(some "type", Draft.ofJson (.string node.kind.name))])
      rw [opened, described]
      exact readMembers_ownMembers early
        (fun member hm => shallow member (by simp [hm])) deep
        (fun property hm => properties property hm (h.of_mem_properties hm))
        fun child hi => items child hi (h.of_items hi)

theorem ofJson_toJson {ι : Type} {node : Node ι} (h : node.WellFormed) :
    ofJson node.toJson = .ok node.trimmed.arranged := by
  have found : reader.ofJson node.toJson = .ok node.trimmed.arranged :=
    readsBack_of_wellFormed h _ (Nat.le_refl _)
  rw [ofJson, found]

/-- Members that are read put well-formed parts into a schema and so keep it well-formed. -/
theorem keeps_wellFormed {kind : Draft → Read NodeKind}
    {properties : Draft → Read (KeyedList String Schema)} {required : Draft → Read NameSet}
    {items : Draft → Read Schema}
    (hp : ∀ draft held, properties draft = .ok held →
      held.keys.Nodup ∧ ∀ part ∈ held, part.2.WellFormed)
    (hi : ∀ draft child, items draft = .ok child → child.WellFormed) :
    (layout kind properties required items).Keeps Node.WellFormed := by
  intro member hm draft node result h read
  have parts := Node.wellFormed_iff.mp h
  rw [Node.wellFormed_iff]
  simp only [layout, List.mem_cons, List.not_mem_nil, or_false] at hm
  rcases hm with rfl | rfl | rfl | rfl | rfl <;>
    obtain ⟨part, hpart, rfl⟩ := Read.map_eq_ok_iff.mp read
  · exact parts
  · exact parts
  · obtain ⟨names, inner⟩ := hp _ _ hpart
    exact ⟨names, inner, parts.2.2⟩
  · exact parts
  · refine ⟨parts.1, parts.2.1, fun child hc => ?_⟩
    obtain rfl : part = some child := hc
    unfold Read.optional at hpart
    split at hpart
    · cases hpart
    · obtain ⟨inner, hinner, he⟩ := Read.map_eq_ok_iff.mp hpart
      exact Option.some.inj he ▸ hi _ _ hinner

/-- Whatever is read as a schema is well-formed. -/
theorem wellFormed_of_read {origin : Origin} {room : Nat} {draft : Draft} {schema : Schema}
    (h : read origin room draft = .ok schema) : schema.WellFormed := by
  induction room using Nat.strongRecOn generalizing draft schema with
  | ind room ih =>
    have blank := Node.wellFormed_bare .string
    have parts : ∀ (room : Nat) (inner : Draft → Read Schema),
        (∀ draft child, inner draft = .ok child → child.WellFormed) →
        ∀ draft held, Read.parts room inner draft = .ok held →
          held.keys.Nodup ∧ ∀ part ∈ held, part.2.WellFormed := by
      intro room inner below draft held hread
      obtain ⟨distinct, each⟩ := Read.of_parts_eq_ok hread
      refine ⟨distinct, fun part hm => ?_⟩
      obtain ⟨inside, hinside⟩ := each part hm
      exact below _ _ hinside
    have closed : ∀ (draft : Draft) (child : Schema),
        (Read.malformed : Read Schema) = .ok child → child.WellFormed :=
      fun _ _ hread => nomatch hread
    match room with
    | 0 => exact (keeps_wellFormed (parts _ _ closed) closed).read blank h
    | 1 =>
      have below := fun draft child => @ih 0 Nat.one_pos draft child
      exact (keeps_wellFormed (parts _ _ closed) below).read blank h
    | deeper + 2 =>
      have below := fun draft child => @ih (deeper + 1) (Nat.lt_succ_self _) draft child
      have deep := fun draft child => @ih deeper (by omega) draft child
      exact (keeps_wellFormed (parts _ _ deep) below).read blank h

theorem wellFormed_of_ofJson {document : Json} {schema : Schema}
    (h : ofJson document = .ok schema) : schema.WellFormed := by
  unfold ofJson at h
  split at h
  · next outcome hread => exact Except.ok.inj h ▸ wellFormed_of_read hread
  · cases h
  · cases h

end Schema

namespace Node

variable {ι κ : Type}

/-- Properties whose normal forms stay the same keep their place in a normal form. -/
theorem sorted_properties_congr {f : Node ι → Node κ} {properties : List (String × Node ι)}
    (h : ∀ property ∈ properties, (f property.2).toJson = property.2.toJson) :
    (KeyedList.sorted (properties.map fun property => (property.1, f property.2))).map
        (fun property => (property.1, property.2.toJson)) =
      (KeyedList.sorted properties).map fun property => (property.1, property.2.toJson) := by
  rw [KeyedList.sorted_map, List.map_map]
  refine List.map_congr_left fun property hm => ?_
  exact congrArg (Prod.mk property.1) (h property (KeyedList.mem_of_mem_sorted hm))

/-- What a kind ignores is in no document. -/
theorem toJson_trimmed (node : Node ι) : node.trimmed.toJson = node.toJson := by
  induction node using induction with
  | step node properties items =>
    rw [toJson_eq, toJson_eq]
    cases hk : node.kind with
    | object =>
      rw [trimmed_of_object hk]
      simp only [ownMembers, hk, sorted_properties_congr properties]
    | array =>
      rw [trimmed_of_array hk]
      cases hi : node.items with
      | none => simp only [ownMembers, hk, hi, Option.map_none]
      | some child => simp only [ownMembers, hk, hi, Option.map_some, items child hi]
    | string | number | boolean =>
      rw [trimmed_of_isScalar (by rw [hk]; rfl)]
      simp only [ownMembers, hk]

/-- Labels and the order in which properties were declared are in no document. -/
theorem toJson_arranged (node : Node ι) : node.arranged.toJson = node.toJson := by
  induction node using induction with
  | step node properties items =>
    have own : node.arranged.ownMembers = node.ownMembers := by
      rw [arranged_eq]
      unfold ownMembers
      cases hk : node.kind with
      | object => simp only [KeyedList.sorted_sorted, sorted_properties_congr properties]
      | array =>
        cases hi : node.items with
        | none => rfl
        | some child => simp only [Option.map_some, items child hi]
      | string | number | boolean => rfl
    rw [toJson_eq, toJson_eq, own, arranged_eq]

end Node

/-- Schemas and their documents. A schema is read back from its document as what it is without
the members that the kinds of its nodes ignore. Reading a document and writing what was read is
a normal form: it can be read again, and is then written the same. -/
theorem documents_read_back_trimmed :
    (∀ (ι : Type) (node : Node ι), node.WellFormed →
      ∃ schema, Schema.ofJson node.toJson = .ok schema ∧ schema.equal node.trimmed = true) ∧
    (∀ document schema, Schema.ofJson document = .ok schema →
      ∃ again, Schema.ofJson schema.toJson = .ok again ∧ again.toJson = schema.toJson) := by
  constructor
  · intro ι node h
    exact ⟨_, Schema.ofJson_toJson h, Node.equal_arranged h.trimmed⟩
  · intro document schema h
    have again := Schema.ofJson_toJson (Schema.wellFormed_of_ofJson h)
    exact ⟨_, again, (Node.toJson_arranged _).trans (Node.toJson_trimmed schema)⟩

/-- The total of a basket stores a required name, which a number does not use. -/
def basketTotal : Schema := { Node.bare .number with required := .ofList ["currency"] }

/-- The parts of a basket are texts; the array stores a property, which it does not use. -/
def basketParts : Schema :=
  { Node.arrayOf (Node.bare .string) with
    properties := [("weight", Node.bare .number)], required := .ofList ["weight"] }

/-- A basket stores items, which an object does not use. -/
def basket : Schema where
  label := ()
  kind := .object
  description := "what is bought"
  properties := [("total", basketTotal), ("parts", basketParts)]
  required := .ofList ["total", "parts"]
  items := some (Node.bare .boolean)

/-- The document of a basket. -/
def basketDocument : Json := .object [
  ("description", .string "what is bought"),
  ("properties", .object [
    ("parts", .object [
      ("items", .object [("type", .string "string")]), ("type", .string "array")]),
    ("total", .object [("type", .string "number")])]),
  ("required", Json.ofStrings ["total", "parts"]),
  ("type", .string "object")]

theorem wellFormed_basket : basket.WellFormed := by
  have total : basketTotal.WellFormed := by
    rw [Node.wellFormed_iff]
    simp [basketTotal, Node.bare, KeyedList.keys]
  have parts : basketParts.WellFormed := by
    rw [Node.wellFormed_iff]
    simp [basketParts, Node.arrayOf, KeyedList.keys, Node.wellFormed_bare]
  rw [Node.wellFormed_iff]
  simp [basket, KeyedList.keys, total, parts, Node.wellFormed_bare]

theorem documents_read_back_trimmed_basket :
    basket.WellFormed ∧ basket.toJson = basketDocument ∧
    ∃ schema, Schema.ofJson basketDocument = .ok schema ∧ schema.equal basket.trimmed = true ∧
      schema.equal basket = false ∧
      ∃ again, Schema.ofJson schema.toJson = .ok again ∧ again.toJson = basketDocument := by
  have shown : basket.toJson = basketDocument := by decide
  obtain ⟨schema, read, same⟩ := documents_read_back_trimmed.1 Unit basket wellFormed_basket
  have found : schema = basket.trimmed.arranged :=
    Except.ok.inj (read.symm.trans (Schema.ofJson_toJson wellFormed_basket))
  obtain ⟨again, readAgain, written⟩ := documents_read_back_trimmed.2 _ _ read
  have rewritten : schema.toJson = basketDocument := by
    rw [found, Node.toJson_arranged, Node.toJson_trimmed, shown]
  refine ⟨wellFormed_basket, shown, schema, shown ▸ read, same, ?_, again, readAgain,
    written.trans rewritten⟩
  rw [found]
  decide

end SchemaGate
