import SchemaGate.Proofs.Json.ReadBack
import SchemaGate.Proofs.Schema.Agreement
import SchemaGate.Proofs.Schema.RoundTrip

/-!
# The shape of schema documents

The document of a schema opens a bracket for each node, one more around the properties of an
object and one around the list of its required names. It holds no numbers, and an object in it
embeds a document only if a property has the name of the embedding key. What is read back from it
says the same as the schema.
-/

namespace SchemaGate

open Json (Draft)

namespace Node

variable {ι : Type}

/-- How deep brackets nest in the document of a schema. -/
def nesting (node : Node ι) : Nat := (Draft.ofJson node.toJson).nesting

/-- The list of required names has one bracket. -/
theorem nesting_ofStrings_le (names : List String) (room : Nat) :
    (Draft.ofJson (Json.ofStrings names)).nesting ≤ room + 1 := by
  rw [Json.ofStrings, Draft.ofJson, Draft.nesting_array_le_iff, Draft.ofElements_eq_map,
    List.forall_mem_map, List.forall_mem_map]
  exact fun _ _ => Nat.zero_le room

/-- Beyond its own bracket a document nests as deep as what the kind of the node brings. -/
theorem nesting_le_iff {node : Node ι} {room : Nat} : node.nesting ≤ room + 1 ↔
    ∀ member ∈ node.ownMembers, (Draft.ofJson member.2).nesting ≤ room := by
  have described : ∀ member ∈ describe node.description,
      (Draft.ofJson member.2).nesting ≤ room := by
    unfold describe
    split
    · exact fun _ hm => absurd hm List.not_mem_nil
    · exact List.forall_mem_singleton.mpr (Nat.zero_le room)
  have named : ∀ member ∈ [("type", Json.string node.kind.name)],
      (Draft.ofJson member.2).nesting ≤ room := List.forall_mem_singleton.mpr (Nat.zero_le room)
  rw [nesting, toJson_eq, Draft.ofJson, Draft.nesting_object_le_iff, Draft.ofMembers_eq_map,
    List.forall_mem_map, List.forall_mem_append, List.forall_mem_append]
  exact ⟨fun h => h.2.1, fun h => ⟨described, h, named⟩⟩

/-- A scalar has one bracket. -/
theorem nesting_le_of_isScalar {node : Node ι} (hk : node.kind.isScalar = true) :
    node.nesting ≤ 1 := by
  have none : node.ownMembers = [] := by
    unfold ownMembers
    cases h : node.kind with
    | object | array => rw [h] at hk; cases hk
    | string | number | boolean => rfl
  rw [nesting_le_iff, none]
  exact fun _ hm => absurd hm List.not_mem_nil

/-- An array has one bracket around its items. -/
theorem nesting_le_of_array {node : Node ι} (hk : node.kind = .array) {room : Nat}
    (items : ∀ child, node.items = some child → child.nesting ≤ room) :
    node.nesting ≤ room + 1 := by
  rw [nesting_le_iff]
  unfold ownMembers
  rw [hk]
  intro member hm
  obtain ⟨child, hi, rfl⟩ := Option.map_eq_some_iff.mp (Option.mem_toList.mp hm)
  exact items child hi

/-- An object has two brackets around its properties. -/
theorem nesting_le_of_object {node : Node ι} (hk : node.kind = .object) {room : Nat}
    (properties : ∀ property ∈ node.properties, property.2.nesting ≤ room) :
    node.nesting ≤ room + 2 := by
  rw [nesting_le_iff]
  unfold ownMembers
  rw [hk]
  simp only [List.forall_mem_cons, List.not_mem_nil, false_implies, implies_true, and_true]
  refine ⟨?_, nesting_ofStrings_le _ room⟩
  rw [Draft.ofJson, Draft.nesting_object_le_iff, Draft.ofMembers_eq_map, List.forall_mem_map,
    List.forall_mem_map]
  intro property hm
  exact properties property (KeyedList.mem_of_mem_sorted hm)

/-- No property in the schema announces an embedded document. -/
def EmbedsNothing (root : Node ι) : Prop :=
  ∀ node : Node ι, Within node root → Json.embeddingKey ∉ KeyedList.keys node.properties

theorem embedsNothing_iff {root : Node ι} :
    root.EmbedsNothing ↔ Json.embeddingKey ∉ KeyedList.keys root.properties ∧
      (∀ property ∈ root.properties, property.2.EmbedsNothing) ∧
      ∀ child, root.items = some child → child.EmbedsNothing :=
  forall_within_iff

/-- What the kind of a node brings is plain if the documents of the children are. -/
theorem isPlain_of_mem_ownMembers {node : Node ι}
    (names : Json.embeddingKey ∉ KeyedList.keys node.properties)
    (properties : ∀ property ∈ node.properties, property.2.toJson.IsPlain)
    (items : ∀ child, node.items = some child → child.toJson.IsPlain) :
    ∀ entry ∈ node.ownMembers, entry.1 ≠ Json.embeddingKey ∧ entry.2.IsPlain := by
  unfold ownMembers
  cases node.kind with
  | object =>
    have declared : (Json.object ((KeyedList.sorted node.properties).map fun property =>
        (property.1, property.2.toJson))).IsPlain := by
      rw [← KeyedList.sorted_map]
      refine .object (KeyedList.isRising_sorted _) ?_ ?_
      · intro _ hm announced
        obtain ⟨property, hp, rfl⟩ := List.mem_map.mp (KeyedList.mem_of_mem_sorted hm)
        exact names (List.mem_map.mpr ⟨property, hp, announced⟩)
      · intro _ hm
        obtain ⟨property, hp, rfl⟩ := List.mem_map.mp (KeyedList.mem_of_mem_sorted hm)
        exact properties property hp
    have required : (Json.ofStrings node.required).IsPlain := by
      refine .array fun _ hm => ?_
      obtain ⟨name, -, rfl⟩ := List.mem_map.mp hm
      exact .string name
    simp only [List.forall_mem_cons, List.not_mem_nil, false_implies, implies_true, and_true]
    exact ⟨⟨by decide, declared⟩, by decide, required⟩
  | array =>
    intro _ hm
    obtain ⟨child, hi, rfl⟩ := Option.map_eq_some_iff.mp (Option.mem_toList.mp hm)
    have name : "items" ≠ Json.embeddingKey := by decide
    exact ⟨name, items child hi⟩
  | string | number | boolean => exact fun _ hm => absurd hm List.not_mem_nil

/-- The document of a schema is plain unless it embeds something. -/
theorem isPlain_toJson {node : Node ι} (h : node.EmbedsNothing) : node.toJson.IsPlain := by
  induction node using induction with
  | step node properties items =>
    obtain ⟨names, inProperties, inItems⟩ := embedsNothing_iff.mp h
    have own := isPlain_of_mem_ownMembers names
      (fun property hm => properties property hm (inProperties property hm))
      fun child hi => items child hi (inItems child hi)
    have description : "description" ≠ Json.embeddingKey := by decide
    have described : ∀ entry ∈ describe node.description,
        entry.1 ≠ Json.embeddingKey ∧ entry.2.IsPlain := by
      unfold describe
      split
      · exact fun _ hm => absurd hm List.not_mem_nil
      · exact List.forall_mem_singleton.mpr ⟨description, .string _⟩
    have kind : "type" ≠ Json.embeddingKey := by decide
    have all : ∀ entry ∈ describe node.description ++
        (node.ownMembers ++ [("type", Json.string node.kind.name)]),
        entry.1 ≠ Json.embeddingKey ∧ entry.2.IsPlain := by
      rw [List.forall_mem_append, List.forall_mem_append, List.forall_mem_singleton]
      exact ⟨described, own, kind, .string _⟩
    rw [toJson_eq]
    exact .object (isRising_normal node) (fun entry hm => (all entry hm).1)
      fun entry hm => (all entry hm).2

/-- What a kind ignores makes no difference. -/
theorem agrees_trimmed (node : Node ι) : node.trimmed.Agrees node := by
  induction node using induction with
  | step node properties items =>
    cases hk : node.kind with
    | object =>
      rw [trimmed_of_object hk]
      refine .intro hk.symm (fun _ _ => Iff.rfl) (fun _ name => ?_) ?_ nofun nofun
      · rw [KeyedList.find?_map, Option.map_eq_none_iff]
      · intro _ name child twin hc ht
        rw [KeyedList.find?_map, ht, Option.map_some] at hc
        obtain rfl := Option.some.inj hc
        exact properties _ (KeyedList.mem_of_find?_eq_some ht)
    | array =>
      rw [trimmed_of_array hk]
      refine .intro hk.symm nofun nofun nofun (fun _ => Option.map_eq_none_iff) ?_
      intro _ child twin hc ht
      have same : (some twin).map trimmed = some child := ht ▸ hc
      obtain rfl := Option.some.inj same
      exact items twin ht
    | string | number | boolean =>
      rw [trimmed_of_isScalar (by rw [hk]; rfl)]
      refine .intro rfl ?_ ?_ ?_ ?_ ?_
      all_goals
        intro impossible
        rw [hk] at impossible
        cases impossible

/-- What is read back from the document of a schema says the same as the schema. -/
theorem exists_ofJson_toJson {node : Node ι} (h : node.WellFormed) :
    ∃ schema, Schema.ofJson node.toJson = .ok schema ∧ ∀ value,
      (schema.Accepts value ↔ node.Accepts value) ∧ schema.prune? value = node.prune? value := by
  have read := Schema.ofJson_toJson h
  have wellFormed := Schema.wellFormed_of_ofJson read
  have arranged := agrees_of_equal wellFormed (equal_arranged h.trimmed)
  refine ⟨node.trimmed.arranged, read, fun value => ⟨?_, ?_⟩⟩
  · rw [arranged.accepts_iff wellFormed h.trimmed, (agrees_trimmed node).accepts_iff h.trimmed h]
  · rw [arranged.prune?_eq wellFormed h.trimmed, (agrees_trimmed node).prune?_eq h.trimmed h]

end Node

end SchemaGate
