import SchemaGate.Schema.Equality

/-!
# Trimmed and arranged schemas

A schema may store members that the kind of a node ignores. `trimmed` drops them at every
depth: properties and required names stay with objects, items with arrays. `arranged` keeps
all members but forgets what no document shows, labels and the order in which properties were
declared, and so it leaves the schema equal to what it was (`equal_arranged`).
-/

namespace SchemaGate.Node

variable {ι : Type}

mutual

/-- The schema without the members that the kinds of its nodes ignore. -/
def trimmed : Node ι → Node ι
  | ⟨label, kind, description, properties, required, items⟩ =>
    match kind with
    | .object => ⟨label, .object, description, trimmedProperties properties, required, none⟩
    | .array => ⟨label, .array, description, [], .empty, trimmedItems items⟩
    | scalar => ⟨label, scalar, description, [], .empty, none⟩
termination_by structural node => node

/-- Properties without what is ignored in them. -/
def trimmedProperties : List (String × Node ι) → List (String × Node ι)
  | [] => []
  | (name, child) :: rest => (name, trimmed child) :: trimmedProperties rest
termination_by structural properties => properties

/-- Items without what is ignored in them. -/
def trimmedItems : Option (Node ι) → Option (Node ι)
  | none => none
  | some node => some (trimmed node)
termination_by structural items => items

end

mutual

/-- The schema without labels, the properties of every node in rising order of their names. -/
def arranged : Node ι → Schema
  | ⟨_, kind, description, properties, required, items⟩ =>
    ⟨(), kind, description, KeyedList.sorted (arrangedProperties properties), required,
      arrangedItems items⟩
termination_by structural node => node

/-- Properties in their order, each arranged. -/
def arrangedProperties : List (String × Node ι) → List (String × Schema)
  | [] => []
  | (name, child) :: rest => (name, arranged child) :: arrangedProperties rest
termination_by structural properties => properties

/-- Items, arranged. -/
def arrangedItems : Option (Node ι) → Option Schema
  | none => none
  | some node => some (arranged node)
termination_by structural items => items

end

theorem trimmedProperties_eq_map (properties : List (String × Node ι)) :
    trimmedProperties properties =
      properties.map fun property => (property.1, property.2.trimmed) := by
  induction properties with
  | nil => rfl
  | cons property rest ih => rw [trimmedProperties, ih, List.map_cons]

theorem trimmedItems_eq_map (items : Option (Node ι)) :
    trimmedItems items = items.map trimmed := by
  cases items <;> rfl

/-- A trimmed object keeps its properties, trimmed, and its required names. -/
theorem trimmed_of_object {node : Node ι} (h : node.kind = .object) :
    node.trimmed = ⟨node.label, .object, node.description,
      node.properties.map fun property => (property.1, property.2.trimmed), node.required,
      none⟩ := by
  obtain ⟨label, kind, description, properties, required, items⟩ := node
  obtain rfl : kind = .object := h
  rw [trimmed, trimmedProperties_eq_map]

/-- A trimmed array keeps its items, trimmed. -/
theorem trimmed_of_array {node : Node ι} (h : node.kind = .array) :
    node.trimmed = ⟨node.label, .array, node.description, [], .empty, node.items.map trimmed⟩ := by
  obtain ⟨label, kind, description, properties, required, items⟩ := node
  obtain rfl : kind = .array := h
  rw [trimmed, trimmedItems_eq_map]

/-- A trimmed scalar keeps nothing beside its description. -/
theorem trimmed_of_isScalar {node : Node ι} (h : node.kind.isScalar = true) :
    node.trimmed = ⟨node.label, node.kind, node.description, [], .empty, none⟩ := by
  obtain ⟨label, kind, description, properties, required, items⟩ := node
  cases kind with
  | object | array => cases h
  | string | number | boolean => rfl

theorem arrangedProperties_eq_map (properties : List (String × Node ι)) :
    arrangedProperties properties =
      properties.map fun property => (property.1, property.2.arranged) := by
  induction properties with
  | nil => rfl
  | cons property rest ih => rw [arrangedProperties, ih, List.map_cons]

theorem arranged_eq (node : Node ι) : node.arranged = ⟨(), node.kind, node.description,
    KeyedList.sorted (node.properties.map fun property => (property.1, property.2.arranged)),
    node.required, node.items.map arranged⟩ := by
  obtain ⟨label, kind, description, properties, required, items⟩ := node
  rw [arranged, arrangedProperties_eq_map]
  cases items <;> rfl

/-- Trimming leaves a schema well-formed. -/
theorem WellFormed.trimmed {node : Node ι} (h : node.WellFormed) : node.trimmed.WellFormed := by
  induction node using induction with
  | step node properties items =>
    rw [wellFormed_iff] at h ⊢
    obtain ⟨names, inProperties, inItems⟩ := h
    cases hk : node.kind with
    | object =>
      rw [trimmed_of_object hk, KeyedList.keys_map]
      refine ⟨names, ?_, fun _ hc => nomatch hc⟩
      rintro _ hm
      obtain ⟨property, hp, rfl⟩ := List.mem_map.mp hm
      exact properties property hp (inProperties property hp)
    | array =>
      rw [trimmed_of_array hk]
      refine ⟨List.nodup_nil, fun _ hm => absurd hm List.not_mem_nil, ?_⟩
      rintro _ hc
      obtain ⟨child, hi, rfl⟩ := Option.map_eq_some_iff.mp hc
      exact items child hi (inItems child hi)
    | string | number | boolean =>
      rw [trimmed_of_isScalar (by rw [hk]; rfl)]
      simp [KeyedList.keys]

theorem sameNames_self (names : NameSet) : sameNames names names = true := by
  simp [sameNames]

/-- The order of properties and the labels do not matter for equality. -/
theorem equal_arranged {node : Node ι} (h : node.WellFormed) :
    node.arranged.equal node = true := by
  induction node using induction with
  | step node properties items =>
    have names := h.nodup_keys
    have reordered := KeyedList.sorted_perm ((KeyedList.keys_map arranged node.properties).symm ▸
      names)
    rw [arranged_eq, equal_iff]
    refine ⟨rfl, rfl, ?_, ?_, sameNames_self _, Option.map_eq_none_iff, ?_⟩
    · exact reordered.length_eq.trans (List.length_map _)
    · intro twin hm
      obtain ⟨⟨name, child⟩, hp, rfl⟩ := List.mem_map.mp (reordered.mem_iff.mp hm)
      exact ⟨child, (KeyedList.find?_eq_some_iff names).mpr hp,
        properties _ hp (h.of_mem_properties hp)⟩
    · intro twin child ht hi
      obtain ⟨other, ho, rfl⟩ := Option.map_eq_some_iff.mp ht
      obtain rfl := Option.some.inj (ho.symm.trans hi)
      exact items other ho (h.of_items ho)

end SchemaGate.Node
