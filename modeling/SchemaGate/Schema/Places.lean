import SchemaGate.Schema.Acceptance

/-!
# Places where a value meets a schema

A check walks through a schema and a value together. A place of this walk is the steps
that lead there and the node and the value that meet there. `places` lists the places in
the order of traversal: each one before those inside it, elements by rising position,
properties in the order of their declaration. A null that counts as absent makes no
place. What is wrong at a place itself is its `violation?`, which looks at the required
names of an object but not into its members.

Nothing here stops early or remembers anything.
-/

namespace SchemaGate

variable {ι : Type}

namespace Node

mutual

/-- Whether a node requires a name, asked anew at every node. -/
def requiresAny : Node ι → Bool
  | ⟨_, kind, _, properties, required, _⟩ =>
    kind == .object && (!required.isEmpty || anyRequiresAny properties)
termination_by structural node => node

/-- Whether one of the properties requires a name. -/
def anyRequiresAny : List (String × Node ι) → Bool
  | [] => false
  | (_, child) :: rest => requiresAny child || anyRequiresAny rest
termination_by structural properties => properties

end

theorem anyRequiresAny_eq_any (properties : List (String × Node ι)) :
    anyRequiresAny properties = properties.any fun property => property.2.requiresAny := by
  induction properties with
  | nil => rfl
  | cons property rest ih => rw [anyRequiresAny, ih, List.any_cons]

theorem requiresAny_iff {node : Node ι} : node.requiresAny = true ↔ node.Requires := by
  induction node using Node.induction with
  | step node ihp _ =>
    have unfolded : node.requiresAny = (node.kind == .object &&
        (!node.required.isEmpty || anyRequiresAny node.properties)) := by
      cases node
      rfl
    rw [unfolded, requires_iff, anyRequiresAny_eq_any]
    simp only [Bool.and_eq_true, beq_iff_eq, Bool.or_eq_true, Bool.not_eq_true',
      NameSet.isEmpty_eq_false_iff, List.any_eq_true]
    refine and_congr_right fun _ => or_congr_right (exists_congr fun property => ?_)
    exact and_congr_right (ihp property)

instance (node : Node ι) : Decidable node.Requires := decidable_of_iff _ requiresAny_iff

/-- What is wrong between a node and a value, whatever is inside the value. -/
def breach? (node : Node ι) : Json → Option Violation
  | .null =>
    if node.kind.isScalar then some (.here (.wrongKind node.kind .null))
    else if node.Requires then some (.here .nullWithRequired)
    else none
  | .object members =>
    if node.kind = .object then
      (node.required.names.find? (isAbsent members)).map fun name =>
        ⟨[.name name], .missingRequired⟩
    else some (.here (.wrongKind node.kind .object))
  | value =>
    if value.kind = node.kind.values then none
    else some (.here (.wrongKind node.kind value.kind))

/-- A value of another kind is what is wrong, unless it is a null that stands for an empty
value. -/
theorem breach?_of_kind_ne {node : Node ι} {value : Json} (hv : value.kind ≠ node.kind.values)
    (hn : value = .null → node.kind.isScalar = true) :
    node.breach? value = some (.here (.wrongKind node.kind value.kind)) := by
  cases value with
  | null => exact if_pos (hn rfl)
  | object members => exact if_neg fun hk => hv (NodeKind.values_eq_object_iff.mpr hk).symm
  | bool value => exact if_neg hv
  | number value => exact if_neg hv
  | string text => exact if_neg hv
  | array elements => exact if_neg hv

/-- An array node puts up with null. -/
theorem breach?_null_of_array {node : Node ι} (hk : node.kind = .array) :
    node.breach? .null = none := by
  have free : ¬ node.Requires := fun h => by
    rw [(requires_iff.mp h).1] at hk
    cases hk
  rw [breach?, if_neg (by simp [hk, NodeKind.isScalar]), if_neg free]

/-- An object node puts up with null unless a name is required. -/
theorem breach?_null_of_object {node : Node ι} (hk : node.kind = .object) :
    node.breach? .null = if node.Requires then some (.here .nullWithRequired) else none := by
  rw [breach?, if_neg (by simp [hk, NodeKind.isScalar])]

/-- An object node misses the first required name that is absent. -/
theorem breach?_object {node : Node ι} (hk : node.kind = .object)
    (members : List (String × Json)) : node.breach? (.object members) =
      (node.required.names.find? (isAbsent members)).map fun name =>
        ⟨[.name name], .missingRequired⟩ :=
  if_pos hk

/-- A node rejects a value, whatever is inside it, with the given words. -/
inductive Rejects : Node ι → Json → String → Prop where
  /-- The value is of another kind. -/
  | kind {node : Node ι} {value : Json} : value ≠ .null → value.kind ≠ node.kind.values →
      Rejects node value ("expected " ++ node.kind.name ++ ", got " ++ value.kind.name)
  /-- Null stands for no scalar. -/
  | nullScalar {node : Node ι} : node.kind.isScalar = true →
      Rejects node .null ("expected " ++ node.kind.name ++ ", got null")
  /-- Null stands for no object that must hold a name. -/
  | nullObject {node : Node ι} : node.kind = .object → Requires node →
      Rejects node .null "null where required fields are declared"

/-- What is wrong between a node and a value is that the node rejects the value or misses a
required name in it. -/
theorem breach?_cases {node : Node ι} {value : Json} {violation : Violation}
    (h : node.breach? value = some violation) :
    (violation.steps = [] ∧ node.Rejects value violation.reason.message) ∨
    ∃ members name, value = .object members ∧ node.kind = .object ∧ name ∈ node.required ∧
      isAbsent members name = true ∧ violation = ⟨[.name name], .missingRequired⟩ := by
  by_cases hn : value = .null
  · subst hn
    rw [breach?] at h
    split at h
    · next hs =>
      obtain rfl := Option.some.inj h
      refine .inl ⟨rfl, ?_⟩
      rw [show (Violation.here (.wrongKind node.kind .null)).reason.message =
        "expected " ++ node.kind.name ++ ", got null" from String.append_assoc ..]
      exact .nullScalar hs
    · split at h
      · next hr =>
        obtain rfl := Option.some.inj h
        exact .inl ⟨rfl, .nullObject (requires_iff.mp hr).1 hr⟩
      · cases h
  · by_cases hk : value.kind = node.kind.values
    · cases value with
      | null => exact absurd rfl hn
      | object members =>
        have object : node.kind = .object := NodeKind.values_eq_object_iff.mp hk.symm
        rw [breach?_object object] at h
        obtain ⟨name, hf, rfl⟩ := Option.map_eq_some_iff.mp h
        exact .inr ⟨members, name, rfl, object, List.mem_of_find?_eq_some hf,
          List.find?_some hf, rfl⟩
      | bool value | number value | string value | array value =>
        rw [breach?, if_pos hk] at h
        · cases h
        all_goals nofun
    · rw [breach?_of_kind_ne hk fun null => absurd null hn] at h
      obtain rfl := Option.some.inj h
      exact .inl ⟨rfl, .kind hn hk⟩

/-- Follow steps through a schema and a value together, positions into items and names into
properties. -/
def walk? : List Step → Node ι → Json → Option (Node ι × Json)
  | [], node, value => some (node, value)
  | .index position :: rest, node, .array elements =>
    if node.kind = .array then
      node.items.bind fun child => elements[position]?.bind fun element =>
        walk? rest child element
    else none
  | .name key :: rest, node, .object members =>
    if node.kind = .object then
      (KeyedList.find? key node.properties).bind fun child =>
        (KeyedList.find? key members).bind fun field => walk? rest child field
    else none
  | _, _, _ => none

end Node

/-- A place where a value meets a schema. -/
structure Place (ι : Type) where
  /-- The steps from the root to the place. -/
  steps : List Step
  /-- The node there. -/
  node : Node ι
  /-- The value there. -/
  value : Json

namespace Place

/-- The place seen from one step above. -/
def below (step : Step) (place : Place ι) : Place ι :=
  { place with steps := step :: place.steps }

/-- What is wrong at the place, seen from the root. -/
def violation? (place : Place ι) : Option Violation :=
  (place.node.breach? place.value).map fun violation =>
    { violation with steps := place.steps ++ violation.steps }

theorem violation?_below (step : Step) (place : Place ι) :
    (place.below step).violation? = place.violation?.map (Violation.below step) := by
  unfold violation?
  rw [Option.map_map]
  rfl

/-- Nothing leads to a place at the root. -/
theorem violation?_root (node : Node ι) (value : Json) :
    violation? ⟨[], node, value⟩ = node.breach? value := by
  simp [violation?]

end Place

namespace Node

mutual

/-- The places where a value meets a schema, in the order of traversal. -/
def places : Node ι → Json → List (Place ι)
  | ⟨label, kind, description, properties, required, items⟩, value =>
    ⟨[], ⟨label, kind, description, properties, required, items⟩, value⟩ ::
      match kind, value with
      | .array, .array elements => elementPlaces items elements
      | .object, .object members => memberPlaces properties members
      | _, _ => []
termination_by structural node => node

/-- The places inside an array. -/
def elementPlaces : Option (Node ι) → List Json → List (Place ι)
  | none, _ => []
  | some node, elements => elements.zipIdx.flatMap fun element =>
      (places node element.1).map (Place.below (.index element.2))
termination_by structural items => items

/-- The places inside an object. -/
def memberPlaces : List (String × Node ι) → List (String × Json) → List (Place ι)
  | [], _ => []
  | (name, child) :: rest, members =>
    match KeyedList.find? name members with
    | none => memberPlaces rest members
    | some field =>
      if field.isNull && child.kind != .object then memberPlaces rest members
      else (places child field).map (Place.below (.name name)) ++ memberPlaces rest members
termination_by structural properties => properties

end

theorem places_array {node : Node ι} (hk : node.kind = .array) (elements : List Json) :
    node.places (.array elements) =
      ⟨[], node, .array elements⟩ :: elementPlaces node.items elements := by
  cases node
  cases hk
  rfl

theorem places_object {node : Node ι} (hk : node.kind = .object)
    (members : List (String × Json)) : node.places (.object members) =
      ⟨[], node, .object members⟩ :: memberPlaces node.properties members := by
  cases node
  cases hk
  rfl

/-- There are places inside a value only if it is an array or an object and its node says
so. -/
theorem places_cases (node : Node ι) (value : Json) :
    (∃ elements, node.kind = .array ∧ value = .array elements) ∨
    (∃ members, node.kind = .object ∧ value = .object members) ∨
    node.places value = [⟨[], node, value⟩] := by
  obtain ⟨label, kind, description, properties, required, items⟩ := node
  unfold places
  split
  · exact .inl ⟨_, rfl, rfl⟩
  · exact .inr (.inl ⟨_, rfl, rfl⟩)
  · exact .inr (.inr rfl)

/-- A place inside an array is a place in one of its elements. -/
theorem mem_elementPlaces_iff {items : Option (Node ι)} {elements : List Json}
    {place : Place ι} : place ∈ elementPlaces items elements ↔
      ∃ child, items = some child ∧ ∃ (position : Nat) (element : Json),
        elements[position]? = some element ∧
        ∃ inner ∈ child.places element, inner.below (.index position) = place := by
  cases items with
  | none => simp [elementPlaces]
  | some child =>
    simp only [elementPlaces, List.mem_flatMap, List.mem_map, Prod.exists,
      List.mem_zipIdx_iff_getElem?, Option.some.injEq, exists_eq_left']
    exact exists_comm

/-- A place inside an object is a place in a declared member that counts. -/
theorem mem_memberPlaces_iff {properties : List (String × Node ι)}
    {members : List (String × Json)} {place : Place ι} :
    place ∈ memberPlaces properties members ↔
      ∃ property ∈ properties, ∃ field, KeyedList.find? property.1 members = some field ∧
        (field = .null → property.2.kind = .object) ∧
        ∃ inner ∈ property.2.places field, inner.below (.name property.1) = place := by
  induction properties with
  | nil => simp [memberPlaces]
  | cons property rest ih =>
    obtain ⟨name, child⟩ := property
    simp only [List.mem_cons, exists_eq_or_imp]
    rw [memberPlaces, ← ih]
    cases KeyedList.find? name members with
    | none => simp
    | some field =>
      dsimp only
      split
      · next hn =>
        have hn : field = .null ∧ ¬ child.kind = .object := by
          simpa [Json.isNull_iff] using hn
        simp [hn]
      · next hn =>
        have hn : field = .null → child.kind = .object := by simpa [Json.isNull_iff] using hn
        simp [iff_true_intro hn]

/-- Something holds of the places where a value meets a schema if it holds at the root and
a step down keeps it. -/
@[elab_as_elim]
theorem mem_places_induction {motive : Node ι → Json → Place ι → Prop}
    (root : ∀ node value, motive node value ⟨[], node, value⟩)
    (element : ∀ node child elements (position : Nat) part place, node.kind = .array →
      node.items = some child → elements[position]? = some part → motive child part place →
      motive node (.array elements) (place.below (.index position)))
    (member : ∀ node members property part place, node.kind = .object →
      property ∈ node.properties → KeyedList.find? property.1 members = some part →
      motive property.2 part place → motive node (.object members) (place.below (.name property.1)))
    {node : Node ι} {value : Json} {place : Place ι} (h : place ∈ node.places value) :
    motive node value place := by
  induction node using Node.induction generalizing value place with
  | step node ihp ihi =>
    rcases node.places_cases value with ⟨elements, hk, rfl⟩ | ⟨members, hk, rfl⟩ | alone
    · rw [places_array hk, List.mem_cons, mem_elementPlaces_iff] at h
      rcases h with rfl | ⟨child, hi, position, part, he, inner, hm, rfl⟩
      · exact root node (.array elements)
      · exact element node child elements position part inner hk hi he (ihi child hi hm)
    · rw [places_object hk, List.mem_cons, mem_memberPlaces_iff] at h
      rcases h with rfl | ⟨property, hp, part, hf, -, inner, hm, rfl⟩
      · exact root node (.object members)
      · exact member node members property part inner hk hp hf (ihp property hp hm)
    · rw [alone, List.mem_singleton] at h
      rw [h]
      exact root node value

/-- The nodes at places stand in the schema. -/
theorem within_of_mem_places {node : Node ι} {value : Json} {place : Place ι}
    (h : place ∈ node.places value) : place.node.Within node := by
  refine mem_places_induction (motive := fun node _ place => place.node.Within node)
    ?_ ?_ ?_ h
  · exact fun node _ => .self node
  · exact fun _ _ _ _ _ _ _ hi _ inside => .items hi inside
  · exact fun _ _ _ _ _ _ hp _ inside => .property hp inside

end Node

end SchemaGate
