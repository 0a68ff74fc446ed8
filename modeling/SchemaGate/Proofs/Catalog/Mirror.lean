import Mathlib.Data.List.Induction
import SchemaGate.Proofs.Catalog.Declaration
import SchemaGate.Proofs.Catalog.DocumentDepth

/-!
# Schemas mirror records

What a schema has to look like to say what the records say of a type is laid down by a relation
between the two that knows no bound (`Mirrors`): which properties an object has, in which order,
what each of them holds, and which texts describe them. Unfolding a type gives the one schema that
mirrors its records. The bound shows in nothing but how deep objects stand inside each other.
-/

namespace SchemaGate

namespace KeyedList

variable {κ α : Type} [DecidableEq κ]

/-- Entries under the same distinct keys are told apart by what is found. -/
theorem ext_of_keys {entries others : KeyedList κ α} (keys : entries.keys = others.keys)
    (hn : entries.keys.Nodup) (found : ∀ key, entries.find? key = others.find? key) :
    entries = others := by
  induction entries generalizing others with
  | nil => exact (List.map_eq_nil_iff.mp keys.symm).symm
  | cons entry rest ih =>
    obtain ⟨key, value⟩ := entry
    cases others with
    | nil => cases keys
    | cons other more =>
      obtain ⟨same, value'⟩ := other
      obtain ⟨rfl, later⟩ := List.cons.inj keys
      obtain ⟨absent, nodup⟩ := List.nodup_cons.mp hn
      have first := found key
      simp only [find?, if_pos] at first
      obtain rfl := Option.some.inj first
      congr 1
      refine ih later nodup fun other => ?_
      by_cases he : key = other
      · subst he
        have missing : key ∉ KeyedList.keys more := fun hm => absent (later ▸ hm)
        rw [find?_eq_none_iff.mpr absent, find?_eq_none_iff.mpr missing]
      · have behind := found other
        simp only [find?, if_neg he] at behind
        exact behind

end KeyedList

namespace NameSet

/-- The set of the names of a list keeps the first of each. -/
theorem names_ofList (names : List String) : (ofList names).names = names.eraseDups := by
  induction names using List.reverseRecOn with
  | nil => rfl
  | append_singleton names name ih =>
    rw [ofList, List.foldl_append, ← ofList, List.foldl_cons, List.foldl_nil, names_add, ih,
      List.eraseDups_append]
    by_cases hm : name ∈ names
    · simp [hm, List.removeAll]
    · simp [hm, List.removeAll, List.eraseDups_cons]

end NameSet

namespace Node

variable {ι : Type}

mutual

/-- How many objects stand inside each other at most, counting the schema itself. -/
def objectDepth : Node ι → Nat
  | ⟨_, kind, _, properties, _, items⟩ =>
    (if kind = .object then 1 else 0) + max (propertiesDepth properties) (itemsDepth items)
termination_by structural node => node

/-- The same of the properties of an object. -/
def propertiesDepth : List (String × Node ι) → Nat
  | [] => 0
  | (_, child) :: rest => max (objectDepth child) (propertiesDepth rest)
termination_by structural properties => properties

/-- The same of the elements of an array. -/
def itemsDepth : Option (Node ι) → Nat
  | none => 0
  | some node => objectDepth node
termination_by structural items => items

end

theorem propertiesDepth_le_iff {properties : List (String × Node ι)} {room : Nat} :
    propertiesDepth properties ≤ room ↔
      ∀ property ∈ properties, property.2.objectDepth ≤ room := by
  induction properties with
  | nil => simp [propertiesDepth]
  | cons property rest ih => rw [propertiesDepth, Nat.max_le, ih, List.forall_mem_cons]

theorem itemsDepth_le_iff {items : Option (Node ι)} {room : Nat} :
    itemsDepth items ≤ room ↔ ∀ child, items = some child → child.objectDepth ≤ room := by
  cases items <;> simp [itemsDepth]

/-- Below its own object a schema has the room that its children need. -/
theorem objectDepth_le_iff {node : Node ι} {room : Nat} :
    node.objectDepth ≤ (if node.kind = .object then 1 else 0) + room ↔
      (∀ property ∈ node.properties, property.2.objectDepth ≤ room) ∧
      ∀ child, node.items = some child → child.objectDepth ≤ room := by
  obtain ⟨_, kind, _, properties, _, items⟩ := node
  rw [objectDepth, Nat.add_le_add_iff_left, Nat.max_le, propertiesDepth_le_iff, itemsDepth_le_iff]

/-- No array in the schema has arrays as its elements. -/
def FlatLists (root : Node ι) : Prop :=
  ∀ node : Node ι, Within node root → ∀ child, node.items = some child → child.kind ≠ .array

theorem flatLists_iff {root : Node ι} :
    root.FlatLists ↔ (∀ child, root.items = some child → child.kind ≠ .array) ∧
      (∀ property ∈ root.properties, property.2.FlatLists) ∧
      ∀ child, root.items = some child → child.FlatLists :=
  forall_within_iff

@[simp] theorem objectDepth_describedAs (node : Node ι) (description : String) :
    (node.describedAs description).objectDepth = node.objectDepth := by
  cases node
  rfl

@[simp] theorem flatLists_describedAs {node : Node ι} {description : String} :
    (node.describedAs description).FlatLists ↔ node.FlatLists := by
  rw [flatLists_iff, flatLists_iff]
  rfl

theorem flatLists_bare (kind : NodeKind) : (bare kind).FlatLists := by
  rw [flatLists_iff]
  simp [bare]

theorem objectDepth_bare {kind : NodeKind} (scalar : kind.isScalar = true) :
    (bare kind).objectDepth = 0 := by
  have other : kind ≠ .object := by
    rintro rfl
    cases scalar
  rw [bare, objectDepth, if_neg other]
  rfl

end Node

/-- The kind of schema of a scalar kind of field. -/
def FieldKind.scalar? : FieldKind → Option NodeKind
  | string => some .string
  | number => some .number
  | boolean => some .boolean
  | custom => none

namespace Catalog

mutual

/-- The schema says what the records say of a type. -/
inductive Mirrors (catalog : Catalog) : TypeId → Schema → Prop where
  /-- An object with the description of the type and without items. Its properties are the
  names of the fields, its required names those of the required fields, both in the order in
  which they first occur. Under each name stands what mirrors the last field of that name. -/
  | object {id : TypeId} {type : CustomType} {schema : Schema} :
      catalog.type? id = some type → schema.kind = .object →
      schema.description = type.description → schema.items = none →
      KeyedList.keys schema.properties =
        ((catalog.fieldsOf id).map TypeField.name).eraseDups →
      schema.required.names =
        (((catalog.fieldsOf id).filter TypeField.required).map TypeField.name).eraseDups →
      (∀ front field back, catalog.fieldsOf id = front ++ field :: back →
        (∀ later ∈ back, later.name ≠ field.name) → ∀ child,
        KeyedList.find? field.name schema.properties = some child →
        MirrorsField catalog field child) →
      Mirrors catalog id schema

/-- The schema says what the records say of a field. -/
inductive MirrorsField (catalog : Catalog) : TypeField → Schema → Prop where
  /-- A list has the description of the field. -/
  | list {field : TypeField} {element : Schema} :
      field.isArray = true → MirrorsElement catalog field element →
      MirrorsField catalog field
        { label := (), kind := .array, description := field.description, items := some element }
  /-- A scalar has the description of the field. -/
  | scalar {field : TypeField} {kind : NodeKind} :
      field.isArray = false → field.kind.scalar? = some kind →
      MirrorsField catalog field { label := (), kind, description := field.description }
  /-- A single value of a type is described by the type alone. -/
  | single {field : TypeField} {child : Schema} :
      field.isArray = false → field.kind = .custom → MirrorsElement catalog field child →
      MirrorsField catalog field child

/-- The schema says what the records say of one value of a field. -/
inductive MirrorsElement (catalog : Catalog) : TypeField → Schema → Prop where
  /-- A scalar with nothing else. -/
  | scalar {field : TypeField} {kind : NodeKind} :
      field.kind.scalar? = some kind → MirrorsElement catalog field { label := (), kind }
  /-- A value of the type that the field refers to. -/
  | custom {field : TypeField} {target : TypeId} {child : Schema} :
      field.kind = .custom → field.reference = some target → Mirrors catalog target child →
      MirrorsElement catalog field child

end

end Catalog

namespace Component

variable {schemas : Component → Except UnfoldError Schema} {object whole : Schema}
  {components : List Component}

/-- Components leave the description of the object alone. -/
theorem description_of_addAll (h : addAll schemas object components = .ok whole) :
    whole.description = object.description := by
  refine addAll_induction (motive := fun held => held.description = object.description) h rfl ?_
  intro held component property _ _ same
  rw [← same, addTo]
  split <;> rfl

/-- The declared names are those of the components, added one after the other. -/
theorem keys_properties_of_addAll (h : addAll schemas object components = .ok whole)
    {declared : NameSet} (start : KeyedList.keys object.properties = declared.names) :
    KeyedList.keys whole.properties =
      ((components.map Component.name).foldl NameSet.add declared).names := by
  induction components generalizing object declared with
  | nil =>
    obtain rfl := addAll_nil_eq_ok_iff.mp h
    exact start
  | cons component rest ih =>
    obtain ⟨property, -, later⟩ := addAll_cons_eq_ok_iff.mp h
    rw [List.map_cons, List.foldl_cons]
    refine ih later ?_
    rw [properties_addTo, KeyedList.keys_insert, NameSet.names_add, start]

/-- The required names are those of the required components, added one after the other. -/
theorem required_of_addAll (h : addAll schemas object components = .ok whole) :
    whole.required = ((components.filter Component.required).map Component.name).foldl
      NameSet.add object.required := by
  induction components generalizing object with
  | nil =>
    obtain rfl := addAll_nil_eq_ok_iff.mp h
    rfl
  | cons component rest ih =>
    obtain ⟨property, -, later⟩ := addAll_cons_eq_ok_iff.mp h
    rw [ih later, required_addTo]
    by_cases hr : component.required = true
    · rw [if_pos hr, List.filter_cons_of_pos hr, List.map_cons, List.foldl_cons]
    · rw [if_neg hr, List.filter_cons_of_neg hr]

/-- The schema of one value is a scalar of the kind of the component, or that of a type. -/
theorem element_cases_scalar? {component : Component}
    {refer : TypeId → Except UnfoldError Schema} {element : Schema}
    (h : component.element refer = .ok element) :
    (∃ kind : NodeKind, component.kind.scalar? = some kind ∧ element = .bare kind) ∨
      component.kind = .custom ∧ ∃ target, component.reference = some target ∧
        refer target = .ok element := by
  rcases element_cases h with ⟨hk, rfl⟩ | ⟨hk, rfl⟩ | ⟨hk, rfl⟩ | custom
  · exact .inl ⟨.string, by rw [hk]; rfl, rfl⟩
  · exact .inl ⟨.number, by rw [hk]; rfl, rfl⟩
  · exact .inl ⟨.boolean, by rw [hk]; rfl, rfl⟩
  · exact .inr custom

end Component

theorem FieldKind.isScalar_of_scalar? {kind : FieldKind} {scalar : NodeKind}
    (h : kind.scalar? = some scalar) : kind.isScalar = true := by
  cases kind <;> cases h <;> rfl

/-- Among fields one of which has a name, one is the last to have it. -/
theorem exists_last_of_name {fields : List TypeField} {name : String}
    (h : ∃ field ∈ fields, field.name = name) : ∃ front field back,
      fields = front ++ field :: back ∧ field.name = name ∧
        ∀ later ∈ back, later.name ≠ name := by
  induction fields with
  | nil => obtain ⟨_, hm, -⟩ := h; exact absurd hm List.not_mem_nil
  | cons first rest ih =>
    by_cases again : ∃ field ∈ rest, field.name = name
    · obtain ⟨front, field, back, rfl, named, last⟩ := ih again
      exact ⟨first :: front, field, back, rfl, named, last⟩
    · have later : ∀ field ∈ rest, field.name ≠ name :=
        fun field hm same => again ⟨field, hm, same⟩
      obtain ⟨field, hm, named⟩ := h
      rcases List.mem_cons.mp hm with rfl | hm
      · exact ⟨[], field, rest, rfl, named, later⟩
      · exact absurd named (later field hm)

namespace Catalog

variable {catalog : Catalog} {refer : TypeId → Except UnfoldError Schema}

/-- One value of a field has one mirror, the schema that it is given. -/
theorem mirrorsElement_iff_of_element {field : TypeField} {element : Schema}
    (types : ∀ target schema, refer target = .ok schema →
      ∀ other, catalog.Mirrors target other ↔ other = schema)
    (h : field.component.element refer = .ok element) (other : Schema) :
    catalog.MirrorsElement field other ↔ other = element := by
  have cases := Component.element_cases_scalar? h
  have declared : field.component.kind = field.kind := rfl
  rw [declared] at cases
  rcases cases with ⟨kind, scalar, rfl⟩ | ⟨custom, target, leads, found⟩
  · constructor
    · intro mirrors
      cases mirrors with
      | scalar hk =>
        obtain rfl := Option.some.inj (hk.symm.trans scalar)
        rfl
      | custom hk => rw [hk] at scalar; cases scalar
    · rintro rfl
      exact .scalar scalar
  · constructor
    · intro mirrors
      cases mirrors with
      | scalar hk => rw [custom] at hk; cases hk
      | custom _ hr below =>
        obtain rfl := Option.some.inj (hr.symm.trans leads)
        exact (types _ element found other).mp below
    · rintro rfl
      exact .custom custom leads ((types target other found other).mpr rfl)

/-- A field has one mirror, the schema that it is given. -/
theorem mirrorsField_iff_of_schema {field : TypeField} {property : Schema}
    (types : ∀ target schema, refer target = .ok schema →
      ∀ other, catalog.Mirrors target other ↔ other = schema)
    (h : field.component.schema refer = .ok property) (other : Schema) :
    catalog.MirrorsField field other ↔ other = property := by
  obtain ⟨element, given, rfl⟩ := Component.schema_eq_ok_iff.mp h
  have elements := mirrorsElement_iff_of_element types given
  have cases := Component.element_cases_scalar? given
  have declared : field.component.kind = field.kind := rfl
  have listed : field.component.isArray = field.isArray := rfl
  rw [declared] at cases
  rw [Component.wrap, declared, listed]
  cases array : field.isArray with
  | true =>
    rw [if_pos rfl]
    constructor
    · intro mirrors
      cases mirrors with
      | list _ below => rw [(elements _).mp below]; rfl
      | scalar single => rw [array] at single; cases single
      | single single => rw [array] at single; cases single
    · rintro rfl
      exact .list array ((elements element).mpr rfl)
  | false =>
    rw [if_neg Bool.false_ne_true]
    rcases cases with ⟨kind, scalar, rfl⟩ | ⟨custom, -⟩
    · rw [if_pos (FieldKind.isScalar_of_scalar? scalar)]
      constructor
      · intro mirrors
        cases mirrors with
        | list list => rw [array] at list; cases list
        | scalar _ hk =>
          obtain rfl := Option.some.inj (hk.symm.trans scalar)
          rfl
        | single _ hk => rw [hk] at scalar; cases scalar
      · rintro rfl
        exact .scalar array scalar
    · rw [if_neg (by rw [custom]; nofun)]
      constructor
      · intro mirrors
        cases mirrors with
        | list list => rw [array] at list; cases list
        | scalar _ hk => rw [custom] at hk; cases hk
        | single _ _ below => exact (elements other).mp below
      · intro same
        exact .single array custom ((elements other).mpr same)

/-- An object that was put together from the components of a type has the parts that a mirror of
the type has. -/
theorem parts_of_objectOf {schemas : Component → Except UnfoldError Schema} {id : TypeId}
    {schema : Schema} (h : catalog.objectOf schemas id = .ok schema) :
    ∃ type, catalog.type? id = some type ∧ schema.description = type.description ∧
      KeyedList.keys schema.properties =
        ((catalog.fieldsOf id).map TypeField.name).eraseDups ∧
      schema.required.names =
        (((catalog.fieldsOf id).filter TypeField.required).map TypeField.name).eraseDups ∧
      ∀ front field back, catalog.fieldsOf id = front ++ field :: back →
        (∀ later ∈ back, later.name ≠ field.name) → ∃ child,
          schemas field.component = .ok child ∧
          KeyedList.find? field.name schema.properties = some child := by
  unfold objectOf at h
  cases found : catalog.type? id with
  | none => rw [found] at h; cases h
  | some type =>
    rw [found] at h
    refine ⟨type, rfl, Component.description_of_addAll h, ?_, ?_, ?_⟩
    · rw [Component.keys_properties_of_addAll h NameSet.names_empty.symm, ← NameSet.names_ofList,
        componentsOf, List.map_map]
      rfl
    · rw [Component.required_of_addAll h, ← NameSet.names_ofList, componentsOf, List.filter_map,
        List.map_map]
      rfl
    · intro front field back split last
      rw [componentsOf, split, List.map_append, List.map_cons] at h
      refine Component.find?_properties_of_addAll h fun later hm => ?_
      obtain ⟨other, ho, rfl⟩ := List.mem_map.mp hm
      exact last other ho

/-- A type has one mirror, the object that is put together from the mirrors of its fields. -/
theorem mirrors_iff_of_objectOf {schemas : Component → Except UnfoldError Schema} {id : TypeId}
    {schema : Schema}
    (fields : ∀ field property, schemas field.component = .ok property →
      ∀ other, catalog.MirrorsField field other ↔ other = property)
    (h : catalog.objectOf schemas id = .ok schema) (other : Schema) :
    catalog.Mirrors id other ↔ other = schema := by
  obtain ⟨object, none, -⟩ := shape_of_objectOf h
  obtain ⟨type, found, described, keys, required, placed⟩ := parts_of_objectOf h
  constructor
  · intro mirrors
    obtain ⟨found', object', described', none', keys', required', placed'⟩ := mirrors
    obtain rfl := Option.some.inj (found'.symm.trans found)
    have sameKeys := keys'.trans keys.symm
    have properties : other.properties = schema.properties := by
      have nodup : (KeyedList.keys other.properties).Nodup := by
        rw [keys', ← NameSet.names_ofList]
        exact (NameSet.ofList _).distinct
      refine KeyedList.ext_of_keys sameKeys nodup fun name => ?_
      by_cases declared : name ∈ KeyedList.keys other.properties
      · -- The last field of the name decides what stands under it on both sides.
        obtain ⟨child, held⟩ := KeyedList.mem_keys_iff.mp declared
        rw [keys', List.mem_eraseDups, List.mem_map] at declared
        obtain ⟨front, field, back, split, rfl, last⟩ := exists_last_of_name declared
        obtain ⟨property, given, stands⟩ := placed front field back split last
        have mirror := placed' front field back split last child held
        rw [held, stands, (fields field property given child).mp mirror]
      · have missing : name ∉ KeyedList.keys schema.properties := sameKeys ▸ declared
        rw [KeyedList.find?_eq_none_iff.mpr declared, KeyedList.find?_eq_none_iff.mpr missing]
    obtain ⟨⟨⟩, _, _, _, _, _⟩ := other
    obtain ⟨⟨⟩, _, _, _, _, _⟩ := schema
    rw [Node.mk.injEq]
    exact ⟨rfl, object'.trans object.symm, described'.trans described.symm, properties,
      NameSet.ext (required'.trans required.symm), none'.trans none.symm⟩
  · rintro rfl
    refine .object found object described none keys required ?_
    intro front field back split last child held
    obtain ⟨property, given, stands⟩ := placed front field back split last
    obtain rfl := Option.some.inj (stands.symm.trans held)
    exact (fields field property given property).mpr rfl

/-- Unfolding a type gives its one mirror. -/
theorem mirrors_iff_of_unfold {limit slack : Nat} {id : TypeId} {schema : Schema}
    (h : catalog.unfold limit slack id = .ok schema) (other : Schema) :
    catalog.Mirrors id other ↔ other = schema := by
  induction slack generalizing id schema other with
  | zero => exact mirrors_iff_of_objectOf (fun _ _ given => by cases given) h other
  | succ slack ih =>
    refine mirrors_iff_of_objectOf (fun field property given => ?_) h other
    exact mirrorsField_iff_of_schema (fun target schema found => ih found) given

end Catalog

/-- The schema of a component adds no object above those of types, and makes no lists of lists. -/
theorem Component.shallow_of_schema {component : Component}
    {refer : TypeId → Except UnfoldError Schema} {property : Schema} {room : Nat}
    (types : ∀ target element, refer target = .ok element →
      element.kind = .object ∧ element.objectDepth ≤ room ∧ element.FlatLists)
    (h : component.schema refer = .ok property) :
    property.objectDepth ≤ room ∧ property.FlatLists := by
  obtain ⟨element, given, rfl⟩ := schema_eq_ok_iff.mp h
  have inner : element.kind ≠ .array ∧ element.objectDepth ≤ room ∧ element.FlatLists := by
    rcases element_scalar_or_refer given with ⟨kind, scalar, rfl⟩ | ⟨-, target, found⟩
    · have simple : (Node.bare kind).kind ≠ .array := by
        rintro rfl
        cases scalar
      rw [Node.objectDepth_bare scalar]
      exact ⟨simple, Nat.zero_le room, Node.flatLists_bare kind⟩
    · obtain ⟨object, depth, flat⟩ := types target element found
      rw [object]
      exact ⟨nofun, depth, flat⟩
  obtain ⟨simple, depth, flat⟩ := inner
  unfold wrap
  split
  · rw [Node.objectDepth_describedAs, Node.flatLists_describedAs, Node.flatLists_iff]
    have listed : (Node.arrayOf element).objectDepth ≤
        (if (Node.arrayOf element).kind = .object then 1 else 0) + room := by
      rw [Node.objectDepth_le_iff]
      simpa [Node.arrayOf] using depth
    simpa [Node.arrayOf, simple, flat] using listed
  · split
    · rw [Node.objectDepth_describedAs, Node.flatLists_describedAs]
      exact ⟨depth, flat⟩
    · exact ⟨depth, flat⟩

namespace Catalog

variable {catalog : Catalog}

/-- The object of a type stands above those of its components, and makes no lists of lists. -/
theorem shallow_of_objectOf {schemas : Component → Except UnfoldError Schema} {id : TypeId}
    {schema : Schema} {room : Nat}
    (fields : ∀ component property, schemas component = .ok property →
      property.objectDepth ≤ room ∧ property.FlatLists)
    (h : catalog.objectOf schemas id = .ok schema) :
    schema.kind = .object ∧ schema.objectDepth ≤ room + 1 ∧ schema.FlatLists := by
  obtain ⟨object, none, properties⟩ := shape_of_objectOf h
  have inner : ∀ property ∈ schema.properties,
      property.2.objectDepth ≤ room ∧ property.2.FlatLists := by
    intro property hm
    obtain ⟨component, -, -, given⟩ := properties property hm
    exact fields component property.2 given
  have depth := Node.objectDepth_le_iff.mpr
    ⟨fun property hm => (inner property hm).1, fun child hc => by rw [none] at hc; cases hc⟩
  rw [object, if_pos rfl, Nat.add_comm] at depth
  refine ⟨object, depth, Node.flatLists_iff.mpr ?_⟩
  rw [none]
  exact ⟨nofun, fun property hm => (inner property hm).2, nofun⟩

/-- Each reference that may be followed is worth one more object. -/
theorem shallow_of_unfold {limit slack : Nat} {id : TypeId} {schema : Schema}
    (h : catalog.unfold limit slack id = .ok schema) :
    schema.kind = .object ∧ schema.objectDepth ≤ slack + 1 ∧ schema.FlatLists := by
  induction slack generalizing id schema with
  | zero => exact shallow_of_objectOf (fun _ _ given => by cases given) h
  | succ slack ih =>
    refine shallow_of_objectOf (fun component property given => ?_) h
    exact Component.shallow_of_schema (fun target element found => ih found) given

/-- The schema of a type under a bound is the one schema that mirrors the records of the type, at
every depth; it requires declared names only, has no lists of lists, and no more objects inside
each other than the bound and one. -/
theorem unfolds_into_mirror (catalog : Catalog) (limit : Nat) (id : TypeId) (schema : Schema)
    (h : catalog.schemaOf limit id = .ok schema) :
    (∀ other, catalog.Mirrors id other ↔ other = schema) ∧ schema.Closed ∧ schema.FlatLists ∧
      schema.objectDepth ≤ limit + 1 := by
  have shallow := shallow_of_unfold h
  exact ⟨mirrors_iff_of_unfold h, (wellFormed_and_closed_of_unfold h).2, shallow.2.2, shallow.2.1⟩

/-- A recipe has ingredients, of which one is the best, and notes: the field that tells how many
there are was followed by one that holds them. -/
def recipes : Catalog where
  types := [⟨⟨1⟩, ⟨7⟩, "Recipe", "How to cook"⟩, ⟨⟨2⟩, ⟨7⟩, "Ingredient", "What to buy"⟩]
  fields := [
    TypeField.asRequired { id := ⟨1⟩, owner := ⟨1⟩, name := "notes", kind := .number },
    ((TypeField.custom ⟨2⟩ ⟨1⟩ "ingredients" ⟨2⟩).asArray.asRequired).describedAs "all of them",
    { id := ⟨3⟩, owner := ⟨2⟩, name := "name", kind := .string, description := "on the label" },
    (TypeField.custom ⟨4⟩ ⟨1⟩ "best" ⟨2⟩).describedAs "not shown",
    { id := ⟨5⟩, owner := ⟨1⟩, name := "notes", kind := .string, isArray := true }]

/-- What ingredients unfold to. -/
def ingredientSchema : Schema :=
  { label := (), kind := .object, description := "What to buy",
    properties := [("name", (Node.bare .string).describedAs "on the label")] }

/-- What recipes unfold to. -/
def recipeSchema : Schema :=
  { label := (), kind := .object, description := "How to cook",
    properties := [("notes", .arrayOf (.bare .string)),
      ("ingredients", (Node.arrayOf ingredientSchema).describedAs "all of them"),
      ("best", ingredientSchema)],
    required := .ofList ["notes", "ingredients"] }

/-- Notes stand where they were declared first, as they were declared last, and are required. -/
theorem unfolds_into_mirror_recipes :
    recipes.schemaOf 2 ⟨1⟩ = .ok recipeSchema ∧ recipes.Mirrors ⟨1⟩ recipeSchema ∧
    (∀ other, recipes.Mirrors ⟨1⟩ other → other = recipeSchema) ∧ recipeSchema.Closed ∧
    recipeSchema.FlatLists ∧ recipeSchema.objectDepth = 2 := by
  have unfolded : recipes.schemaOf 2 ⟨1⟩ = .ok recipeSchema := by rfl
  obtain ⟨mirrors, closed, flat, -⟩ := unfolds_into_mirror recipes 2 ⟨1⟩ recipeSchema unfolded
  exact ⟨unfolded, (mirrors recipeSchema).mpr rfl, fun other => (mirrors other).mp, closed, flat,
    by rfl⟩

end Catalog

end SchemaGate
