import SchemaGate.Catalog.Instance
import SchemaGate.Proofs.Catalog.Assembly

/-!
# Schemas of types admit instances

The schema of a type admits exactly the instances of the type, which are read off the
records alone. The schema of a field stands for the field (`StandsForField`): whether it
requires a name is whether an instance behind the field demands something, and it
accepts what fills the field. The schema of a type then stands for the type
(`StandsFor`), as long as no two fields of a type share their name: of such fields only
the last one has a property.
-/

namespace SchemaGate

namespace Node

variable {ι : Type}

/-- Descriptions do not decide whether a node requires a name. -/
theorem requires_describedAs {node : Node ι} (description : String) :
    (node.describedAs description).Requires ↔ node.Requires := by
  rw [requires_iff, requires_iff]
  rfl

/-- Descriptions do not decide what is accepted. -/
theorem accepts_describedAs {node : Node ι} (description : String) (value : Json) :
    (node.describedAs description).Accepts value ↔ node.Accepts value := by
  cases value with
  | null =>
    rw [accepts_null_iff, accepts_null_iff, requires_describedAs]
    rfl
  | bool value => rw [accepts_bool_iff, accepts_bool_iff]; rfl
  | number value => rw [accepts_number_iff, accepts_number_iff]; rfl
  | string text => rw [accepts_string_iff, accepts_string_iff]; rfl
  | array elements => rw [accepts_array_iff, accepts_array_iff]; rfl
  | object members => rw [accepts_object_iff, accepts_object_iff]; rfl

/-- Only object nodes require names. -/
theorem not_requires_of_kind_ne {node : Node ι} (hk : node.kind ≠ .object) : ¬ node.Requires :=
  fun h => hk (requires_iff.mp h).1

end Node

namespace Catalog

variable {catalog : Catalog}

/-- No two fields of a type share their name. -/
def NamesDistinct (catalog : Catalog) : Prop :=
  ∀ type ∈ catalog.types, ((catalog.fieldsOf type.id).map TypeField.name).Nodup

/-- The schema demands and accepts what the type does. -/
structure StandsFor (catalog : Catalog) (id : TypeId) (schema : Schema) : Prop where
  /-- It is an object schema. -/
  kind : schema.kind = .object
  /-- It requires a name if the type demands something. -/
  requires : schema.Requires ↔ catalog.Demands id
  /-- It accepts the instances of the type. -/
  accepts : ∀ value, schema.Accepts value ↔ catalog.Instance id value

/-- The schema of one value of a field accepts what may stand there. -/
structure StandsForElement (catalog : Catalog) (field : TypeField) (element : Schema) :
    Prop where
  /-- It is an object schema for custom fields alone. -/
  kind : element.kind = .object ↔ field.kind = .custom
  /-- It requires a name if the field refers to a type that demands something. -/
  requires : element.Requires ↔ field.kind = .custom ∧
    ∃ target, field.reference = some target ∧ catalog.Demands target
  /-- It accepts what may stand there. -/
  accepts : ∀ value, element.Accepts value ↔ catalog.FillsElement field value

/-- The schema of a field accepts what fills the field; where null counts as absent it is
not asked about null. -/
structure StandsForField (catalog : Catalog) (field : TypeField) (child : Schema) : Prop where
  /-- It is an object schema for custom fields outside lists alone. -/
  kind : child.kind = .object ↔ field.kind = .custom ∧ field.isArray = false
  /-- It requires a name if the field leads to a type that demands something. -/
  requires : child.Requires ↔ (field.kind = .custom ∧ field.isArray = false) ∧
    ∃ target, field.reference = some target ∧ catalog.Demands target
  /-- It accepts what fills the field. -/
  accepts : ∀ value, (value = .null → child.kind = .object) →
    (child.Accepts value ↔ catalog.Fills field value)

/-- A value stands for one value of a field by its kind, or as an instance. -/
theorem fillsElement_iff {field : TypeField} {value : Json} :
    catalog.FillsElement field value ↔
      (field.kind = .string ∧ value.kind = .string) ∨
      (field.kind = .number ∧ value.kind = .number) ∨
      (field.kind = .boolean ∧ value.kind = .boolean) ∨
      (field.kind = .custom ∧ ∃ target, field.reference = some target ∧
        catalog.Instance target value) := by
  constructor
  · intro h
    cases h with
    | string hk => exact .inl ⟨hk, rfl⟩
    | number hk => exact .inr (.inl ⟨hk, rfl⟩)
    | boolean hk => exact .inr (.inr (.inl ⟨hk, rfl⟩))
    | custom hk hr hi => exact .inr (.inr (.inr ⟨hk, _, hr, hi⟩))
  · rintro (⟨hk, hv⟩ | ⟨hk, hv⟩ | ⟨hk, hv⟩ | ⟨hk, target, hr, hi⟩)
    · cases value <;> cases hv
      exact .string hk
    · cases value <;> cases hv
      exact .number hk
    · cases value <;> cases hv
      exact .boolean hk
    · exact .custom hk hr hi

/-- A bare scalar node stands for one value of a scalar field of its kind. -/
theorem standsForElement_bare {field : TypeField} {kind : NodeKind}
    (hs : kind.isScalar = true) (hc : field.kind ≠ .custom)
    (hf : ∀ value, catalog.FillsElement field value ↔ value.kind = kind.values) :
    catalog.StandsForElement field (.bare kind) := by
  have scalar : (Node.bare kind).kind ≠ .object := by
    rintro rfl
    cases hs
  refine ⟨iff_of_false scalar hc, ?_, fun value => ?_⟩
  · exact iff_of_false (Node.not_requires_of_kind_ne scalar) fun h => hc h.1
  · rw [hf, Node.accepts_iff_of_isScalar hs]
    rfl

/-- The schema of one value stands for it if the schemas of types stand for them. -/
theorem standsForElement_of_element {field : TypeField}
    {refer : TypeId → Except UnfoldError Schema} {element : Schema}
    (hr : ∀ target schema, refer target = .ok schema → catalog.StandsFor target schema)
    (h : field.component.element refer = .ok element) :
    catalog.StandsForElement field element := by
  have kind : field.component.kind = field.kind := rfl
  have reference : field.component.reference = field.reference := rfl
  have cases := Component.element_cases h
  rw [kind, reference] at cases
  rcases cases with ⟨hk, rfl⟩ | ⟨hk, rfl⟩ | ⟨hk, rfl⟩ | ⟨hk, target, ht, hs⟩
  · exact standsForElement_bare rfl (by simp [hk]) fun value => by
      simp [fillsElement_iff, hk, NodeKind.values]
  · exact standsForElement_bare rfl (by simp [hk]) fun value => by
      simp [fillsElement_iff, hk, NodeKind.values]
  · exact standsForElement_bare rfl (by simp [hk]) fun value => by
      simp [fillsElement_iff, hk, NodeKind.values]
  · have stands := hr target element hs
    refine ⟨iff_of_true stands.kind hk, ?_, fun value => ?_⟩
    · rw [stands.requires]
      simp [hk, ht]
    · rw [stands.accepts]
      simp [fillsElement_iff, hk, ht]

/-- A value fills a field alone or as a list. -/
theorem fills_iff {field : TypeField} {value : Json} :
    catalog.Fills field value ↔
      (field.isArray = false ∧ catalog.FillsElement field value) ∨
      (field.isArray = true ∧ ∃ elements, value = .array elements ∧
        ∀ element ∈ elements, catalog.FillsElement field element) := by
  constructor
  · intro h
    cases h with
    | single ha he => exact .inl ⟨ha, he⟩
    | list ha he => exact .inr ⟨ha, _, rfl, he⟩
  · rintro (⟨ha, he⟩ | ⟨ha, elements, rfl, he⟩)
    · exact .single ha he
    · exact .list ha he

/-- An array of what stands for one value stands for the list. -/
theorem standsForField_arrayOf {field : TypeField} {element : Schema} (description : String)
    (ha : field.isArray = true) (h : catalog.StandsForElement field element) :
    catalog.StandsForField field ((Node.arrayOf element).describedAs description) := by
  have array : ((Node.arrayOf element).describedAs description).kind ≠ .object := by
    intro hk
    cases hk
  refine ⟨iff_of_false array (by simp [ha]), ?_, fun value hv => ?_⟩
  · exact iff_of_false (Node.not_requires_of_kind_ne array) (by simp [ha])
  · rw [Node.accepts_describedAs, fills_iff]
    cases value with
    | null => exact absurd (hv rfl) array
    | array elements => simp [Node.accepts_array_iff, Node.arrayOf, ha, h.accepts]
    | bool value => simp [Node.accepts_bool_iff, Node.arrayOf, ha]
    | number value => simp [Node.accepts_number_iff, Node.arrayOf, ha]
    | string text => simp [Node.accepts_string_iff, Node.arrayOf, ha]
    | object members => simp [Node.accepts_object_iff, Node.arrayOf, ha]

/-- Outside lists what stands for one value stands for the field. -/
theorem StandsForElement.standsForField {field : TypeField} {element : Schema}
    (h : catalog.StandsForElement field element) (ha : field.isArray = false) :
    catalog.StandsForField field element where
  kind := by simp [h.kind, ha]
  requires := by simp [h.requires, ha]
  accepts := fun value _ => by simp [h.accepts, fills_iff, ha]

/-- Descriptions do not decide what a schema stands for. -/
theorem StandsForElement.describedAs {field : TypeField} {element : Schema}
    (h : catalog.StandsForElement field element) (description : String) :
    catalog.StandsForElement field (element.describedAs description) where
  kind := h.kind
  requires := by rw [Node.requires_describedAs, h.requires]
  accepts := fun value => by rw [Node.accepts_describedAs, h.accepts]

/-- The schema of a field stands for it if the schemas of types stand for them. -/
theorem standsForField_of_schema {field : TypeField}
    {refer : TypeId → Except UnfoldError Schema} {child : Schema}
    (hr : ∀ target schema, refer target = .ok schema → catalog.StandsFor target schema)
    (h : field.component.schema refer = .ok child) : catalog.StandsForField field child := by
  obtain ⟨element, he, rfl⟩ := Component.schema_eq_ok_iff.mp h
  have stands := standsForElement_of_element hr he
  have isArray : field.component.isArray = field.isArray := rfl
  unfold Component.wrap
  rw [isArray]
  split
  · next ha => exact standsForField_arrayOf _ ha stands
  · next ha =>
    have ha : field.isArray = false := by simpa using ha
    split
    · exact (stands.describedAs _).standsForField ha
    · exact stands.standsForField ha

/-- The schemas of the fields of a type, found under their names in its object. -/
structure HoldsFields (catalog : Catalog) (schemas : Component → Except UnfoldError Schema)
    (id : TypeId) (object : Schema) : Prop where
  /-- It is an object schema. -/
  kind : object.kind = .object
  /-- Its required names are those of required fields. -/
  required : ∀ name, name ∈ object.required ↔
    ∃ field ∈ catalog.fieldsOf id, field.required = true ∧ field.name = name
  /-- Every property is the schema of a field. -/
  field : ∀ property ∈ object.properties, ∃ field ∈ catalog.fieldsOf id,
    field.name = property.1 ∧ schemas field.component = .ok property.2
  /-- Every field has its schema as a property. -/
  property : ∀ field ∈ catalog.fieldsOf id, ∃ child,
    schemas field.component = .ok child ∧ (field.name, child) ∈ object.properties

/-- The object of a type holds the schemas of its fields if no two of them share a name. -/
theorem holdsFields_of_objectOf {schemas : Component → Except UnfoldError Schema}
    (hd : catalog.NamesDistinct) {id : TypeId} {object : Schema}
    (h : catalog.objectOf schemas id = .ok object) :
    catalog.HoldsFields schemas id object := by
  unfold objectOf at h
  split at h
  · cases h
  · next type ht =>
    obtain ⟨stored, rfl⟩ := type?_eq_some_iff.mp ht
    have distinct := hd type stored
    refine ⟨Component.kind_of_addAll h, fun name => ?_, fun property hm => ?_, fun field hf => ?_⟩
    · rw [Component.mem_required_of_addAll h]
      simp [Node.describedAs, Node.bare, componentsOf, TypeField.component]
    · rcases Component.mem_properties_of_addAll h property hm with hm | ⟨component, hc, hn, hs⟩
      · cases hm
      · obtain ⟨field, hf, rfl⟩ := List.mem_map.mp hc
        exact ⟨field, hf, hn, hs⟩
    · obtain ⟨front, back, hl⟩ := List.append_of_mem hf
      rw [hl, List.map_append, List.map_cons] at distinct
      have last := (List.nodup_cons.mp (List.nodup_append.mp distinct).2.1).1
      rw [componentsOf, hl, List.map_append, List.map_cons] at h
      obtain ⟨child, hs, hc⟩ := Component.find?_properties_of_addAll h (by
        rintro _ hm he
        obtain ⟨later, hb, rfl⟩ := List.mem_map.mp hm
        exact last (List.mem_map.mpr ⟨later, hb, he⟩))
      exact ⟨child, hs, KeyedList.mem_of_find?_eq_some hc⟩

namespace HoldsFields

variable {schemas : Component → Except UnfoldError Schema} {id : TypeId} {object : Schema}

/-- Such an object requires a name if the type demands something. -/
theorem requires_iff (h : catalog.HoldsFields schemas id object)
    (hs : ∀ (field : TypeField) (child : Schema), schemas field.component = .ok child →
      catalog.StandsForField field child) : object.Requires ↔ catalog.Demands id := by
  rw [Node.requires_iff]
  constructor
  · rintro ⟨-, hr | ⟨property, hm, hr⟩⟩
    · obtain ⟨name, hn⟩ := NameSet.ne_empty_iff_exists_mem.mp hr
      obtain ⟨field, hf, required, -⟩ := (h.required name).mp hn
      exact .own hf required
    · obtain ⟨field, hf, -, hc⟩ := h.field property hm
      obtain ⟨⟨hk, ha⟩, target, ht, demands⟩ := (hs field _ hc).requires.mp hr
      exact .through hf hk ha ht demands
  · intro demands
    refine ⟨h.kind, ?_⟩
    cases demands with
    | own hf required =>
      have own := (h.required _).mpr ⟨_, hf, required, rfl⟩
      exact .inl (NameSet.ne_empty_iff_exists_mem.mpr ⟨_, own⟩)
    | through hf hk ha ht demands =>
      obtain ⟨child, hc, hm⟩ := h.property _ hf
      exact .inr ⟨_, hm, (hs _ child hc).requires.mpr ⟨⟨hk, ha⟩, _, ht, demands⟩⟩

/-- Such an object accepts the objects that are instances. -/
theorem accepts_object_iff (h : catalog.HoldsFields schemas id object)
    (hs : ∀ (field : TypeField) (child : Schema), schemas field.component = .ok child →
      catalog.StandsForField field child) {members : List (String × Json)} :
    object.Accepts (.object members) ↔ catalog.Instance id (.object members) := by
  rw [Node.accepts_object_iff, instance_object_iff]
  simp only [isAbsent_eq_false_iff]
  constructor
  · rintro ⟨-, present, parts⟩
    refine ⟨fun field hf required => ?_, fun field hf value hv absent => ?_⟩
    · exact present _ ((h.required _).mpr ⟨field, hf, required, rfl⟩)
    · obtain ⟨child, hc, hm⟩ := h.property field hf
      have stands := hs field child hc
      have visited : value = .null → child.kind = .object :=
        fun null => stands.kind.mpr (absent null)
      exact (stands.accepts value visited).mp (parts _ hm value hv visited)
  · rintro ⟨present, parts⟩
    refine ⟨h.kind, fun name hn => ?_, fun property hm value hv visited => ?_⟩
    · obtain ⟨field, hf, required, rfl⟩ := (h.required name).mp hn
      exact present field hf required
    · obtain ⟨field, hf, hn, hc⟩ := h.field property hm
      have stands := hs field property.2 hc
      rw [← hn] at hv
      exact (stands.accepts value visited).mpr
        (parts field hf value hv fun null => stands.kind.mp (visited null))

/-- An object that holds the schemas of the fields of a type stands for the type, if these
stand for the fields. -/
theorem standsFor (h : catalog.HoldsFields schemas id object)
    (hs : ∀ (field : TypeField) (child : Schema), schemas field.component = .ok child →
      catalog.StandsForField field child) : catalog.StandsFor id object := by
  refine ⟨h.kind, h.requires_iff hs, fun value => ?_⟩
  have other : ∀ value : Json, value ≠ .null → value.kind ≠ .object →
      ¬ object.Accepts value := by
    intro value hn hv ha
    have kind := ha.kind_eq hn
    rw [h.kind] at kind
    exact hv kind
  cases value with
  | null =>
    rw [Node.accepts_null_iff, instance_null_iff, h.kind, h.requires_iff hs]
    exact and_iff_right rfl
  | object members => exact h.accepts_object_iff hs
  | bool value => exact iff_of_false (other _ nofun nofun) nofun
  | number value => exact iff_of_false (other _ nofun nofun) nofun
  | string text => exact iff_of_false (other _ nofun nofun) nofun
  | array elements => exact iff_of_false (other _ nofun nofun) nofun

end HoldsFields

/-- The schema of a type stands for the type. -/
theorem standsFor_of_unfold (hd : catalog.NamesDistinct) {limit slack : Nat} {id : TypeId}
    {schema : Schema} (h : catalog.unfold limit slack id = .ok schema) :
    catalog.StandsFor id schema := by
  induction slack generalizing id schema with
  | zero => exact (holdsFields_of_objectOf hd h).standsFor fun _ _ hs => by cases hs
  | succ slack ih =>
    exact (holdsFields_of_objectOf hd h).standsFor
      fun _ _ hs => standsForField_of_schema (fun _ _ => ih) hs

/-- Where no two fields of a type share their name, the schema of a type under any bound that
suffices admits exactly the instances of the type. -/
theorem admits_iff_instance {catalog : Catalog} (hd : catalog.NamesDistinct) {limit : Nat}
    {id : TypeId} {schema : Schema} (hs : catalog.schemaOf limit id = .ok schema)
    (value : Json) :
    admits (some schema.numbered) value = true ↔ catalog.Instance id value := by
  rw [admits_iff schema.coherent_numbered, Node.accepts_numbered]
  exact (standsFor_of_unfold hd hs).accepts value

/-- A team has a lead and members, who are persons, and tags. A person has a name. -/
def teams : Catalog where
  types := [⟨⟨1⟩, ⟨7⟩, "Team", "People who work together"⟩, ⟨⟨2⟩, ⟨7⟩, "Person", ""⟩]
  fields := [
    TypeField.custom ⟨1⟩ ⟨1⟩ "lead" ⟨2⟩,
    (TypeField.custom ⟨2⟩ ⟨1⟩ "members" ⟨2⟩).asArray,
    { id := ⟨3⟩, owner := ⟨1⟩, name := "tags", kind := .string, isArray := true },
    TypeField.asRequired { id := ⟨4⟩, owner := ⟨2⟩, name := "name", kind := .string }]

/-- What a person unfolds to. -/
def personSchema : Schema :=
  { label := (), kind := .object, required := .ofList ["name"],
    properties := [("name", .bare .string)] }

/-- What a team unfolds to. -/
def teamSchema : Schema :=
  { label := (), kind := .object, description := "People who work together",
    properties := [("lead", personSchema), ("members", .arrayOf personSchema),
      ("tags", .arrayOf (.bare .string))] }

theorem admits_iff_instance_teams :
    teams.NamesDistinct ∧ teams.schemaOf 2 ⟨1⟩ = .ok teamSchema ∧
    teams.Instance ⟨1⟩ (.object [
      ("members", .array [.object [("name", .string "Ada")]]), ("tags", .null)]) ∧
    ¬ teams.Instance ⟨1⟩ (.object [("lead", .null)]) := by
  have distinct : teams.NamesDistinct := by
    unfold NamesDistinct
    decide
  have unfolds : teams.schemaOf 2 ⟨1⟩ = .ok teamSchema := by rfl
  refine ⟨distinct, unfolds, ?_, fun nobody => ?_⟩
  · exact (admits_iff_instance distinct unfolds _).mp (by decide)
  · exact absurd ((admits_iff_instance distinct unfolds _).mpr nobody) (by decide)

end Catalog

end SchemaGate
