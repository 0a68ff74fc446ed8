import SchemaGate.Catalog.Paths
import SchemaGate.Json.Basic

/-!
# Instances of custom types

Which values are instances of a custom type, read off its records without any schema.
An instance is an object that holds every required field and whose fields hold what
they declare; fields that are not declared do not matter. Null may stand for an
instance of a type that demands nothing, neither by a required field of its own nor
through custom fields that are not lists; for a field that is not required null counts
as absent.
-/

namespace SchemaGate.Catalog

/-- An instance of the type cannot be left out: the type has a required field, or a custom
field outside a list leads to one that has. -/
inductive Demands (catalog : Catalog) : TypeId → Prop where
  /-- A field of the type is required. -/
  | own {id : TypeId} {field : TypeField} :
      field ∈ catalog.fieldsOf id → field.required = true → Demands catalog id
  /-- A custom field outside a list leads to a type that demands something. -/
  | through {id target : TypeId} {field : TypeField} :
      field ∈ catalog.fieldsOf id → field.kind = .custom → field.isArray = false →
      field.reference = some target → Demands catalog target → Demands catalog id

mutual

/-- The value is an instance of the type. -/
inductive Instance (catalog : Catalog) : TypeId → Json → Prop where
  /-- Null stands for an instance of a type that demands nothing. -/
  | null {id : TypeId} : ¬ catalog.Demands id → Instance catalog id .null
  /-- Required fields are present and not null, and what is present is as declared; null in
  a scalar field or a list counts as absent. -/
  | object {id : TypeId} {members : List (String × Json)} :
      (∀ field ∈ catalog.fieldsOf id, field.required = true →
        ∃ value, KeyedList.find? field.name members = some value ∧ value ≠ .null) →
      (∀ field ∈ catalog.fieldsOf id, ∀ value,
        KeyedList.find? field.name members = some value →
        (value = .null → field.kind = .custom ∧ field.isArray = false) →
        Fills catalog field value) →
      Instance catalog id (.object members)

/-- The value is what a field declares. -/
inductive Fills (catalog : Catalog) : TypeField → Json → Prop where
  /-- One value, where the field holds no list. -/
  | single {field : TypeField} {value : Json} :
      field.isArray = false → FillsElement catalog field value → Fills catalog field value
  /-- A list of such values. -/
  | list {field : TypeField} {elements : List Json} :
      field.isArray = true → (∀ element ∈ elements, FillsElement catalog field element) →
      Fills catalog field (.array elements)

/-- The value is one value of a field, in a list or alone. -/
inductive FillsElement (catalog : Catalog) : TypeField → Json → Prop where
  /-- A text. -/
  | string {field : TypeField} {text : String} :
      field.kind = .string → FillsElement catalog field (.string text)
  /-- A number. -/
  | number {field : TypeField} {value : Number} :
      field.kind = .number → FillsElement catalog field (.number value)
  /-- A truth value. -/
  | boolean {field : TypeField} {value : Bool} :
      field.kind = .boolean → FillsElement catalog field (.bool value)
  /-- An instance of the type that the field refers to. -/
  | custom {field : TypeField} {target : TypeId} {value : Json} :
      field.kind = .custom → field.reference = some target →
      Instance catalog target value → FillsElement catalog field value

end

theorem instance_null_iff {catalog : Catalog} {id : TypeId} :
    catalog.Instance id .null ↔ ¬ catalog.Demands id :=
  ⟨fun h => by cases h with | null hd => exact hd, .null⟩

theorem instance_object_iff {catalog : Catalog} {id : TypeId} {members : List (String × Json)} :
    catalog.Instance id (.object members) ↔
      (∀ field ∈ catalog.fieldsOf id, field.required = true →
        ∃ value, KeyedList.find? field.name members = some value ∧ value ≠ .null) ∧
      ∀ field ∈ catalog.fieldsOf id, ∀ value,
        KeyedList.find? field.name members = some value →
        (value = .null → field.kind = .custom ∧ field.isArray = false) →
        catalog.Fills field value :=
  ⟨fun h => by cases h with | object hr hf => exact ⟨hr, hf⟩, fun h => .object h.1 h.2⟩

end SchemaGate.Catalog
