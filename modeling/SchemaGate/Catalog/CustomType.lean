import SchemaGate.Catalog.FieldKind
import SchemaGate.Catalog.Id
import SchemaGate.Record.Layout

/-!
# Custom types and their fields

The stored records of custom types. A custom type belongs to an application and owns
fields; a field holds a scalar, a value of another custom type, or a list of either.
Documents of these records list every member in declaration order.
-/

namespace SchemaGate

/-- A named object shape of an application. -/
structure CustomType where
  /-- The identifier of the type. -/
  id : TypeId
  /-- The application that owns it. -/
  app : AppId
  /-- Its name. -/
  name : String
  /-- Free text for the users of tools. -/
  description : String := ""
  deriving DecidableEq

/-- A field of a custom type. -/
structure TypeField where
  /-- The identifier of the field. -/
  id : FieldId
  /-- The type it belongs to. -/
  owner : TypeId
  /-- Its name. -/
  name : String
  /-- Its declared kind. -/
  kind : FieldKind
  /-- The referenced type, for fields of a custom kind. -/
  reference : Option TypeId := none
  /-- Whether it holds a list. -/
  isArray : Bool := false
  /-- Whether it must be present. -/
  required : Bool := false
  /-- Free text for the users of tools. -/
  description : String := ""
  deriving DecidableEq

namespace Read

/-- An identifier. -/
def id {kind : IdKind} (draft : Json.Draft) : Read (Id kind) := Id.mk <$> integer draft

end Read

/-- Field kinds in documents are their names. -/
def FieldKind.reader : Reader FieldKind := Reader.variant variants

/-- A reference in documents is its key or null. -/
def referenceToJson (reference : Option TypeId) : Json :=
  match reference with
  | none => .null
  | some id => id.toJson

namespace CustomType

/-- The type with another description. -/
def describedAs (type : CustomType) (description : String) : CustomType :=
  { type with description }

/-- The document of a type. -/
def toDocument (type : CustomType) : Json := .object [
  ("id", type.id.toJson), ("app_id", type.app.toJson), ("name", .string type.name),
  ("description", .string type.description)]

/-- The members of a type. -/
def layout : RecordLayout CustomType where
  name := "CustomType"
  blank := ⟨⟨0⟩, ⟨0⟩, "", ""⟩
  members := [
    .needed "id" Read.id fun type id => { type with id },
    .needed "app_id" Read.id fun type app => { type with app },
    .needed "name" Read.text fun type name => { type with name },
    .defaulted "description" Read.text fun type description => { type with description }]

/-- Read a type. -/
def reader : Reader CustomType := layout.read

end CustomType

namespace TypeField

/-- A field that refers to another type. -/
def custom (id : FieldId) (owner : TypeId) (name : String) (target : TypeId) : TypeField :=
  { id, owner, name, kind := .custom, reference := some target }

/-- The field with another reference. -/
def referringTo (field : TypeField) (target : TypeId) : TypeField :=
  { field with reference := some target }

/-- The field as a list. -/
def asArray (field : TypeField) : TypeField := { field with isArray := true }

/-- The field as one that must be present. -/
def asRequired (field : TypeField) : TypeField := { field with required := true }

/-- The field with another description. -/
def describedAs (field : TypeField) (description : String) : TypeField :=
  { field with description }

/-- The document of a field. -/
def toDocument (field : TypeField) : Json := .object [
  ("id", field.id.toJson), ("custom_type_id", field.owner.toJson),
  ("name", .string field.name), ("type", .string field.kind.name),
  ("ref", referenceToJson field.reference), ("is_array", .bool field.isArray),
  ("required", .bool field.required), ("description", .string field.description)]

/-- The members of a field. -/
def layout (origin : Origin) (room : Nat) : RecordLayout TypeField where
  name := "CustomTypeField"
  blank := { id := ⟨0⟩, owner := ⟨0⟩, name := "", kind := .string }
  members := [
    .needed "id" Read.id fun field id => { field with id },
    .needed "custom_type_id" Read.id fun field owner => { field with owner },
    .needed "name" Read.text fun field name => { field with name },
    .needed "type" (FieldKind.reader origin room) fun field kind => { field with kind },
    .defaulted "ref" (Read.optional Read.id) fun field reference => { field with reference },
    .defaulted "is_array" Read.flag fun field isArray => { field with isArray },
    .defaulted "required" Read.flag fun field required => { field with required },
    .defaulted "description" Read.text fun field description => { field with description }]

/-- Read a field. -/
def reader : Reader TypeField := fun origin room =>
  (layout origin (room - 1)).read origin room

end TypeField

/-- The stored types and fields, in storage order. -/
structure StoredRecords where
  /-- The types. -/
  types : List CustomType := []
  /-- The fields of all types. -/
  fields : List TypeField := []
  deriving DecidableEq

namespace StoredRecords

/-- The document of stored records. -/
def toDocument (records : StoredRecords) : Json := .object [
  ("types", .array (records.types.map CustomType.toDocument)),
  ("fields", .array (records.fields.map TypeField.toDocument))]

/-- The two lists of records. -/
def layout (origin : Origin) (room : Nat) : RecordLayout StoredRecords where
  name := "GraphRecords"
  blank := {}
  members := [
    .defaulted "types" (CustomType.reader.list origin room) fun records types =>
      { records with types },
    .defaulted "fields" (TypeField.reader.list origin room) fun records fields =>
      { records with fields }]

/-- Read stored records. -/
def reader : Reader StoredRecords := fun origin room =>
  (layout origin (room - 1)).read origin room

end StoredRecords

end SchemaGate
