import SchemaGate.Catalog.CustomType

/-!
# Interface parameters

A parameter describes one argument of an interface or one part of its response. A
scalar parameter with a default is supplied on the caller's behalf, so callers
never see it.
-/

namespace SchemaGate

/-- The side of a call that a parameter describes. -/
inductive Side where
  /-- Arguments. -/
  | input
  /-- Parts of the response. -/
  | output
  deriving DecidableEq, Repr

namespace Side

/-- The stored name of a side. -/
def name : Side → String
  | input => "input"
  | output => "output"

/-- The sides under their names. -/
def variants : List (String × Side) :=
  [input, output].map fun side => (side.name, side)

/-- Sides in documents are their names. -/
def reader : Reader Side := Reader.variant variants

end Side

/-- A parameter of an interface. -/
structure Parameter where
  /-- The identifier of the parameter. -/
  id : ParameterId
  /-- The interface it belongs to. -/
  interface : InterfaceId
  /-- The application that owns it. -/
  app : AppId
  /-- Its name. -/
  name : String
  /-- Its declared kind. -/
  kind : FieldKind
  /-- The referenced type, for parameters of a custom kind. -/
  reference : Option TypeId := none
  /-- Whether it holds a list. -/
  isArray : Bool := false
  /-- Whether it must be present. -/
  required : Bool := false
  /-- Free text for the users of tools. -/
  description : String := ""
  /-- The side of a call it describes. -/
  side : Side
  /-- The value supplied when a caller leaves it out. -/
  defaultValue : Option String := none
  deriving DecidableEq

namespace Parameter

/-- The parameter with another reference. -/
def referringTo (param : Parameter) (target : TypeId) : Parameter :=
  { param with reference := some target }

/-- The parameter as a list. -/
def asArray (param : Parameter) : Parameter := { param with isArray := true }

/-- The parameter as one that must be present. -/
def asRequired (param : Parameter) : Parameter := { param with required := true }

/-- The parameter with another description. -/
def describedAs (param : Parameter) (description : String) : Parameter :=
  { param with description }

/-- The parameter with another default. -/
def defaultingTo (param : Parameter) (value : String) : Parameter :=
  { param with defaultValue := some value }

/-- Whether callers may leave the parameter to its default: only a scalar outside a list
with a default that is not empty. -/
def isSupplied (param : Parameter) : Bool :=
  param.kind.isScalar && !param.isArray && param.defaultValue.any (· != "")

theorem isSupplied_iff {param : Parameter} : param.isSupplied = true ↔
    param.kind ≠ .custom ∧ param.isArray = false ∧
      ∃ value, param.defaultValue = some value ∧ value ≠ "" := by
  have scalar : param.kind.isScalar = true ↔ param.kind ≠ .custom := by
    cases param.kind <;> decide
  simp [isSupplied, scalar, and_assoc, Option.any_eq_true]

/-- The document of a parameter. -/
def toDocument (param : Parameter) : Json := .object [
  ("id", param.id.toJson), ("interface_id", param.interface.toJson),
  ("app_id", param.app.toJson), ("name", .string param.name),
  ("type", .string param.kind.name), ("ref", referenceToJson param.reference),
  ("is_array", .bool param.isArray), ("required", .bool param.required),
  ("description", .string param.description), ("group", .string param.side.name),
  ("default_value", (param.defaultValue.map Json.string).getD .null)]

/-- The members of a parameter. -/
def layout (origin : Origin) (room : Nat) : RecordLayout Parameter where
  name := "InterfaceParameter"
  blank := {
    id := ⟨0⟩, interface := ⟨0⟩, app := ⟨0⟩, name := "", kind := .string, side := .input }
  members := [
    .needed "id" Read.id fun param id => { param with id },
    .needed "interface_id" Read.id fun param interface => { param with interface },
    .needed "app_id" Read.id fun param app => { param with app },
    .needed "name" Read.text fun param name => { param with name },
    .needed "type" (FieldKind.reader origin room) fun param kind => { param with kind },
    .defaulted "ref" (Read.optional Read.id) fun param reference => { param with reference },
    .defaulted "is_array" Read.flag fun param isArray => { param with isArray },
    .defaulted "required" Read.flag fun param required => { param with required },
    .defaulted "description" Read.text fun param description => { param with description },
    .needed "group" (Side.reader origin room) fun param side => { param with side },
    .defaulted "default_value" (Read.optional Read.text) fun param defaultValue =>
      { param with defaultValue }]

/-- Read a parameter. -/
def reader : Reader Parameter := fun origin room =>
  (layout origin (room - 1)).read origin room

end Parameter

end SchemaGate
