import SchemaGate.Record.Layout
import SchemaGate.Schema.Node

/-!
# Schema documents

A schema as a document: its kind under `type`, a description that is not empty, and the
members that its kind uses. An object always lists its properties and required names,
an array its items if it has any, a scalar nothing more. `toDocument` keeps the order
of properties, `toJson` is its normal form. Reading takes every member in whatever
combination, also those that the kind ignores.
-/

namespace SchemaGate

/-- Node kinds in documents are their names. -/
def NodeKind.reader : Reader NodeKind := Reader.variant variants

/-- A value that is no schema document. -/
structure SchemaFault where
  /-- The fault of shape. -/
  cause : ShapeFault

/-- The wording of the error. -/
def SchemaFault.message (fault : SchemaFault) : String :=
  "invalid schema document: " ++ fault.cause.message

namespace Node

variable {ι : Type}

/-- A description in a document; an empty one is left out. -/
def describe (description : String) : List (String × Json) :=
  if description = "" then [] else [("description", .string description)]

mutual

/-- The document of a schema, members in declaration order. -/
def toDocument : Node ι → Json
  | ⟨_, kind, description, properties, required, items⟩ =>
    .object (("type", .string kind.name) :: (describe description ++
      match kind with
      | .object => [
          ("properties", .object (propertyDocuments properties)),
          ("required", Json.ofStrings required)]
      | .array => itemsDocument items
      | _ => []))
termination_by structural node => node

/-- The documents of properties, in order. -/
def propertyDocuments : List (String × Node ι) → List (String × Json)
  | [] => []
  | (name, child) :: rest => (name, toDocument child) :: propertyDocuments rest
termination_by structural properties => properties

/-- The document of items as a member. -/
def itemsDocument : Option (Node ι) → List (String × Json)
  | none => []
  | some node => [("items", toDocument node)]
termination_by structural items => items

end

/-- The schema as a value in normal form. -/
def toJson (node : Node ι) : Json := node.toDocument.sorted

end Node

namespace Schema

/-- The members of a schema, given readers of what lies inside its bracket. -/
def layout (kind : Json.Draft → Read NodeKind)
    (properties : Json.Draft → Read (KeyedList String Schema))
    (required : Json.Draft → Read NameSet) (items : Json.Draft → Read Schema) :
    RecordLayout Schema where
  name := "SchemaNode"
  blank := Node.bare .string
  members := [
    .needed "type" kind fun node kind => { node with kind },
    .defaulted "description" Read.text fun node description => { node with description },
    .defaulted "properties" properties fun node properties => { node with properties },
    .defaulted "required" required fun node required => { node with required },
    .defaulted "items" (Read.optional items) fun node items => { node with items }]

/-- Read a schema. Its bracket takes one from `room`, that around its properties another. -/
def read (origin : Origin) : (room : Nat) → Json.Draft → Read Schema
  | 0 =>
    (layout (NodeKind.reader origin 0) (Read.parts 0 fun _ => Read.malformed) (Read.textSet 0)
      fun _ => Read.malformed).read origin 0
  | inner + 1 =>
    let properties := match inner with
      | 0 => Read.parts 0 fun _ => Read.malformed
      | deeper + 1 => Read.parts (deeper + 1) (read origin deeper)
    (layout (NodeKind.reader origin inner) properties (Read.textSet inner)
      (read origin inner)).read origin (inner + 1)
termination_by structural room => room

/-- Read a schema from a document. -/
def reader : Reader Schema := fun origin room => read origin room

/-- The schema that a value describes. -/
def ofJson (value : Json) : Except SchemaFault Schema :=
  match reader.ofJson value with
  | .ok schema => .ok schema
  | .error (.shape fault) => .error ⟨fault⟩
  | .error .malformed => .error ⟨.mismatch .map (.record "SchemaNode")⟩

end Schema

end SchemaGate
