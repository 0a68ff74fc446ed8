import SchemaGate.Json.Basic
import SchemaGate.Schema.Node

/-!
# Pruning values to a schema

Pruning keeps of a value what a schema declares and never fails. A scalar stays if its
kind is right, an array keeps the elements of which something remains, an object the
declared properties of which something remains, in rising order of keys. Nulls and
everything of the wrong kind are dropped; a value of which nothing remains becomes null.
-/

namespace SchemaGate

namespace Node

variable {ι : Type}

mutual

/-- What a schema keeps of a value; none if the value does not even have its kind. -/
def prune? : Node ι → Json → Option Json
  | ⟨_, kind, _, properties, _, items⟩, value =>
    match kind, value with
    | .string, .string text => some (.string text)
    | .number, .number number => some (.number number)
    | .boolean, .bool flag => some (.bool flag)
    | .array, .array elements => some (.array (pruneElements items elements))
    | .object, .object members =>
      some (.object (KeyedList.sorted (pruneMembers properties members)))
    | _, _ => none
termination_by structural node => node

/-- The elements that remain; all of them where nothing is declared. -/
def pruneElements : Option (Node ι) → List Json → List Json
  | none, elements => elements
  | some node, elements => elements.filterMap fun element => prune? node element
termination_by structural items => items

/-- The declared properties that remain, in the order of their declaration. -/
def pruneMembers : List (String × Node ι) → List (String × Json) → List (String × Json)
  | [], _ => []
  | (name, child) :: rest, members =>
    match (KeyedList.find? name members).bind fun field => prune? child field with
    | some kept => (name, kept) :: pruneMembers rest members
    | none => pruneMembers rest members
termination_by structural properties => properties

end

end Node

/-- What a schema keeps of a value, or null; without a schema the value itself. -/
def prune {ι : Type} (schema : Option (Node ι)) (value : Json) : Json :=
  match schema with
  | none => value
  | some node => (node.prune? value).getD .null

end SchemaGate
