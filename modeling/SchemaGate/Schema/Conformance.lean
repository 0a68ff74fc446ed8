import SchemaGate.Json.Part
import SchemaGate.Schema.Pruning

/-!
# Conformance

A value conforms to a schema if it is made of what the schema declares and of nothing
else: it is of the kind of its node and not null, the elements of an array conform to
its items, and every key of an object is a declared property whose value conforms.
Required names do not matter. Where an array declares nothing about its elements,
anything may stand in it.
-/

namespace SchemaGate.Node

variable {ι : Type}

/-- The value is made of what the schema declares. -/
inductive Conforms : Node ι → Json → Prop where
  /-- A text. -/
  | string {node : Node ι} {text : String} :
      node.kind = .string → Conforms node (.string text)
  /-- A number. -/
  | number {node : Node ι} {value : Number} :
      node.kind = .number → Conforms node (.number value)
  /-- A truth value. -/
  | boolean {node : Node ι} {value : Bool} :
      node.kind = .boolean → Conforms node (.bool value)
  /-- An array of conforming elements. -/
  | array {node : Node ι} {elements : List Json} :
      node.kind = .array →
      (∀ child, node.items = some child → ∀ element ∈ elements, Conforms child element) →
      Conforms node (.array elements)
  /-- An object of declared properties with conforming values. -/
  | object {node : Node ι} {members : List (String × Json)} :
      node.kind = .object →
      (∀ key, KeyedList.find? key node.properties = none → KeyedList.find? key members = none) →
      (∀ key value child, KeyedList.find? key members = some value →
        KeyedList.find? key node.properties = some child → Conforms child value) →
      Conforms node (.object members)

/-- Null conforms to nothing. -/
theorem not_conforms_null (node : Node ι) : ¬ Conforms node .null := fun h => by cases h

theorem conforms_array_iff {node : Node ι} {elements : List Json} :
    Conforms node (.array elements) ↔ node.kind = .array ∧
      ∀ child, node.items = some child → ∀ element ∈ elements, Conforms child element :=
  ⟨fun h => by cases h with | array hk he => exact ⟨hk, he⟩, fun h => .array h.1 h.2⟩

/-- An object conforms if each of its members conforms to the property of its key. -/
theorem conforms_object_iff {node : Node ι} {members : List (String × Json)} :
    Conforms node (.object members) ↔ node.kind = .object ∧
      ∀ key value, KeyedList.find? key members = some value →
        ∃ child, KeyedList.find? key node.properties = some child ∧ Conforms child value := by
  rw [KeyedList.forall_exists_find?_iff (r := fun value child => Conforms child value)]
  exact ⟨fun h => by cases h with | object hk hd hc => exact ⟨hk, hd, hc⟩,
    fun h => .object h.1 h.2.1 h.2.2⟩

end SchemaGate.Node
