import SchemaGate.Json.Sorted

/-!
# Parts of values

A value is part of another one if it comes from it by dropping elements of arrays and
members of objects, at any depth, and nothing else: what is kept keeps its order and
its keys. A scalar is part of itself alone.
-/

namespace SchemaGate.Json

mutual

/-- The first value comes from the second by dropping elements and members. -/
inductive Part : Json → Json → Prop where
  /-- Null is part of itself. -/
  | null : Part null null
  /-- So is a truth value. -/
  | bool (value : Bool) : Part (bool value) (bool value)
  /-- So is a number. -/
  | number (value : Number) : Part (number value) (number value)
  /-- So is a text. -/
  | string (value : String) : Part (string value) (string value)
  /-- Elements may be dropped, and dropped from. -/
  | array {kept elements : List Json} :
      PartElements kept elements → Part (array kept) (array elements)
  /-- Members may be dropped, and dropped from. -/
  | object {kept members : List (String × Json)} :
      (∀ key, KeyedList.find? key members = none → KeyedList.find? key kept = none) →
      (∀ key value whole, KeyedList.find? key kept = some value →
        KeyedList.find? key members = some whole → Part value whole) →
      Part (object kept) (object members)

/-- The first elements are parts of some of the second ones, in their order. -/
inductive PartElements : List Json → List Json → Prop where
  /-- Nothing is left. -/
  | nil : PartElements [] []
  /-- An element is dropped. -/
  | drop {kept elements : List Json} (element : Json) :
      PartElements kept elements → PartElements kept (element :: elements)
  /-- A part of an element is kept. -/
  | keep {value element : Json} {kept elements : List Json} :
      Part value element → PartElements kept elements →
      PartElements (value :: kept) (element :: elements)

end

/-- An object is part of another one if each of its members is part of the other's member
of that key. -/
theorem part_object_iff {kept members : List (String × Json)} :
    Part (.object kept) (.object members) ↔ ∀ key value, KeyedList.find? key kept = some value →
      ∃ whole, KeyedList.find? key members = some whole ∧ Part value whole := by
  rw [KeyedList.forall_exists_find?_iff]
  exact ⟨fun h => by cases h with | object hn hp => exact ⟨hn, hp⟩, fun h => .object h.1 h.2⟩

mutual

/-- Every value is part of itself. -/
theorem Part.refl : (value : Json) → Part value value
  | .null => .null
  | .bool value => .bool value
  | .number value => .number value
  | .string value => .string value
  | .array elements => .array (PartElements.refl elements)
  | .object members => .object (fun _ h => h) fun key value whole hv hw => by
    obtain rfl := Option.some.inj (hv.symm.trans hw)
    exact Part.refl_of_find? members key value hv

theorem PartElements.refl : (elements : List Json) → PartElements elements elements
  | [] => .nil
  | element :: rest => .keep (Part.refl element) (PartElements.refl rest)

theorem Part.refl_of_find? : (members : List (String × Json)) → ∀ key value,
    KeyedList.find? key members = some value → Part value value
  | [], _, _, h => by simp [KeyedList.find?] at h
  | (k, whole) :: rest, key, value, h => by
    rw [KeyedList.find?] at h
    split at h
    · obtain rfl := Option.some.inj h
      exact Part.refl whole
    · exact Part.refl_of_find? rest key value h

end

end SchemaGate.Json
