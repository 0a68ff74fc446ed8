import SchemaGate.Json.Basic

/-!
# Values in normal form

A value is in normal form when the keys of every object in it stand in strictly rising
order. `sorted` takes every document there and leaves what is there alone, so equality
of values in normal form ignores the order in which their members were written.
-/

namespace SchemaGate.Json

/-- Every object in the value has its keys in strictly rising order. -/
inductive IsSorted : Json → Prop where
  /-- Null has no objects in it. -/
  | null : IsSorted null
  /-- Nor has a truth value. -/
  | bool (value : Bool) : IsSorted (bool value)
  /-- Nor has a number. -/
  | number (value : Number) : IsSorted (number value)
  /-- Nor has a text. -/
  | string (value : String) : IsSorted (string value)
  /-- An array of values in normal form. -/
  | array {elements : List Json} :
      (∀ element ∈ elements, IsSorted element) → IsSorted (array elements)
  /-- Values in normal form under rising keys. -/
  | object {members : List (String × Json)} :
      KeyedList.IsRising members → (∀ entry ∈ members, IsSorted entry.2) →
      IsSorted (object members)

theorem isSorted_array_iff {elements : List Json} :
    IsSorted (.array elements) ↔ ∀ element ∈ elements, IsSorted element :=
  ⟨fun h => by cases h with | array he => exact he, .array⟩

theorem isSorted_object_iff {members : List (String × Json)} :
    IsSorted (.object members) ↔
      KeyedList.IsRising members ∧ ∀ entry ∈ members, IsSorted entry.2 :=
  ⟨fun h => by cases h with | object hr hm => exact ⟨hr, hm⟩, fun h => .object h.1 h.2⟩

mutual

/-- The normal form of a document is in normal form. -/
theorem isSorted_sorted : (value : Json) → IsSorted (sorted value)
  | .null => .null
  | .bool value => .bool value
  | .number value => .number value
  | .string value => .string value
  | .array elements => .array (isSorted_of_mem_sortedElements elements)
  | .object members =>
    .object (KeyedList.isRising_sorted _) fun entry h =>
      isSorted_of_mem_sortedMembers members entry (KeyedList.mem_of_mem_sorted h)

theorem isSorted_of_mem_sortedElements :
    (elements : List Json) → ∀ element ∈ sortedElements elements, IsSorted element
  | [], element, h => absurd h (by simp [sortedElements])
  | value :: rest, element, h => by
    rw [sortedElements] at h
    rcases List.mem_cons.mp h with rfl | h
    · exact isSorted_sorted value
    · exact isSorted_of_mem_sortedElements rest element h

theorem isSorted_of_mem_sortedMembers :
    (members : List (String × Json)) → ∀ entry ∈ sortedMembers members, IsSorted entry.2
  | [], entry, h => absurd h (by simp [sortedMembers])
  | (key, value) :: rest, entry, h => by
    rw [sortedMembers] at h
    rcases List.mem_cons.mp h with rfl | h
    · exact isSorted_sorted value
    · exact isSorted_of_mem_sortedMembers rest entry h

end

mutual

/-- A value in normal form is its own normal form. -/
theorem sorted_of_isSorted : (value : Json) → IsSorted value → sorted value = value
  | .null, _ => rfl
  | .bool _, _ => rfl
  | .number _, _ => rfl
  | .string _, _ => rfl
  | .array elements, h => by
    rw [sorted, sortedElements_of_isSorted elements (isSorted_array_iff.mp h)]
  | .object members, h => by
    obtain ⟨rising, parts⟩ := isSorted_object_iff.mp h
    rw [sorted, sortedMembers_of_isSorted members parts, KeyedList.sorted_of_isRising rising]

theorem sortedElements_of_isSorted :
    (elements : List Json) → (∀ element ∈ elements, IsSorted element) →
      sortedElements elements = elements
  | [], _ => rfl
  | value :: rest, h => by
    rw [sortedElements, sorted_of_isSorted value (h value List.mem_cons_self),
      sortedElements_of_isSorted rest fun element hm => h element (List.mem_cons_of_mem _ hm)]

theorem sortedMembers_of_isSorted :
    (members : List (String × Json)) → (∀ entry ∈ members, IsSorted entry.2) →
      sortedMembers members = members
  | [], _ => rfl
  | (key, value) :: rest, h => by
    rw [sortedMembers, sorted_of_isSorted value (h (key, value) List.mem_cons_self),
      sortedMembers_of_isSorted rest fun entry hm => h entry (List.mem_cons_of_mem _ hm)]

end

/-- Sorting twice is sorting once. -/
theorem sorted_sorted (value : Json) : value.sorted.sorted = value.sorted :=
  sorted_of_isSorted _ (isSorted_sorted value)

theorem sortedElements_eq_map (elements : List Json) :
    sortedElements elements = elements.map sorted := by
  induction elements with
  | nil => rfl
  | cons element rest ih => rw [sortedElements, ih, List.map_cons]

theorem sortedMembers_eq_map (members : List (String × Json)) :
    sortedMembers members = members.map fun entry => (entry.1, entry.2.sorted) := by
  induction members with
  | nil => rfl
  | cons entry rest ih => rw [sortedMembers, ih, List.map_cons]

theorem sorted_ofStrings (values : List String) : (ofStrings values).sorted = ofStrings values := by
  refine sorted_of_isSorted _ (.array fun element hm => ?_)
  obtain ⟨value, -, rfl⟩ := List.mem_map.mp hm
  exact .string value

end SchemaGate.Json
