import Mathlib.Order.Defs.PartialOrder
import SchemaGate.Json.Part

/-!
# The order of parts

Being part of a value is transitive. Two values that are parts of each other hold the
same members under the same keys and elements of the same number, so in normal form they
are equal: values in normal form are ordered by being part of one another.
-/

namespace SchemaGate.Json

/-- Parts have at most as many elements. -/
theorem PartElements.length_le {kept elements : List Json} (h : PartElements kept elements) :
    kept.length ≤ elements.length := by
  induction elements generalizing kept with
  | nil =>
    cases h with
    | nil => exact Nat.le_refl _
  | cons element rest ih =>
    cases h with
    | drop _ h => exact Nat.le_succ_of_le (ih h)
    | keep _ h => exact Nat.succ_le_succ (ih h)

mutual

/-- A part of a part is a part. -/
theorem Part.trans : (whole : Json) → ∀ {value middle : Json},
    Part value middle → Part middle whole → Part value whole
  | .null, _, _, h, h' => by cases h'; exact h
  | .bool _, _, _, h, h' => by cases h'; exact h
  | .number _, _, _, h, h' => by cases h'; exact h
  | .string _, _, _, h, h' => by cases h'; exact h
  | .array elements, _, _, h, h' => by
    cases h' with
    | array h' =>
      cases h with
      | array h => exact .array (PartElements.trans elements h h')
  | .object members, _, _, h, h' => by
    cases h' with
    | object hn' hp' =>
      cases h with
      | object hn hp =>
        have outer := part_object_iff.mp (.object hn' hp')
        have inner := part_object_iff.mp (.object hn hp)
        refine part_object_iff.mpr fun key value hv => ?_
        obtain ⟨middle, hm, first⟩ := inner key value hv
        obtain ⟨whole, hw, second⟩ := outer key middle hm
        exact ⟨whole, hw, Part.trans_of_find? members key whole hw first second⟩

theorem PartElements.trans : (elements : List Json) → ∀ {kept middle : List Json},
    PartElements kept middle → PartElements middle elements → PartElements kept elements
  | [], _, _, h, h' => by cases h'; exact h
  | element :: rest, _, _, h, h' => by
    cases h' with
    | drop _ h' => exact .drop element (PartElements.trans rest h h')
    | keep hp' h' =>
      cases h with
      | drop _ h => exact .drop element (PartElements.trans rest h h')
      | keep hp h => exact .keep (Part.trans element hp hp') (PartElements.trans rest h h')

theorem Part.trans_of_find? : (members : List (String × Json)) → ∀ key whole,
    KeyedList.find? key members = some whole → ∀ {value middle : Json},
    Part value middle → Part middle whole → Part value whole
  | [], _, _, hf, _, _, _, _ => by simp [KeyedList.find?] at hf
  | (k, first) :: rest, key, whole, hf, _, _, h, h' => by
    rw [KeyedList.find?] at hf
    split at hf
    · obtain rfl := Option.some.inj hf
      exact Part.trans first h h'
    · exact Part.trans_of_find? rest key whole hf h h'

end

mutual

/-- Values in normal form that are parts of each other are equal. -/
theorem Part.antisymm : (value : Json) → ∀ {other : Json}, IsSorted value → IsSorted other →
    Part value other → Part other value → value = other
  | .null, _, _, _, h, _ => by cases h; rfl
  | .bool _, _, _, _, h, _ => by cases h; rfl
  | .number _, _, _, _, h, _ => by cases h; rfl
  | .string _, _, _, _, h, _ => by cases h; rfl
  | .array elements, _, hs, hs', h, h' => by
    cases h with
    | array h =>
      cases h' with
      | array h' =>
        rw [PartElements.antisymm elements (isSorted_array_iff.mp hs)
          (isSorted_array_iff.mp hs') h h']
  | .object members, _, hs, hs', h, h' => by
    cases h with
    | object hn hp =>
      cases h' with
      | object hn' hp' =>
        obtain ⟨rising, parts⟩ := isSorted_object_iff.mp hs
        obtain ⟨rising', parts'⟩ := isSorted_object_iff.mp hs'
        have inner := part_object_iff.mp (.object hn hp)
        congr 1
        refine KeyedList.ext_of_isRising rising rising' fun key => ?_
        cases hv : KeyedList.find? key members with
        | none => rw [hn' key hv]
        | some value =>
          obtain ⟨whole, hw, there⟩ := inner key value hv
          have first := parts _ (KeyedList.mem_of_find?_eq_some hv)
          have second := parts' _ (KeyedList.mem_of_find?_eq_some hw)
          have back := hp' key whole value hw hv
          rw [hw, Part.antisymm_of_find? members key value hv first second there back]

theorem PartElements.antisymm : (elements : List Json) → ∀ {others : List Json},
    (∀ element ∈ elements, IsSorted element) → (∀ element ∈ others, IsSorted element) →
    PartElements elements others → PartElements others elements → elements = others
  | [], _, _, _, _, h' => by cases h'; rfl
  | element :: rest, _, hs, hs', h, h' => by
    have long := h.length_le
    have short := h'.length_le
    cases h with
    | drop other h =>
      have shorter := h.length_le
      simp only [List.length_cons] at short shorter
      omega
    | keep hp h =>
      cases h' with
      | drop _ h' =>
        have shorter := h'.length_le
        simp only [List.length_cons] at long shorter
        omega
      | keep hp' h' =>
        rw [List.forall_mem_cons] at hs hs'
        rw [Part.antisymm element hs.1 hs'.1 hp hp', PartElements.antisymm rest hs.2 hs'.2 h h']

theorem Part.antisymm_of_find? : (members : List (String × Json)) → ∀ key value,
    KeyedList.find? key members = some value → ∀ {other : Json}, IsSorted value →
    IsSorted other → Part value other → Part other value → value = other
  | [], _, _, hf, _, _, _, _, _ => by simp [KeyedList.find?] at hf
  | (k, first) :: rest, key, value, hf, _, hs, hs', h, h' => by
    rw [KeyedList.find?] at hf
    split at hf
    · obtain rfl := Option.some.inj hf
      exact Part.antisymm first hs hs' h h'
    · exact Part.antisymm_of_find? rest key value hf hs hs' h h'

end

/-- A value in normal form. -/
@[ext]
structure Normal where
  /-- The value. -/
  value : Json
  /-- Its objects have their keys in strictly rising order. -/
  isSorted : value.IsSorted

/-- Values in normal form are ordered by being parts of one another. -/
instance : PartialOrder Normal where
  le part whole := Part part.value whole.value
  le_refl whole := Part.refl whole.value
  le_trans _ _ whole := Part.trans whole.value
  le_antisymm part whole h h' :=
    Normal.ext (Part.antisymm part.value part.isSorted whole.isSorted h h')

end SchemaGate.Json
