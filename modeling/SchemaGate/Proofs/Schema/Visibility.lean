import SchemaGate.Schema.Acceptance
import SchemaGate.Schema.Comparison
import Mathlib.Data.List.Find
import Mathlib.Data.List.Forall2

/-!
# What a check sees of a value

A check looks at the kind of a value, at which required names an object lacks, at which declared
names it holds and at what stands under them, and at the elements of an array whose items are
declared. Values that are alike in this (`Node.Alike`) are visited in the same way: the visit
meets the same violation and asks the same questions of the same memory. Undeclared names, the
content of scalars, elements of arrays without items and whatever is inside a value of another
kind than the wanted one are never seen.
-/

namespace SchemaGate

variable {ι : Type}

namespace Node

/-- Alike values are of one kind. -/
theorem Alike.kind_eq {node : Node ι} {value other : Json} (h : Alike node value other) :
    value.kind = other.kind := by
  cases h
  assumption

/-- Null is alike to null alone. -/
theorem Alike.isNull_eq {node : Node ι} {value other : Json} (h : Alike node value other) :
    value.isNull = other.isNull := by
  have kinds := h.kind_eq
  cases value <;> cases other <;> first | rfl | cases kinds

/-- Alike arrays have, where items are declared, alike elements at the same positions. -/
theorem Alike.forall₂_elements {node child : Node ι} {elements others : List Json}
    (h : Alike node (.array elements) (.array others)) (hk : node.kind = .array)
    (hi : node.items = some child) : List.Forall₂ (Alike child) elements others := by
  obtain ⟨-, -, -, -, lengths, inside⟩ := h
  have same := lengths hk elements others rfl rfl (by rw [hi]; exact Option.some_ne_none child)
  rw [List.forall₂_iff_get]
  refine ⟨same, fun position first second => ?_⟩
  exact inside hk elements others rfl rfl child hi position _ _
    (List.getElem?_eq_getElem first) (List.getElem?_eq_getElem second)

/-- Two objects are alike if the same required names are absent from both and what they hold
under declared names is the same; under other names they may hold anything. -/
theorem alike_object {node : Node ι} {members others : List (String × Json)}
    (lacks : ∀ name ∈ node.required, isAbsent members name = isAbsent others name)
    (held : ∀ property ∈ node.properties,
      (KeyedList.find? property.1 members = none ↔ KeyedList.find? property.1 others = none))
    (inside : ∀ property ∈ node.properties, ∀ field twin,
      KeyedList.find? property.1 members = some field →
      KeyedList.find? property.1 others = some twin → Alike property.2 field twin) :
    Alike node (.object members) (.object others) := by
  refine .intro rfl ?_ ?_ ?_ ?_ ?_
  · rintro - _ _ ⟨⟩ ⟨⟩
    exact lacks
  · rintro - _ _ ⟨⟩ ⟨⟩
    exact held
  · rintro - _ _ ⟨⟩ ⟨⟩
    exact inside
  · rintro - _ _ ⟨⟩
  · rintro - _ _ ⟨⟩

/-- Arrays are alike to a node without items. -/
theorem alike_array {node : Node ι} (hi : node.items = none) (elements others : List Json) :
    Alike node (.array elements) (.array others) := by
  refine .intro rfl ?_ ?_ ?_ ?_ ?_
  · rintro - _ _ ⟨⟩
  · rintro - _ _ ⟨⟩
  · rintro - _ _ ⟨⟩
  · intro _ _ _ _ _ declared
    exact absurd hi declared
  · intro _ _ _ _ _ child declared
    rw [hi] at declared
    cases declared

/-- Values of one kind are alike if the node is scalar or wants values of another kind. -/
theorem alike_of_kind {node : Node ι} {value other : Json} (hk : value.kind = other.kind)
    (h : node.kind.isScalar = true ∨ value.kind ≠ node.kind.values) : Alike node value other := by
  have noObject : ∀ members, node.kind = .object → value ≠ .object members := by
    rintro members ho rfl
    rw [ho] at h
    simp [NodeKind.isScalar, NodeKind.values, Json.kind] at h
  have noArray : ∀ elements, node.kind = .array → value ≠ .array elements := by
    rintro elements ha rfl
    rw [ha] at h
    simp [NodeKind.isScalar, NodeKind.values, Json.kind] at h
  refine .intro hk ?_ ?_ ?_ ?_ ?_
  · intro ho members _ hv
    exact absurd hv (noObject members ho)
  · intro ho members _ hv
    exact absurd hv (noObject members ho)
  · intro ho members _ hv
    exact absurd hv (noObject members ho)
  · intro ha elements _ hv
    exact absurd hv (noArray elements ha)
  · intro ha elements _ hv
    exact absurd hv (noArray elements ha)

/-- A value is alike to itself. -/
theorem Alike.refl (node : Node ι) (value : Json) : Alike node value value := by
  induction node using Node.induction generalizing value with
  | step node ihp ihi =>
    refine .intro rfl ?_ ?_ ?_ ?_ ?_
    · rintro - _ _ rfl ⟨⟩ _ _
      rfl
    · rintro - _ _ rfl ⟨⟩ _ _
      rfl
    · rintro - _ _ rfl ⟨⟩ property hm field twin hf ht
      cases hf.symm.trans ht
      exact ihp property hm field
    · rintro - _ _ rfl ⟨⟩ _
      rfl
    · rintro - _ _ rfl ⟨⟩ child hi position element twin he ht
      cases he.symm.trans ht
      exact ihi child hi element

section Visits

variable [DecidableEq ι]

/-- Elements that are visited alike in pairs have the same first violation. -/
theorem firstViolation_congr {σ : Type} {visit : Json → σ → Option Violation × σ}
    {elements others : List Json}
    (h : List.Forall₂ (fun element other => ∀ memory, visit element memory = visit other memory)
      elements others) (position : Nat) (memory : σ) :
    firstViolation visit position elements memory =
      firstViolation visit position others memory := by
  induction h generalizing position memory with
  | nil => rfl
  | cons same _ ih =>
    rw [firstViolation, firstViolation, same memory]
    split
    · rfl
    · exact ih (position + 1) _

/-- Objects whose declared members are visited alike have the same first violation in them. -/
theorem visitProperties_congr {properties : List (String × Node ι)}
    {members others : List (String × Json)}
    (held : ∀ property ∈ properties, KeyedList.find? property.1 members = none ↔
      KeyedList.find? property.1 others = none)
    (inside : ∀ property ∈ properties, ∀ field twin,
      KeyedList.find? property.1 members = some field →
      KeyedList.find? property.1 others = some twin →
      field.isNull = twin.isNull ∧ ∀ memory, visit property.2 field memory =
        visit property.2 twin memory) (memory : Memory ι) :
    visitProperties properties members memory = visitProperties properties others memory := by
  induction properties generalizing memory with
  | nil => rfl
  | cons property rest ih =>
    obtain ⟨name, child⟩ := property
    have later := ih (fun _ hm => held _ (List.mem_cons_of_mem _ hm))
      fun _ hm => inside _ (List.mem_cons_of_mem _ hm)
    have first := held (name, child) List.mem_cons_self
    rw [visitProperties, visitProperties]
    cases hf : KeyedList.find? name members with
    | none =>
      rw [first.mp hf]
      exact later memory
    | some field =>
      cases ht : KeyedList.find? name others with
      | none => rw [first.mpr ht] at hf; cases hf
      | some twin =>
        have pair := inside (name, child) List.mem_cons_self field twin hf ht
        have visits : visit child field memory = visit child twin memory := pair.2 memory
        dsimp only
        rw [pair.1, visits]
        split
        · exact later memory
        · split
          · rfl
          · exact later _

/-- Alike values are visited alike, whatever is remembered. -/
theorem visit_congr {node : Node ι} {value other : Json} (h : Alike node value other)
    (memory : Memory ι) : visit node value memory = visit node other memory := by
  induction node using Node.induction generalizing value other memory with
  | step node ihp ihi =>
    have alike := h
    obtain ⟨kinds, lacks, holds, members, -, -⟩ := h
    obtain ⟨label, kind, description, properties, required, items⟩ := node
    cases value with
    | null => cases other <;> first | rfl | cases kinds
    | bool _ => cases other <;> first | (cases kind <;> rfl) | cases kinds
    | number _ => cases other <;> first | (cases kind <;> rfl) | cases kinds
    | string _ => cases other <;> first | (cases kind <;> rfl) | cases kinds
    | array elements =>
      cases other with
      | array others =>
        cases kind with
        | array =>
          cases hi : items with
          | none => rfl
          | some child =>
            subst hi
            have pairs := alike.forall₂_elements rfl rfl
            exact firstViolation_congr (pairs.imp fun _ _ ha => ihi child rfl ha) 0 memory
        | string | number | boolean | object => rfl
      | _ => cases kinds
    | object fields =>
      cases other with
      | object others =>
        cases kind with
        | object =>
          have missing :
              required.names.find? (isAbsent fields) = required.names.find? (isAbsent others) :=
            List.find?_congr (lacks rfl fields others rfl rfl)
          have inside := visitProperties_congr (holds rfl fields others rfl rfl)
            fun property hm field twin hf ht =>
              have pair := members rfl fields others rfl rfl property hm field twin hf ht
              ⟨pair.isNull_eq, ihp property hm pair⟩
          rw [visit, visit]
          rw [missing]
          cases required.names.find? (isAbsent others) with
          | some name => rfl
          | none => exact inside memory
        | string | number | boolean | array => rfl
      | _ => cases kinds

end Visits

end Node

/-- Alike values are checked alike: the answer, the place and the reason of a failure, what is
remembered and both counters are the same. Hence a check sees nothing of undeclared names beyond
the absence of required ones, nothing of the content of scalars, nothing of the elements of arrays
without items and nothing inside a value of another kind than the wanted one; this holds at every
node, and so at every depth of alike values. -/
theorem alike_values_check_alike [DecidableEq ι] (schema : Node ι) :
    (∀ (checker : Checker ι) (value other : Json), schema.Alike value other →
      checker.run schema value = checker.run schema other) ∧
    (∀ members others : List (String × Json),
      (∀ name ∈ schema.required, isAbsent members name = isAbsent others name) →
      (∀ name ∈ KeyedList.keys schema.properties,
        KeyedList.find? name members = KeyedList.find? name others) →
      schema.Alike (.object members) (.object others)) ∧
    (∀ value other : Json, value.kind = other.kind →
      schema.kind.isScalar = true ∨ value.kind ≠ schema.kind.values →
      schema.Alike value other) ∧
    (∀ elements others : List Json, schema.items = none →
      schema.Alike (.array elements) (.array others)) := by
  refine ⟨?_, ?_, fun _ _ => Node.alike_of_kind, fun _ _ hi => Node.alike_array hi _ _⟩
  · intro checker value other alike
    have visited := Node.visit_congr alike {}
    unfold Checker.run
    rw [visited]
  · intro members others lacks declared
    have same : ∀ property ∈ schema.properties,
        KeyedList.find? property.1 members = KeyedList.find? property.1 others :=
      fun property hm => declared property.1 (List.mem_map_of_mem hm)
    refine Node.alike_object lacks (fun property hm => by rw [same property hm]) ?_
    intro property hm field twin hf ht
    rw [same property hm, ht] at hf
    cases hf
    exact .refl property.2 field

/-- A stay asks for nothing. -/
def stay : NumberedSchema := { label := 1, kind := .object }

/-- A room is on a floor. -/
def room : NumberedSchema :=
  { label := 2, kind := .object, properties := [("floor", { label := 3, kind := .number })],
    required := .ofList ["floor"] }

/-- A booking needs a guest of whom nothing is said, and holds a stay, any notes and a room. -/
def booking : NumberedSchema :=
  { label := 0, kind := .object, required := .ofList ["guest"],
    properties := [("stay", stay), ("notes", { label := 4, kind := .array }), ("room", room)] }

/-- A booking whose floor is a text, with two notes and a member too many. -/
def notedBooking : List (String × Json) :=
  [("guest", .string "Ann"), ("stay", .null), ("notes", .array [.null, .bool true]),
    ("room", .object [("floor", .string "second")]), ("paid", .bool true)]

/-- Another one, without notes and with a view. -/
def sparseBooking : List (String × Json) :=
  [("guest", .bool false), ("stay", .null), ("notes", .array []),
    ("room", .object [("view", .string "sea"), ("floor", .string "third")])]

/-- Two bookings that share no text fail at the same place, after one question about the stay. -/
theorem alike_values_check_alike_bookings :
    booking.Alike (.object notedBooking) (.object sparseBooking) ∧
    Checker.run {} booking (.object notedBooking) =
      Checker.run {} booking (.object sparseBooking) ∧
    (Checker.run {} booking (.object notedBooking)).violation =
      some ⟨[.name "room", .name "floor"], .wrongKind .number .string⟩ ∧
    (Checker.run {} booking (.object notedBooking)).memory.misses = 1 := by
  have rooms : room.Alike (.object [("floor", .string "second")])
      (.object [("view", .string "sea"), ("floor", .string "third")]) := by
    refine Node.alike_object (by decide) (by decide) ?_
    intro property hm field twin hf ht
    cases List.mem_singleton.mp hm
    cases hf
    cases ht
    exact (alike_values_check_alike _).2.2.1 _ _ rfl (.inl rfl)
  have bookings : booking.Alike (.object notedBooking) (.object sparseBooking) := by
    refine Node.alike_object (by decide) (by decide) ?_
    intro property hm field twin hf ht
    simp only [booking, List.mem_cons, List.not_mem_nil, or_false] at hm
    rcases hm with rfl | rfl | rfl
    · cases hf
      cases ht
      exact .refl stay .null
    · cases hf
      cases ht
      exact (alike_values_check_alike _).2.2.2 _ _ rfl
    · cases hf
      cases ht
      exact rooms
  exact ⟨bookings, (alike_values_check_alike booking).1 {} _ _ bookings, by decide, by decide⟩

end SchemaGate
