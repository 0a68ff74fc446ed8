import SchemaGate.Schema.Questions

/-!
# A check goes along the places

A check descends into schema and value together, yet all that it does is to look at one
place after the other (`along`): where null meets an object node it asks whether the node
requires a name, anywhere else it sees by itself what is wrong, and it stops where
something is. So what holds of a check is shown by induction on the places.
-/

namespace SchemaGate

variable {ι : Type} [DecidableEq ι]

namespace Place

/-- Look at a place, asking the node where null meets an object node. -/
def look (place : Place ι) (memory : Memory ι) : Option Violation × Memory ι :=
  if place.isQuestion then
    let asked := place.node.requires memory
    (if asked.1 then some ⟨place.steps, .nullWithRequired⟩ else none, asked.2)
  else (place.violation?, memory)

/-- Look at one place after the other, up to the first where something is wrong. -/
def along : List (Place ι) → Memory ι → Option Violation × Memory ι
  | [], memory => (none, memory)
  | place :: rest, memory =>
    let looked := place.look memory
    match looked.1 with
    | some violation => (some violation, looked.2)
    | none => along rest looked.2

theorem look_below (step : Step) (place : Place ι) (memory : Memory ι) :
    (place.below step).look memory =
      ((place.look memory).1.map (Violation.below step), (place.look memory).2) := by
  have same : (place.below step).isQuestion = place.isQuestion := rfl
  unfold look
  rw [same, violation?_below]
  split
  · dsimp only [below]
    split <;> rfl
  · rfl

/-- Only null at an object node asks anything; elsewhere what is wrong is seen at once. -/
theorem look_root {node : Node ι} {value : Json} (h : value = .null → node.kind ≠ .object)
    (memory : Memory ι) : look ⟨[], node, value⟩ memory = (node.breach? value, memory) := by
  have quiet : ¬ isQuestion ⟨[], node, value⟩ = true :=
    fun hq => h (isQuestion_iff.mp hq).2 (isQuestion_iff.mp hq).1
  rw [look, if_neg quiet, violation?_root]

theorem along_singleton (place : Place ι) (memory : Memory ι) :
    along [place] memory = place.look memory := by
  rw [along]
  cases h : place.look memory with
  | mk found memory => cases found <;> rfl

/-- Seen from one step above a walk along places is the same. -/
theorem along_below (step : Step) (places : List (Place ι)) (memory : Memory ι) :
    along (places.map (below step)) memory =
      ((along places memory).1.map (Violation.below step), (along places memory).2) := by
  induction places generalizing memory with
  | nil => rfl
  | cons place rest ih =>
    rw [List.map_cons, along, along, look_below]
    cases (place.look memory).1 with
    | some violation => rfl
    | none => exact ih _

/-- A walk along places goes on with the second part if nothing is wrong in the first. -/
theorem along_append (front back : List (Place ι)) (memory : Memory ι) :
    along (front ++ back) memory =
      match (along front memory).1 with
      | some violation => (some violation, (along front memory).2)
      | none => along back (along front memory).2 := by
  induction front generalizing memory with
  | nil => rfl
  | cons place rest ih =>
    rw [List.cons_append, along, along]
    cases (place.look memory).1 with
    | some violation => rfl
    | none => exact ih _

end Place

namespace Node

open Place

/-- Where a visit to an element goes along the places inside it, the visit to all elements
does so, wherever counting starts. -/
theorem firstViolation_eq_along {visit : Json → Memory ι → Option Violation × Memory ι}
    {inside : Json → List (Place ι)}
    (hv : ∀ element memory, visit element memory = along (inside element) memory)
    (position : Nat) (elements : List Json) (memory : Memory ι) :
    firstViolation visit position elements memory =
      along ((elements.zipIdx position).flatMap fun element =>
        (inside element.1).map (Place.below (.index element.2))) memory := by
  induction elements generalizing position memory with
  | nil => rfl
  | cons element rest ih =>
    rw [List.zipIdx_cons, List.flatMap_cons, along_append, along_below, ← hv, firstViolation]
    dsimp only
    cases (visit element memory).1 with
    | some violation => rfl
    | none => exact ih (position + 1) _

mutual

/-- A visit goes along the places where the value meets the schema. -/
theorem visit_eq_along : (node : Node ι) → ∀ value memory,
    visit node value memory = along (node.places value) memory
  | ⟨label, kind, description, properties, required, items⟩, value, memory => by
    unfold visit places
    split
    · rw [along_singleton, look_root (fun _ => by simp), breach?_null_of_array rfl]
    · rw [along_singleton]
      rfl
    · rfl
    · rfl
    · rfl
    · next elements => exact visitElements_eq_along items elements memory
    · next members =>
      rw [along, look_root (fun h => by cases h), breach?_object rfl]
      cases required.names.find? (isAbsent members) with
      | some name => rfl
      | none => exact visitProperties_eq_along properties members memory
    · rw [along, look_root, breach?_of_kind_ne]
      · cases kind <;> cases value <;> simp_all [NodeKind.values, Json.kind]
      · cases kind <;> cases value <;> simp_all [NodeKind.isScalar]
      · rintro rfl rfl
        contradiction

/-- So does a visit to the elements of an array. -/
theorem visitElements_eq_along : (items : Option (Node ι)) → ∀ elements memory,
    visitElements items elements memory = along (elementPlaces items elements) memory
  | none, _, _ => rfl
  | some node, elements, memory =>
    firstViolation_eq_along (visit_eq_along node) 0 elements memory

/-- So does a visit to the declared properties of an object. -/
theorem visitProperties_eq_along : (properties : List (String × Node ι)) → ∀ members memory,
    visitProperties properties members memory = along (memberPlaces properties members) memory
  | [], _, _ => rfl
  | (name, child) :: rest, members, memory => by
    have later := visitProperties_eq_along rest members
    rw [visitProperties, memberPlaces]
    cases KeyedList.find? name members with
    | none => exact later memory
    | some field =>
      dsimp only
      split
      · exact later memory
      · rw [along_append, along_below, ← visit_eq_along child]
        dsimp only
        cases (visit child field memory).1 with
        | some violation => rfl
        | none => exact later _

end

end Node

end SchemaGate
