import SchemaGate.Proofs.Schema.Closure
import SchemaGate.Proofs.Schema.Traversal

/-!
# The violation that a check reports

A check reports what is wrong at the first place where anything is wrong, in the order
of traversal. The steps of the report lead from the root, through the schema and the
value together, to a node that rejects the value there, or to an object that lacks the
required name given by the last step.
-/

namespace SchemaGate

variable {ι : Type}

namespace Place

variable [DecidableEq ι] {root : Node ι}

/-- With right answers in memory a look at a place reports what is wrong there. -/
theorem look_eq_violation? (hc : root.Coherent) {place : Place ι} (hw : place.node.Within root)
    {memory : Memory ι} (hs : Memory.Sound root memory) :
    (place.look memory).1 = place.violation? ∧ Memory.Sound root (place.look memory).2 := by
  unfold look
  split
  · next hq =>
    have asked := Node.requires_eq_true_iff hc place.node hw memory hs
    rw [violation?_of_isQuestion hq]
    exact ⟨if_congr asked.1 rfl rfl, asked.2⟩
  · exact ⟨rfl, hs⟩

/-- A walk along places reports what is wrong at the first one where anything is. -/
theorem along_eq_findSome? (hc : root.Coherent) {places : List (Place ι)}
    (hw : ∀ place ∈ places, place.node.Within root) {memory : Memory ι}
    (hs : Memory.Sound root memory) :
    (along places memory).1 = places.findSome? violation? := by
  induction places generalizing memory with
  | nil => rfl
  | cons place rest ih =>
    obtain ⟨first, kept⟩ := look_eq_violation? hc (hw place List.mem_cons_self) hs
    rw [List.findSome?_cons, ← first, along]
    cases (place.look memory).1 with
    | some violation => rfl
    | none => exact ih (fun other hm => hw other (List.mem_cons_of_mem _ hm)) kept

end Place

namespace Node

/-- The steps of a place lead to it. -/
theorem walk?_of_mem_places {node : Node ι} (hw : node.WellFormed) {value : Json}
    {place : Place ι} (h : place ∈ node.places value) :
    node.walk? place.steps value = some (place.node, place.value) := by
  refine mem_places_induction (motive := fun node value place => node.WellFormed →
    node.walk? place.steps value = some (place.node, place.value)) ?_ ?_ ?_ h hw
  · intro node value _
    rfl
  · intro node child elements position part place hk hi he below hw
    simp only [Place.below, walk?, if_pos hk, hi, he, Option.bind_some]
    exact below (hw.of_items hi)
  · intro node members property part place hk hp hf below hw
    have declared := (KeyedList.find?_eq_some_iff hw.nodup_keys).mpr hp
    simp only [Place.below, walk?, if_pos hk, declared, hf, Option.bind_some]
    exact below (hw.of_mem_properties hp)

/-- The steps of what is wrong at a place lead to a node that rejects the value there, or to
an object that lacks a required name. -/
theorem located_of_mem_places {node : Node ι} (hw : node.WellFormed) {value : Json}
    {place : Place ι} (hm : place ∈ node.places value) {violation : Violation}
    (h : place.violation? = some violation) :
    (∃ other part, node.walk? violation.steps value = some (other, part) ∧
      other.Rejects part violation.reason.message) ∨
    ∃ front name other members, violation.steps = front ++ [.name name] ∧
      node.walk? front value = some (other, .object members) ∧ other.kind = .object ∧
      name ∈ other.required ∧ isAbsent members name = true ∧
      violation.reason.message = "missing required field" := by
  have walk := walk?_of_mem_places hw hm
  obtain ⟨own, hb, rfl⟩ := Option.map_eq_some_iff.mp h
  rcases breach?_cases hb with ⟨here, rejects⟩ | ⟨members, name, hv, hk, hr, ha, rfl⟩
  · refine .inl ⟨place.node, place.value, ?_, rejects⟩
    rw [here, List.append_nil]
    exact walk
  · refine .inr ⟨place.steps, name, place.node, members, rfl, ?_, hk, hr, ha, rfl⟩
    rw [walk, hv]

end Node

variable [DecidableEq ι]

/-- The first violation in the order of traversal is what a check reports. -/
theorem Checker.violation_run_eq_findSome? {schema : Node ι} (hc : schema.Coherent)
    (checker : Checker ι) (value : Json) :
    (checker.run schema value).violation =
      (schema.places value).findSome? Place.violation? := by
  rw [Checker.run, Node.visit_eq_along]
  exact Place.along_eq_findSome? hc (fun _ hm => Node.within_of_mem_places hm)
    (Memory.Sound.empty schema)

/-- A check that passes reports nothing. One that fails reports what is wrong at the first
place, in the order of traversal, where anything is wrong. Its path spells the steps to a
node that rejects the value there, or to an object and on to a required name that the
object lacks. -/
theorem run_reports_first {schema : Node ι} (hc : schema.Coherent) (hw : schema.WellFormed)
    (checker : Checker ι) (value : Json) :
    ((checker.run schema value).passed = true → (checker.run schema value).violation = none) ∧
    ((checker.run schema value).passed = false → ∃ violation,
      (checker.run schema value).violation = some violation ∧
      (schema.places value).findSome? Place.violation? = some violation ∧
      violation.path = "/" ++ "/".intercalate (violation.steps.map Step.text) ∧
      ((∃ node part, schema.walk? violation.steps value = some (node, part) ∧
        node.Rejects part violation.reason.message) ∨
      ∃ front name node members, violation.steps = front ++ [.name name] ∧
        schema.walk? front value = some (node, .object members) ∧ node.kind = .object ∧
        name ∈ node.required ∧ isAbsent members name = true ∧
        violation.reason.message = "missing required field")) := by
  rw [Checker.passed, Checker.violation_run_eq_findSome? hc]
  cases h : (schema.places value).findSome? Place.violation? with
  | none => exact ⟨fun _ => rfl, fun failed => Bool.noConfusion failed⟩
  | some violation =>
    refine ⟨fun passed => Bool.noConfusion passed, fun _ => ⟨violation, rfl, rfl, rfl, ?_⟩⟩
    obtain ⟨place, hm, hv⟩ := List.exists_of_findSome?_eq_some h
    exact Node.located_of_mem_places hw hm hv

/-- A user must tell the age. -/
def user : Schema :=
  { label := (), kind := .object, properties := [("age", .bare .number)],
    required := .ofList ["age"] }

/-- A directory lists users. -/
def directory : Schema :=
  { label := (), kind := .object, properties := [("users", .arrayOf user)] }

/-- A directory with two users who are none. -/
def misfits : Json := .object [("users", .array [
  .object [("age", .number (.int 1))], .object [("age", .string "old")], .object []])]

theorem wellFormed_directory : directory.numbered.WellFormed := by
  have user : user.WellFormed := by
    rw [Node.wellFormed_iff]
    simp [SchemaGate.user, KeyedList.keys, Node.wellFormed_bare]
  rw [Node.wellFormed_numbered, Node.wellFormed_iff]
  simp [directory, KeyedList.keys, Node.wellFormed_arrayOf user]

theorem run_reports_first_directory :
    directory.numbered.Coherent ∧ directory.numbered.WellFormed ∧
    (Checker.run {} directory.numbered misfits).passed = false ∧
    ∃ violation, (Checker.run {} directory.numbered misfits).violation = some violation ∧
      violation.path = "/users/1/age" ∧
      violation.reason.message = "expected number, got string" ∧
      (directory.numbered.places misfits).findSome? Place.violation? = some violation := by
  have coherent := Node.coherent_numbered directory
  have failed : (Checker.run {} directory.numbered misfits).passed = false := by decide
  obtain ⟨violation, reported, first, -⟩ :=
    (run_reports_first coherent wellFormed_directory {} misfits).2 failed
  obtain rfl : ⟨[.name "users", .index 1, .name "age"], .wrongKind .number .string⟩ = violation :=
    Option.some.inj reported
  exact ⟨coherent, wellFormed_directory, failed, _, reported, by decide, by decide, first⟩

end SchemaGate
