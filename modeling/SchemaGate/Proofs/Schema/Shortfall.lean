import SchemaGate.Proofs.Schema.Agreement
import SchemaGate.Proofs.Schema.FirstViolation

/-!
# What pruned values may lack

What a schema keeps of a value conforms to the schema, so wherever the two meet the value has
the kind of the node and is not null. A check of it therefore asks nothing and can only miss a
required name under which nothing was kept.
-/

namespace SchemaGate

variable {ι : Type}

namespace Node

theorem Conforms.ne_null {node : Node ι} {value : Json} (h : node.Conforms value) :
    value ≠ .null := by
  rintro rfl
  exact node.not_conforms_null h

/-- A conforming value conforms at every place where it meets the schema. -/
theorem Conforms.of_mem_places {node : Node ι} (hw : node.WellFormed) {value : Json}
    (h : node.Conforms value) {place : Place ι} (hm : place ∈ node.places value) :
    place.node.Conforms place.value := by
  -- By induction on the way to the place: conformance passes on to the child at each step.
  refine mem_places_induction (motive := fun node value place => node.WellFormed →
    node.Conforms value → place.node.Conforms place.value) ?_ ?_ ?_ hm hw h
  · intro node value _ conforms
    exact conforms
  · intro node child elements position part place _ hi he below hw conforms
    have inside : part ∈ elements := List.mem_of_getElem? he
    have parts := (conforms_array_iff.mp conforms).2 child hi
    exact below (hw.of_items hi) (parts part inside)
  · intro node members property part place _ hp hf below hw conforms
    obtain ⟨child, declared, fits⟩ := (conforms_object_iff.mp conforms).2 _ part hf
    have own := (KeyedList.find?_eq_some_iff hw.nodup_keys).mpr hp
    obtain rfl : property.2 = child := Option.some.inj (own.symm.trans declared)
    exact below (hw.of_mem_properties hp) fits

/-- A node does not reject what conforms to it. -/
theorem Conforms.not_rejects {node : Node ι} {value : Json} (h : node.Conforms value)
    {words : String} : ¬ node.Rejects value words := by
  intro rejects
  cases rejects with
  | kind _ other => exact other h.kind_eq
  | nullScalar => exact h.ne_null rfl
  | nullObject => exact h.ne_null rfl

/-- Among conforming members a name counts as absent only if there is no member of it. -/
theorem Conforms.find?_eq_none_of_isAbsent {node : Node ι} {members : List (String × Json)}
    (h : node.Conforms (.object members)) {name : String} (ha : isAbsent members name = true) :
    KeyedList.find? name members = none := by
  cases hf : KeyedList.find? name members with
  | none => rfl
  | some field =>
    obtain ⟨child, -, fits⟩ := (conforms_object_iff.mp h).2 name field hf
    have present : isAbsent members name = false :=
      isAbsent_eq_false_iff.mpr ⟨field, hf, fits.ne_null⟩
    rw [present] at ha
    cases ha

/-- All that can be wrong between a node and a conforming value is that nothing stands under a
required name. -/
theorem Conforms.lacks_of_breach? {node : Node ι} {value : Json} (h : node.Conforms value)
    {violation : Violation} (hb : node.breach? value = some violation) :
    ∃ members name, value = .object members ∧ node.kind = .object ∧ name ∈ node.required ∧
      KeyedList.find? name members = none ∧ violation = ⟨[.name name], .missingRequired⟩ := by
  rcases breach?_cases hb with ⟨-, rejects⟩ | ⟨members, name, rfl, hk, hr, ha, he⟩
  · exact absurd rejects h.not_rejects
  · exact ⟨members, name, rfl, hk, hr, h.find?_eq_none_of_isAbsent ha, he⟩

/-- What pruning leaves conforms, unless it leaves null. -/
theorem conforms_prune (hw : node.WellFormed) {value : Json}
    (h : prune (some node) value ≠ .null) : node.Conforms (prune (some node) value) := by
  cases hk : node.prune? value with
  | none => exact absurd ((prune_eq_null_iff hw).mpr hk) h
  | some kept =>
    rw [prune, hk, Option.getD_some]
    exact conforms_of_prune? hw hk

end Node

namespace Place

variable [DecidableEq ι]

/-- A walk along places without questions reports what is wrong at the first one where
anything is, and remembers nothing. -/
theorem along_of_no_question {places : List (Place ι)}
    (h : ∀ place ∈ places, ¬ place.isQuestion = true) (memory : Memory ι) :
    along places memory = (places.findSome? violation?, memory) := by
  induction places with
  | nil => rfl
  | cons place rest ih =>
    rw [List.forall_mem_cons] at h
    have seen : place.look memory = (place.violation?, memory) := if_neg h.1
    rw [along, seen, List.findSome?_cons]
    cases place.violation? with
    | some violation => rfl
    | none => exact ih h.2

end Place

namespace Node

variable [DecidableEq ι] {node : Node ι}

/-- A check of a conforming value reports what is wrong at the first place where anything is,
whatever labels the nodes have. -/
theorem Conforms.violation_run (hw : node.WellFormed) {value : Json} (h : node.Conforms value)
    (checker : Checker ι) : (checker.run node value).violation =
      (node.places value).findSome? Place.violation? := by
  have quiet : ∀ place ∈ node.places value, ¬ place.isQuestion = true := by
    intro place hm asked
    exact (h.of_mem_places hw hm).ne_null (Place.isQuestion_iff.mp asked).2
  rw [Checker.run, visit_eq_along, Place.along_of_no_question quiet]

/-- If a check of a conforming value fails, its steps lead to an object and on to a required
name under which nothing stands. -/
theorem Conforms.lacks_of_violation (hw : node.WellFormed) {value : Json}
    (h : node.Conforms value) {checker : Checker ι} {violation : Violation}
    (hv : (checker.run node value).violation = some violation) :
    violation.reason = .missingRequired ∧ ∃ front name other members,
      violation.steps = front ++ [.name name] ∧
      node.walk? front value = some (other, .object members) ∧ other.kind = .object ∧
      name ∈ other.required ∧ KeyedList.find? name members = none := by
  rw [h.violation_run hw] at hv
  obtain ⟨place, hm, found⟩ := List.exists_of_findSome?_eq_some hv
  obtain ⟨own, hb, rfl⟩ := Option.map_eq_some_iff.mp found
  obtain ⟨members, name, object, hk, hr, nothing, rfl⟩ :=
    (h.of_mem_places hw hm).lacks_of_breach? hb
  have walk := walk?_of_mem_places hw hm
  rw [object] at walk
  exact ⟨rfl, place.steps, name, place.node, members, rfl, walk, hk, hr, nothing⟩

end Node

variable [DecidableEq ι]

/-- Wherever a pruned value meets its schema it is not null and of the kind that the schema
says. If a check of it fails all the same, a required field is missing: the steps of the
violation lead to an object of the pruned value and on to a required name under which nothing
was kept. -/
theorem pruned_misses_only_required {schema : Node ι} (hw : schema.WellFormed) (value : Json)
    (kept : prune (some schema) value ≠ .null) (checker : Checker ι) :
    (∀ place ∈ schema.places (prune (some schema) value),
      place.value ≠ .null ∧ place.value.kind = place.node.kind.values) ∧
    ((checker.run schema (prune (some schema) value)).passed = false → ∃ violation,
      (checker.run schema (prune (some schema) value)).violation = some violation ∧
      violation.reason.message = "missing required field" ∧
      ∃ front name node members, violation.steps = front ++ [.name name] ∧
        schema.walk? front (prune (some schema) value) = some (node, .object members) ∧
        node.kind = .object ∧ name ∈ node.required ∧ KeyedList.find? name members = none) := by
  have conforms := Node.conforms_prune hw kept
  refine ⟨fun place hm => ?_, fun failed => ?_⟩
  · have here := conforms.of_mem_places hw hm
    exact ⟨here.ne_null, here.kind_eq⟩
  · obtain ⟨violation, hv⟩ := Option.isSome_iff_exists.mp (Option.isNone_eq_false_iff.mp failed)
    obtain ⟨reason, lacks⟩ := conforms.lacks_of_violation hw hv
    exact ⟨violation, hv, by rw [reason]; rfl, lacks⟩

/-- A guest has a name and must have a seat, about which nothing is declared. -/
def guest : Schema :=
  { label := (), kind := .object, properties := [("name", .bare .string)],
    required := .ofList ["seat"] }

/-- A table has guests, and notes about which nothing is declared. -/
def table : Schema :=
  { label := (), kind := .object,
    properties := [("guests", .arrayOf guest), ("notes", .bare .array)] }

/-- A table with a guest that has a seat, and with nulls. -/
def dinner : Json := .object [
  ("guests", .array [.null, .object [("name", .null), ("seat", .number (.int 4))]]),
  ("notes", .array [.null])]

theorem wellFormed_table : table.numbered.WellFormed := by
  have guest : guest.WellFormed := by
    rw [Node.wellFormed_iff]
    simp [SchemaGate.guest, KeyedList.keys, Node.wellFormed_bare]
  rw [Node.wellFormed_numbered, Node.wellFormed_iff]
  simp [table, KeyedList.keys, Node.wellFormed_arrayOf guest, Node.wellFormed_bare]

theorem pruned_misses_only_required_table :
    table.numbered.WellFormed ∧ prune (some table.numbered) dinner ≠ .null ∧
    prune (some table.numbered) dinner =
      .object [("guests", .array [.object []]), ("notes", .array [.null])] ∧
    ∃ violation, (Checker.run {} table.numbered (prune (some table.numbered) dinner)).violation =
        some violation ∧
      violation.path = "/guests/0/seat" ∧
      violation.reason.message = "missing required field" := by
  have pruned : prune (some table.numbered) dinner =
      .object [("guests", .array [.object []]), ("notes", .array [.null])] := by decide
  have kept : prune (some table.numbered) dinner ≠ .null := by simp [pruned]
  have failed : (Checker.run {} table.numbered
      (prune (some table.numbered) dinner)).passed = false := by decide
  obtain ⟨violation, reported, reason, -⟩ :=
    (pruned_misses_only_required wellFormed_table dinner kept {}).2 failed
  have steps : ⟨[.name "guests", .index 0, .name "seat"], .missingRequired⟩ = violation :=
    Option.some.inj (Eq.trans (by decide) reported)
  exact ⟨wellFormed_table, kept, pruned, violation, reported, by rw [← steps]; decide, reason⟩

end SchemaGate
