import SchemaGate.Proofs.Catalog.Assembly
import SchemaGate.Proofs.Catalog.Sides
import SchemaGate.Proofs.Schema.Agreement
import SchemaGate.Proofs.Schema.Closure
import SchemaGate.Proofs.Tool.Calls

/-!
# What callers are told of responses

The tool of an interface has an output schema if that schema has properties, which are the
output parameters that callers see. Where there are any, callers are told of these alone
(`tellsOnly_handBack`). An interface whose output parameters are all supplied declares some as
well, yet its tool ends up like one of an interface without output parameters: whatever the
backend answers is handed back as it is. So a tool is kept to the declared output parameters
exactly if callers see one of them.
-/

namespace SchemaGate

/-- A value tells of some names only: it is null, or an object with no other keys. -/
def Json.TellsOnly (names : List String) (value : Json) : Prop :=
  value = .null ∨ ∃ members, value = .object members ∧
    ∀ key ∈ KeyedList.keys members, key ∈ names

/-- The names of the parameters of a side, supplied ones included. -/
def Side.declared (side : Side) (params : List Parameter) : List String :=
  (params.filter fun param => param.side == side).map Parameter.name

/-- The names of the parameters of a side that callers see. -/
def Side.seen (side : Side) (params : List Parameter) : List String :=
  (side.visible params).map Parameter.name

/-- A tool is kept to some names: wherever responses are pruned, the answer to a call of it
tells of these names only. -/
def Tool.KeptTo (tool : Tool) (names : List String) : Prop :=
  ∀ (gate : Gate) (backend : Backend) called arguments answer,
    gate.policy.filterResponses = true → gate.registry.get called = .ok tool →
    (gate.call backend called arguments).result = .ok answer → answer.TellsOnly names

theorem Json.TellsOnly.mono {names more : List String} {value : Json}
    (h : value.TellsOnly names) (hm : ∀ name ∈ names, name ∈ more) : value.TellsOnly more := by
  rcases h with null | ⟨members, object, keys⟩
  · exact .inl null
  · exact .inr ⟨members, object, fun key hk => hm key (keys key hk)⟩

theorem Tool.KeptTo.mono {tool : Tool} {names more : List String} (h : tool.KeptTo names)
    (hm : ∀ name ∈ names, name ∈ more) : tool.KeptTo more :=
  fun gate backend called arguments answer pruned found result =>
    (h gate backend called arguments answer pruned found result).mono hm

/-- What callers see of a side is declared. -/
theorem Side.mem_declared_of_mem_seen {side : Side} {params : List Parameter} {name : String}
    (h : name ∈ side.seen params) : name ∈ side.declared params := by
  obtain ⟨param, hp, rfl⟩ := List.mem_map.mp h
  obtain ⟨given, own, -⟩ := Side.mem_visible_iff.mp hp
  exact List.mem_map_of_mem (List.mem_filter.mpr ⟨given, beq_iff_eq.mpr own⟩)

/-- Callers see something of a side if one of its parameters is not supplied. -/
theorem Side.seen_ne_nil_iff {side : Side} {params : List Parameter} : side.seen params ≠ [] ↔
    ∃ param ∈ params, param.side = side ∧ param.isSupplied = false := by
  rw [Side.seen, ne_eq, List.map_eq_nil_iff]
  simp only [← Side.mem_visible_iff]
  exact ⟨List.exists_mem_of_ne_nil _, fun ⟨_, hm⟩ => List.ne_nil_of_mem hm⟩

namespace Node

variable {ι : Type}

theorem kind_numbered (node : Node ι) : node.numbered.kind = node.kind := by
  cases node
  rfl

theorem keys_properties_numbered (node : Node ι) :
    KeyedList.keys node.numbered.properties = KeyedList.keys node.properties := by
  rw [← keys_properties_relabel fun _ => (), ← keys_properties_relabel (fun _ => ()) node]
  exact congrArg (fun node : Schema => KeyedList.keys node.properties)
    (unlabelled_numberFrom 0 node)

/-- What an object schema keeps tells of its properties only. -/
theorem tellsOnly_prune {node : Node ι} (hk : node.kind = .object) (value : Json) :
    (prune (some node) value).TellsOnly (KeyedList.keys node.properties) := by
  rw [prune]
  cases hp : node.prune? value with
  | none => exact .inl rfl
  | some kept =>
    have object : value.kind = .object := by
      rw [kind_eq_of_prune? hp, hk]
      rfl
    obtain ⟨members, rfl⟩ := Json.kind_eq_object_iff.mp object
    obtain rfl := Option.some.inj (hp.symm.trans (prune?_object hk members))
    refine .inr ⟨_, rfl, fun key hm => ?_⟩
    obtain ⟨field, hf, rfl⟩ := List.mem_map.mp hm
    have kept := List.mem_map_of_mem (f := Prod.fst) (KeyedList.mem_of_mem_sorted hf)
    exact (keys_pruneMembers_sublist node.properties members).subset kept

end Node

namespace Catalog

variable {catalog : Catalog} {params : List Parameter} {side : Side} {schema : Schema}

/-- The schema of a side describes an object. -/
theorem kind_of_sideSchema (h : catalog.sideSchema params side = .ok schema) :
    schema.kind = .object := Component.kind_of_addAll h

/-- The properties of a side are what callers see of it. -/
theorem mem_keys_of_sideSchema (h : catalog.sideSchema params side = .ok schema) {name : String} :
    name ∈ KeyedList.keys schema.properties ↔ name ∈ side.seen params := by
  have bare : name ∉ KeyedList.keys (Node.bare NodeKind.object).properties := List.not_mem_nil
  rw [Component.mem_keys_properties_of_addAll h, or_iff_right bare, ← List.mem_map, List.map_map]
  rfl

/-- A side has no properties exactly if callers see nothing of it. -/
theorem properties_isEmpty_of_sideSchema (h : catalog.sideSchema params side = .ok schema) :
    schema.properties.isEmpty = true ↔ side.seen params = [] := by
  have same : ∀ name, name ∈ KeyedList.keys schema.properties ↔ name ∈ side.seen params :=
    fun name => mem_keys_of_sideSchema h
  rw [List.isEmpty_iff, ← List.map_eq_nil_iff (f := Prod.fst), List.eq_nil_iff_forall_not_mem,
    List.eq_nil_iff_forall_not_mem]
  exact forall_congr' fun name => not_congr (same name)

end Catalog

namespace Gate

/-- A gate in front of one tool. -/
def inFrontOf (policy : GatePolicy) (tool : Tool) : Gate :=
  Gate.withRegistry { policy } (RegistryHistory.registry [.register tool])

theorem get_inFrontOf (policy : GatePolicy) (tool : Tool) :
    (inFrontOf policy tool).registry.get tool.name = .ok tool := by
  have held : ((RegistryHistory.registry []).after (.register tool)).registration? tool.name =
      some ⟨tool, true⟩ := by
    rw [Registry.registration?_after, RegistryChange.name, if_pos rfl]
    rfl
  exact Registry.get_eq_ok_iff.mpr held

variable {gate : Gate} {backend : Backend} {name : String} {arguments : Json} {tool : Tool}

/-- An answer is a response of the backend, handed back. -/
theorem exists_response_of_result {answer : Json} (found : gate.registry.get name = .ok tool)
    (h : (gate.call backend name arguments).result = .ok answer) :
    ∃ response, gate.handBack tool response = answer := by
  cases ho : gate.objection? tool arguments with
  | some violation =>
    rw [call_of_objection found ho] at h
    cases h
  | none =>
    rw [call_of_clear found ho] at h
    cases hb : backend tool arguments with
    | error cause =>
      rw [hb] at h
      cases h
    | ok response =>
      rw [hb] at h
      exact ⟨response, Except.ok.inj h⟩

end Gate

namespace Tool

variable {catalog : Catalog} {name description : String} {params : List Parameter} {tool : Tool}

/-- The tool of an interface has an output schema exactly if callers see an output parameter,
and then the properties of the schema are what they see. -/
theorem output_cases (made : ofParameters catalog name description params = .ok tool) :
    (Side.output.seen params = [] ∧ tool.output = none) ∨
    (Side.output.seen params ≠ [] ∧ ∃ schema, tool.output = some schema ∧
      schema.kind = .object ∧
      ∀ key, key ∈ KeyedList.keys schema.properties ↔ key ∈ Side.output.seen params) := by
  rw [ofParameters] at made
  cases hs : catalog.callSchemas params with
  | error error =>
    rw [hs] at made
    cases made
  | ok schemas =>
    rw [hs] at made
    obtain rfl := Except.ok.inj made
    have output := (Catalog.callSchemas_eq_ok_iff.mp hs).2
    by_cases empty : schemas.output.properties.isEmpty = true
    · refine .inl ⟨(Catalog.properties_isEmpty_of_sideSchema output).mp empty, ?_⟩
      exact if_pos empty
    · refine .inr ⟨fun unseen => ?_, schemas.output.numbered, if_neg empty, ?_, fun key => ?_⟩
      · exact empty ((Catalog.properties_isEmpty_of_sideSchema output).mpr unseen)
      -- Numbering keeps the kind and the names of properties, so those of the side count.
      · rw [Node.kind_numbered, Catalog.kind_of_sideSchema output]
      · rw [Node.keys_properties_numbered, Catalog.mem_keys_of_sideSchema output]

/-- Where callers see an output parameter, they are told of nothing else. -/
theorem keptTo_seen (made : ofParameters catalog name description params = .ok tool)
    (seen : Side.output.seen params ≠ []) : tool.KeptTo (Side.output.seen params) := by
  rcases output_cases made with ⟨unseen, -⟩ | ⟨-, schema, described, object, keys⟩
  · exact absurd unseen seen
  · intro gate backend called arguments answer pruned found result
    obtain ⟨response, rfl⟩ := Gate.exists_response_of_result found result
    rw [Gate.handBack, if_pos pruned, described]
    exact (Node.tellsOnly_prune object response).mono fun key => (keys key).mp

/-- A tool without output schema is kept to no names at all. -/
theorem not_keptTo_of_output_eq_none (undescribed : tool.output = none) (names : List String) :
    ¬ tool.KeptTo names := by
  intro kept
  -- The gate must not object to the arguments, whatever the input schema of the tool is.
  let gate := Gate.inFrontOf { validateArguments := false } tool
  let backend : Backend := fun _ _ => .ok (.bool true)
  have found : gate.registry.get tool.name = .ok tool := Gate.get_inFrontOf _ tool
  have clear : gate.objection? tool .null = none := Gate.objection?_eq_none_iff.mpr nofun
  have given : (gate.call backend tool.name .null).carriedOut = some (tool, .null) :=
    Gate.carriedOut_call_iff.mpr ⟨found, clear, rfl⟩
  have result := Gate.result_of_response given rfl
  rw [Gate.handBack_eq_self (.inr undescribed)] at result
  rcases kept gate backend tool.name .null (.bool true) rfl found result with
    null | ⟨members, object, -⟩
  · cases null
  · cases object

end Tool

/-- The tool of an interface is kept to the declared output parameters exactly if callers see
one of them. Then they are told of nothing but the parameters that they see; elsewhere every
response is handed back as it is, even if output parameters are declared. -/
theorem kept_to_declared_iff_one_seen {catalog : Catalog} {name description : String}
    {params : List Parameter} {tool : Tool}
    (made : Tool.ofParameters catalog name description params = .ok tool) :
    (tool.KeptTo (Side.output.declared params) ↔
      ∃ param ∈ params, param.side = .output ∧ param.isSupplied = false) ∧
    ((∃ param ∈ params, param.side = .output ∧ param.isSupplied = false) →
      tool.KeptTo (Side.output.seen params)) ∧
    ((∀ param ∈ params, param.side = .output → param.isSupplied = true) →
      ∀ (gate : Gate) (backend : Backend) called arguments sent response,
        (gate.call backend called arguments).carriedOut = some (tool, sent) →
        backend tool sent = .ok response →
        (gate.call backend called arguments).result = .ok response) := by
  have seen_iff : Side.output.seen params ≠ [] ↔
      ∃ param ∈ params, param.side = .output ∧ param.isSupplied = false := Side.seen_ne_nil_iff
  have undescribed (unseen : Side.output.seen params = []) : tool.output = none := by
    rcases Tool.output_cases made with ⟨-, none⟩ | ⟨seen, -⟩
    · exact none
    · exact absurd unseen seen
  refine ⟨⟨fun kept => ?_, fun one => ?_⟩, fun one => ?_, fun all => ?_⟩
  · refine seen_iff.mp fun unseen => ?_
    exact Tool.not_keptTo_of_output_eq_none (undescribed unseen) _ kept
  · exact (Tool.keptTo_seen made (seen_iff.mpr one)).mono fun _ => Side.mem_declared_of_mem_seen
  · exact Tool.keptTo_seen made (seen_iff.mpr one)
  · intro gate backend called arguments sent response given answer
    have unseen : Side.output.seen params = [] := by
      by_contra seen
      obtain ⟨param, given, own, left⟩ := seen_iff.mp seen
      rw [all param given own] at left
      cases left
    rw [Gate.result_of_response given answer, Gate.handBack_eq_self (.inr (undescribed unseen))]

/-- A reading of a thermometer, in a unit that is supplied. -/
def readingParams : List Parameter := [
  { id := ⟨1⟩, interface := ⟨3⟩, app := ⟨7⟩, name := "room", kind := .string, required := true,
    side := .input },
  { id := ⟨2⟩, interface := ⟨3⟩, app := ⟨7⟩, name := "degrees", kind := .number,
    side := .output },
  { id := ⟨4⟩, interface := ⟨3⟩, app := ⟨7⟩, name := "unit", kind := .string, side := .output,
    defaultValue := some "celsius" }]

/-- The tool of such a reading. -/
def reading : Tool where
  name := "reading"
  input := Node.numbered (ι := Unit)
    { label := (), kind := .object, properties := [("room", .bare .string)],
      required := .ofList ["room"] }
  output := some (Node.numbered (ι := Unit)
    { label := (), kind := .object, properties := [("degrees", .bare .number)] })

theorem kept_to_declared_iff_one_seen_reading :
    Tool.ofParameters {} "reading" "" readingParams = .ok reading ∧
    Side.output.declared readingParams = ["degrees", "unit"] ∧
    reading.KeptTo (Side.output.declared readingParams) ∧ reading.KeptTo ["degrees"] := by
  have made : Tool.ofParameters {} "reading" "" readingParams = .ok reading := by rfl
  have one : ∃ param ∈ readingParams, param.side = .output ∧ param.isSupplied = false := by
    decide
  obtain ⟨declared, seen, -⟩ := kept_to_declared_iff_one_seen made
  exact ⟨made, rfl, declared.mpr one, seen one⟩

/-- The response of a login is a token, which is supplied. -/
def loginParams : List Parameter := [
  { id := ⟨1⟩, interface := ⟨3⟩, app := ⟨7⟩, name := "token", kind := .string, side := .output,
    defaultValue := some "none" }]

/-- The tool of a login. -/
def login : Tool where
  name := "login"
  input := Node.numbered (ι := Unit) (.bare .object)

/-- A backend that tells a secret. -/
def gossip : Backend := fun _ _ => .ok (.object [("secret", .number (.int 1))])

/-- A login declares an output parameter and its responses are pruned, yet callers are told
what it does not declare. -/
theorem secret_told_by_login :
    Tool.ofParameters {} "login" "" loginParams = .ok login ∧
    Side.output.declared loginParams = ["token"] ∧
    ((Gate.inFrontOf {} login).call gossip "login" (.object [])).result =
      .ok (.object [("secret", .number (.int 1))]) ∧
    ¬ login.KeptTo (Side.output.declared loginParams) := by
  have told : ((Gate.inFrontOf {} login).call gossip "login" (.object [])).result =
      .ok (.object [("secret", .number (.int 1))]) := by rfl
  refine ⟨by rfl, rfl, told, fun kept => ?_⟩
  have found := Gate.get_inFrontOf {} login
  rcases kept _ gossip "login" (.object []) _ rfl found told with null | ⟨members, object, keys⟩
  · cases null
  · obtain rfl := Json.object.inj object
    exact absurd (keys "secret" (by decide)) (by decide)

end SchemaGate
