import SchemaGate.Proofs.Schema.FirstViolation
import SchemaGate.Proofs.Tool.Listing
import SchemaGate.Tool.Session

/-!
# What reaches a backend

Whatever was asked of a gate before, a call reaches the backend exactly for a tool that is
listed under the name by then and whose input schema admits the arguments, unless arguments
are not checked. The backend is given that tool and these arguments, once, and what it answers
is pruned before it is handed back. Calls leave the registry as it is, so the history of a
session decides what is listed (`Guarded`).
-/

namespace SchemaGate

/-- What holds of the call of a name with arguments, whatever the backend, at a point that a
registry has reached by a history. -/
structure Guarded (policy : GatePolicy) (history : RegistryHistory) (name : String)
    (arguments : Json) (call : Backend → CallOutcome) : Prop where
  /-- The backend is given the listed tool and the arguments as they are, exactly if the input
  schema admits them or they are not checked. -/
  reached : ∀ backend tool sent, (call backend).carriedOut = some (tool, sent) ↔
    history.Lists name tool ∧ (policy.validateArguments = true →
      admits (some tool.input) arguments = true) ∧ sent = arguments
  /-- Nothing else is asked of the backend: another one that answers this alike will do. -/
  askedOnce : ∀ backend other, (∀ tool sent, (call backend).carriedOut = some (tool, sent) →
    other tool sent = backend tool sent) → call other = call backend
  /-- A name under which nothing is listed is refused. -/
  refused : (∀ tool, ¬ history.Lists name tool) → ∀ backend,
    call backend = ⟨.error (.refused (.notFound name)), none⟩
  /-- Arguments that are checked and not admitted are rejected for their first violation. -/
  rejected : ∀ tool, history.Lists name tool → policy.validateArguments = true →
    admits (some tool.input) arguments = false → ∃ violation,
      (Checker.run {} tool.input arguments).violation = some violation ∧
      (tool.input.Coherent →
        (tool.input.places arguments).findSome? Place.violation? = some violation) ∧
      ∀ backend, call backend = ⟨.error (.invalidArguments name violation), none⟩
  /-- A failure of the backend is passed on with the name. -/
  failed : ∀ backend tool sent cause, (call backend).carriedOut = some (tool, sent) →
    backend tool sent = .error cause → (call backend).result = .error (.failed name cause)
  /-- A response is pruned to the output schema where there is one and responses are pruned,
  and handed back as it is elsewhere. -/
  answered : ∀ backend tool sent response, (call backend).carriedOut = some (tool, sent) →
    backend tool sent = .ok response →
      (∀ schema, policy.filterResponses = true → tool.output = some schema →
        (call backend).result = .ok (prune (some schema) response)) ∧
      (policy.filterResponses = false ∨ tool.output = none →
        (call backend).result = .ok response)

namespace Gate

variable {gate : Gate} {history : RegistryHistory} {name : String} {arguments : Json}

/-- Behind a lock that works, a name is looked up as the history lists it. -/
theorem get_eq_ok_iff_lists (sane : gate.registry.poisoned = false)
    (led : gate.registry.registry = history.registry) {tool : Tool} :
    gate.registry.get name = .ok tool ↔ history.Lists name tool := by
  have looked : gate.registry.get name = history.registry.get name := by
    rw [LockedRegistry.get, LockedRegistry.inspect, sane, if_neg Bool.false_ne_true, led]
  rw [looked, Registry.get_eq_ok_iff, RegistryHistory.lists_iff]

/-- A name under which nothing is listed is not found. -/
theorem get_eq_error_of_not_lists (sane : gate.registry.poisoned = false)
    (led : gate.registry.registry = history.registry)
    (unlisted : ∀ tool, ¬ history.Lists name tool) :
    gate.registry.get name = .error (.notFound name) := by
  rw [LockedRegistry.get, LockedRegistry.inspect, sane, if_neg Bool.false_ne_true, led,
    Registry.get_eq_error_iff]
  exact ⟨fun tool held => unlisted tool (RegistryHistory.lists_iff.mpr held), rfl⟩

section Answer

variable {backend : Backend} {tool : Tool} {sent : Json}

/-- A call that reaches the backend fails where the backend does. -/
theorem result_of_failure {cause : BackendFailure}
    (given : (gate.call backend name arguments).carriedOut = some (tool, sent))
    (failure : backend tool sent = .error cause) :
    (gate.call backend name arguments).result = .error (.failed name cause) := by
  obtain ⟨found, clear, rfl⟩ := carriedOut_call_iff.mp given
  rw [call_of_clear found clear, failure]

/-- A call that reaches the backend hands back what it answers. -/
theorem result_of_response {response : Json}
    (given : (gate.call backend name arguments).carriedOut = some (tool, sent))
    (answer : backend tool sent = .ok response) :
    (gate.call backend name arguments).result = .ok (gate.handBack tool response) := by
  obtain ⟨found, clear, rfl⟩ := carriedOut_call_iff.mp given
  rw [call_of_clear found clear, answer]

/-- Nothing is pruned from a response if responses are not pruned or nothing describes them. -/
theorem handBack_eq_self (h : gate.policy.filterResponses = false ∨ tool.output = none)
    (response : Json) : gate.handBack tool response = response := by
  rw [handBack]
  rcases h with unpruned | undescribed
  · rw [unpruned, if_neg Bool.false_ne_true]
  · rw [undescribed]
    exact ite_self response

end Answer

/-- A gate whose registry came about by a history guards its calls. -/
theorem guarded_call (sane : gate.registry.poisoned = false)
    (led : gate.registry.registry = history.registry) (name : String) (arguments : Json) :
    Guarded gate.policy history name arguments fun backend =>
      gate.call backend name arguments where
  reached := by
    intro backend tool sent
    rw [carriedOut_call_iff, get_eq_ok_iff_lists sane led, objection?_eq_none_iff]
  askedOnce := fun backend other same => call_congr same
  refused := by
    intro unlisted backend
    exact call_of_refused (get_eq_error_of_not_lists sane led unlisted)
  rejected := by
    intro tool lists checked unfit
    have found := (get_eq_ok_iff_lists sane led).mpr lists
    obtain ⟨violation, reported, objection⟩ := objection?_of_not_admits checked unfit
    refine ⟨violation, reported, fun coherent => ?_, fun backend => ?_⟩
    · rw [← reported, Checker.violation_run_eq_findSome? coherent]
    · exact call_of_objection found objection
  failed := fun backend tool sent cause given failure => result_of_failure given failure
  answered := by
    intro backend tool sent response given answer
    have result := result_of_response given answer
    refine ⟨fun schema pruned described => ?_, fun whole => ?_⟩
    · rw [result, handBack, if_pos pruned, described]
    · rw [result, handBack_eq_self whole]

end Gate

/-- Calls in a session are guarded by what was asked before them. A session of any requests
leads from an empty registry to the registry of its changes, so calls leave it alone. At every
point of a session a call reaches the backend, once and with the tool and the arguments as they
are, exactly if the tool is listed under the name and its input schema admits the arguments or
they are not checked; what callers get is the refusal, the first violation, the failure or the
response, in this order. And whatever state a registry is in, its refusal ends a call. -/
theorem session_calls_guarded (policy : GatePolicy) :
    (∀ backend requests, (Gate.serveAll { policy } backend requests).2 =
      Gate.withRegistry { policy } (GateRequest.history requests).registry) ∧
    (∀ before name arguments later, ∃ call : Backend → CallOutcome,
      (∀ backend, (Gate.serveAll { policy } backend
        (before ++ .call name arguments :: later)).1[before.length]? =
          some (.called (call backend))) ∧
      Guarded policy (GateRequest.history before) name arguments call) ∧
    ∀ (gate : Gate) backend name arguments refusal, gate.registry.get name = .error refusal →
      gate.call backend name arguments = ⟨.error (.refused refusal), none⟩ := by
  have empty : (Gate.mk {} policy).registry.poisoned = false := rfl
  have led : ∀ backend requests, (Gate.serveAll { policy } backend requests).2 =
      Gate.withRegistry { policy } (GateRequest.history requests).registry :=
    fun backend requests => Gate.serveAll_gate empty requests
  refine ⟨led, fun before name arguments later => ?_, fun gate backend name arguments refusal h =>
    Gate.call_of_refused h⟩
  -- The call is answered by the gate that the requests before it lead to, so neither the calls
  -- among them nor the requests after it have a say.
  let gate := Gate.withRegistry { policy } (GateRequest.history before).registry
  have guarded : Guarded gate.policy (GateRequest.history before) name arguments fun backend =>
      gate.call backend name arguments := Gate.guarded_call rfl rfl name arguments
  refine ⟨_, fun backend => ?_, guarded⟩
  rw [Gate.serveAll_answer, led]
  rfl

/-- A tool that tells the weather of a city. -/
def forecast : Tool where
  name := "forecast"
  input := Node.numbered (ι := Unit)
    { label := (), kind := .object, properties := [("city", .bare .string)],
      required := .ofList ["city"] }
  output := some (Node.numbered (ι := Unit)
    { label := (), kind := .object, properties := [("degrees", .bare .number)] })

/-- A backend that tells more than was asked. -/
def station : Backend := fun _ _ =>
  .ok (.object [("degrees", .number (.int 7)), ("station", .string "north")])

/-- The tool is registered, called without a city, hidden, called in vain and shown again. -/
def morning : List GateRequest := [
  .change (.register forecast), .call "forecast" (.object []), .list,
  .change (.disable "forecast"), .call "forecast" (.object [("city", .string "Oslo")]),
  .change (.enable "forecast")]

theorem session_calls_guarded_morning :
    (Gate.serveAll {} station morning).2 =
      Gate.withRegistry {} (GateRequest.history morning).registry ∧
    (∃ violation, (Gate.serveAll {} station morning).1[1]? =
        some (.called ⟨.error (.invalidArguments "forecast" violation), none⟩) ∧
      violation.path = "/city" ∧ violation.reason.message = "missing required field") ∧
    (Gate.serveAll {} station morning).1[4]? =
      some (.called ⟨.error (.refused (.notFound "forecast")), none⟩) ∧
    ∃ outcome, (Gate.serveAll {} station
        (morning ++ [.call "forecast" (.object [("city", .string "Oslo")])])).1[6]? =
          some (.called outcome) ∧
      outcome.carriedOut = some (forecast, .object [("city", .string "Oslo")]) ∧
      outcome.result = .ok (.object [("degrees", .number (.int 7))]) := by
  obtain ⟨led, guarded, -⟩ := session_calls_guarded {}
  refine ⟨led station morning, ?_, ?_, ?_⟩
  · obtain ⟨call, answer, guard⟩ := guarded (morning.take 1) "forecast" (.object [])
      (morning.drop 2)
    have lists : (GateRequest.history (morning.take 1)).Lists "forecast" forecast :=
      RegistryHistory.lists_iff.mpr rfl
    have unfit : admits (some forecast.input) (.object []) = false := by decide
    obtain ⟨violation, reported, -, rejected⟩ := guard.rejected forecast lists rfl unfit
    obtain rfl : ⟨[.name "city"], .missingRequired⟩ = violation := Option.some.inj reported
    have answered := answer station
    rw [rejected station] at answered
    exact ⟨_, answered, by decide, by decide⟩
  · obtain ⟨call, answer, guard⟩ := guarded (morning.take 4) "forecast"
      (.object [("city", .string "Oslo")]) (morning.drop 5)
    have hidden : ∀ tool,
        ¬ (GateRequest.history (morning.take 4)).Lists "forecast" tool := by
      intro tool listed
      cases RegistryHistory.lists_iff.mp listed
    have answered := answer station
    rw [guard.refused hidden station] at answered
    exact answered
  · obtain ⟨call, answer, guard⟩ := guarded morning "forecast"
      (.object [("city", .string "Oslo")]) []
    have lists : (GateRequest.history morning).Lists "forecast" forecast :=
      RegistryHistory.lists_iff.mpr rfl
    have given := (guard.reached station forecast _).mpr ⟨lists, fun _ => by decide, rfl⟩
    have answered := (guard.answered station forecast _ _ given rfl).1 _ rfl rfl
    exact ⟨call station, answer station, given, answered.trans (by decide)⟩

end SchemaGate
