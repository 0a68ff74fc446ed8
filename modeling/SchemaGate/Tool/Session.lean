import SchemaGate.Tool.Gate
import SchemaGate.Tool.History

/-!
# Sessions of a gate

In a session a gate serves one request after the other: changes and look-ups go to its
registry, calls may reach its backend. What the session asked of the registry is the
history of its changes, calls and look-ups left out.

A call takes one of three ways (`call_of_refused`, `call_of_objection`, `call_of_clear`):
the registry refuses the name, the arguments meet an objection, or the backend is given
the tool and the arguments. Serving a session leads to the registry of its history
(`serveAll_gate`), and the answer to a request is given by the gate that the requests
before it led to (`serveAll_answer`).
-/

namespace SchemaGate

/-- What is asked of a gate. -/
inductive GateRequest where
  /-- Change the registry. -/
  | change (change : RegistryChange)
  /-- Look up a tool. -/
  | get (name : String)
  /-- List the tools that can be seen. -/
  | list
  /-- Call a tool. -/
  | call (name : String) (arguments : Json)

/-- What a gate answers. -/
inductive GateAnswer where
  /-- A change was made, or refused. -/
  | changed (refusal? : Option RegistryRefusal)
  /-- What a look-up found. -/
  | found (result : Except RegistryRefusal Tool)
  /-- The names of the tools that can be seen. -/
  | listed (result : Except RegistryRefusal (List String))
  /-- What a call led to. -/
  | called (outcome : CallOutcome)

/-- The change that a request asks for. -/
def GateRequest.change? : GateRequest → Option RegistryChange
  | .change asked => some asked
  | _ => none

/-- The history of the registry in a session. -/
def GateRequest.history (requests : List GateRequest) : RegistryHistory :=
  requests.filterMap GateRequest.change?

namespace Gate

/-- Serve a request: the answer, and the gate after it. -/
def serve (gate : Gate) (backend : Backend) : GateRequest → GateAnswer × Gate
  | .change change =>
    match gate.registry.change change with
    | .ok registry => (.changed none, { gate with registry })
    | .error refusal => (.changed (some refusal), gate)
  | .get name => (.found (gate.registry.get name), gate)
  | .list => (.listed gate.registry.list, gate)
  | .call name arguments => (.called (gate.call backend name arguments), gate)

/-- Serve requests one after the other: the answers in order, and the gate in the end. -/
def serveAll (gate : Gate) (backend : Backend) : List GateRequest → List GateAnswer × Gate
  | [] => ([], gate)
  | request :: rest =>
    let first := gate.serve backend request
    let others := first.2.serveAll backend rest
    (first.1 :: others.1, others.2)

section Call

variable {gate : Gate} {backend : Backend} {name : String} {arguments : Json} {tool : Tool}

/-- Arguments meet no objection if they are not checked or the input schema admits them. -/
theorem objection?_eq_none_iff : gate.objection? tool arguments = none ↔
    (gate.policy.validateArguments = true → admits (some tool.input) arguments = true) := by
  unfold objection?
  split
  · next checked =>
    have passed : admits (some tool.input) arguments = true ↔
        (Checker.run {} tool.input arguments).violation = none := Option.isNone_iff_eq_none
    rw [passed]
    exact ⟨fun clear _ => clear, fun clear => clear checked⟩
  · next unchecked => exact iff_of_true rfl fun checked => absurd checked unchecked

/-- Arguments that are checked and not admitted meet the violation that the check reports. -/
theorem objection?_of_not_admits (checked : gate.policy.validateArguments = true)
    (h : admits (some tool.input) arguments = false) :
    ∃ violation, (Checker.run {} tool.input arguments).violation = some violation ∧
      gate.objection? tool arguments = some violation := by
  have found : (Checker.run {} tool.input arguments).violation.isSome = true := by
    rw [← Option.not_isNone, Bool.not_eq_true']
    exact h
  obtain ⟨violation, hv⟩ := Option.isSome_iff_exists.mp found
  refine ⟨violation, hv, ?_⟩
  rw [objection?, if_pos checked, hv]

/-- A call of a name that the registry refuses ends there. -/
theorem call_of_refused {refusal : RegistryRefusal} (h : gate.registry.get name = .error refusal) :
    gate.call backend name arguments = ⟨.error (.refused refusal), none⟩ := by
  rw [call, h]

/-- A call whose arguments meet an objection ends there. -/
theorem call_of_objection {violation : Violation} (h : gate.registry.get name = .ok tool)
    (ho : gate.objection? tool arguments = some violation) :
    gate.call backend name arguments = ⟨.error (.invalidArguments name violation), none⟩ := by
  simp only [call, h, ho]

/-- Any other call reaches the backend. -/
theorem call_of_clear (h : gate.registry.get name = .ok tool)
    (ho : gate.objection? tool arguments = none) :
    gate.call backend name arguments =
      ⟨match backend tool arguments with
        | .error cause => .error (.failed name cause)
        | .ok response => .ok (gate.handBack tool response), some (tool, arguments)⟩ := by
  cases hb : backend tool arguments with
  | error cause => simp only [call, h, ho, hb]
  | ok response => simp only [call, h, ho, hb]

/-- What the backend is given is the tool under the name, with arguments to which there is no
objection, as they are. -/
theorem carriedOut_call_iff {sent : Json} :
    (gate.call backend name arguments).carriedOut = some (tool, sent) ↔
      gate.registry.get name = .ok tool ∧ gate.objection? tool arguments = none ∧
        sent = arguments := by
  cases hg : gate.registry.get name with
  | error refusal =>
    rw [call_of_refused hg]
    exact iff_of_false nofun fun h => nomatch h.1
  | ok held =>
    cases ho : gate.objection? held arguments with
    | some violation =>
      rw [call_of_objection hg ho]
      refine iff_of_false nofun ?_
      rintro ⟨same, clear, -⟩
      obtain rfl := Except.ok.inj same
      rw [ho] at clear
      cases clear
    | none =>
      rw [call_of_clear hg ho]
      constructor
      · intro h
        obtain ⟨rfl, rfl⟩ := Prod.mk.inj (Option.some.inj h)
        exact ⟨rfl, ho, rfl⟩
      · rintro ⟨same, -, rfl⟩
        obtain rfl := Except.ok.inj same
        rfl

/-- The backend has no say in what it is given, and a call takes nothing else from it than the
answer to that. -/
theorem call_congr {other : Backend}
    (h : ∀ tool sent, (gate.call backend name arguments).carriedOut = some (tool, sent) →
      other tool sent = backend tool sent) :
    gate.call other name arguments = gate.call backend name arguments := by
  cases hg : gate.registry.get name with
  | error refusal => rw [call_of_refused hg, call_of_refused hg]
  | ok tool =>
    cases ho : gate.objection? tool arguments with
    | some violation => rw [call_of_objection hg ho, call_of_objection hg ho]
    | none =>
      have same := h tool arguments (carriedOut_call_iff.mpr ⟨hg, ho, rfl⟩)
      rw [call_of_clear hg ho, call_of_clear hg ho, same]

end Call

/-- The gate with other tools behind the same lock. -/
def withRegistry (gate : Gate) (registry : Registry) : Gate :=
  { gate with registry := { gate.registry with registry } }

variable {gate : Gate} {backend : Backend}

/-- A change goes through where the registry takes it, and leaves the gate alone elsewhere. -/
theorem serve_change (sane : gate.registry.poisoned = false) (change : RegistryChange) :
    (gate.serve backend (.change change)).2 =
      gate.withRegistry (gate.registry.registry.after change) := by
  have reached : gate.registry.inspect (·.change change) =
      gate.registry.registry.change change := by
    rw [LockedRegistry.inspect, sane, if_neg Bool.false_ne_true]
  rw [serve, LockedRegistry.change, reached, Registry.after]
  cases gate.registry.registry.change change with
  | ok registry => rfl
  | error refusal => rfl

/-- Serving a request changes the registry as the request asks, and nothing else. -/
theorem serve_gate (sane : gate.registry.poisoned = false) (request : GateRequest) :
    (gate.serve backend request).2 =
      gate.withRegistry (gate.registry.registry.afterAll (GateRequest.history [request])) := by
  cases request with
  | change change => exact serve_change sane change
  | get name => rfl
  | list => rfl
  | call name arguments => rfl

theorem serveAll_append (gate : Gate) (backend : Backend) (before later : List GateRequest) :
    gate.serveAll backend (before ++ later) =
      ((gate.serveAll backend before).1 ++
        ((gate.serveAll backend before).2.serveAll backend later).1,
      ((gate.serveAll backend before).2.serveAll backend later).2) := by
  induction before generalizing gate with
  | nil => rfl
  | cons request rest ih =>
    rw [List.cons_append, serveAll, serveAll, ih]
    rfl

theorem length_serveAll (gate : Gate) (backend : Backend) (requests : List GateRequest) :
    (gate.serveAll backend requests).1.length = requests.length := by
  induction requests generalizing gate with
  | nil => rfl
  | cons request rest ih => rw [serveAll, List.length_cons, List.length_cons, ih]

/-- Serving a session leads to the registry after the changes in it. -/
theorem serveAll_gate (sane : gate.registry.poisoned = false) (requests : List GateRequest) :
    (gate.serveAll backend requests).2 =
      gate.withRegistry (gate.registry.registry.afterAll (GateRequest.history requests)) := by
  induction requests generalizing gate with
  | nil => rfl
  | cons request rest ih =>
    have first : (gate.serve backend request).2 = gate.withRegistry
        (gate.registry.registry.afterAll (GateRequest.history [request])) :=
      serve_gate sane request
    have split : GateRequest.history (request :: rest) =
        GateRequest.history [request] ++ GateRequest.history rest := by
      rw [GateRequest.history, ← List.singleton_append, List.filterMap_append]
      rfl
    have still : (gate.serve backend request).2.registry.poisoned = false := by
      rw [first]
      exact sane
    rw [serveAll, ih still, first, split, Registry.afterAll_append]
    rfl

/-- A request is answered by the gate that the requests before it led to. -/
theorem serveAll_answer (gate : Gate) (backend : Backend) (before later : List GateRequest)
    (request : GateRequest) :
    (gate.serveAll backend (before ++ request :: later)).1[before.length]? =
      some ((gate.serveAll backend before).2.serve backend request).1 := by
  have here : before.length = (gate.serveAll backend before).1.length :=
    (length_serveAll gate backend before).symm
  rw [serveAll_append, here, List.getElem?_append_right (Nat.le_refl _), Nat.sub_self]
  rfl

end Gate

end SchemaGate
