import SchemaGate.Schema.Checker
import SchemaGate.Schema.Pruning
import SchemaGate.Tool.Policy
import SchemaGate.Tool.Registry

/-!
# The gate

A gate stands between callers and a backend that carries out tools. Arguments are
checked against the input schema of the tool before the backend sees them, and its
response is pruned to the output schema before it is handed back. A call yields a
result and says what the backend was given, which is at most one call.
-/

namespace SchemaGate

/-- Why a backend failed. -/
inductive BackendFailure where
  /-- Nobody answered. -/
  | unavailable (reason : String)
  /-- The answer was a failure. -/
  | status (code : Nat) (text : String)
  /-- The answer could not be decoded. -/
  | malformed (reason : String)
  deriving DecidableEq, Repr

/-- The wording of the failure. -/
def BackendFailure.message : BackendFailure → String
  | .unavailable reason => "upstream unavailable: " ++ reason
  | .status code text => "upstream returned status " ++ toString code ++ ": " ++ text
  | .malformed reason => "malformed upstream response: " ++ reason

/-- What carries out tools. -/
abbrev Backend := Tool → Json → Except BackendFailure Json

/-- Why a call failed. -/
inductive CallFailure where
  /-- The tool could not be looked up. -/
  | refused (refusal : RegistryRefusal)
  /-- The input schema does not admit the arguments. -/
  | invalidArguments (name : String) (violation : Violation)
  /-- The backend failed. -/
  | failed (name : String) (cause : BackendFailure)
  deriving DecidableEq, Repr

/-- The wording of the failure. -/
def CallFailure.message : CallFailure → String
  | .refused refusal => refusal.message
  | .invalidArguments name violation =>
    "invalid arguments for " ++ name ++ " at " ++ violation.path ++ ": "
      ++ violation.reason.message
  | .failed name cause => "invocation of " ++ name ++ " failed: " ++ cause.message

/-- What a call led to. -/
structure CallOutcome where
  /-- The response, or why there is none. -/
  result : Except CallFailure Json
  /-- The tool and the arguments that the backend was given, if it was called. -/
  carriedOut : Option (Tool × Json)

/-- A gate over a registry. -/
structure Gate where
  /-- The registry that names are looked up in. -/
  registry : LockedRegistry := {}
  /-- What is enforced. -/
  policy : GatePolicy := {}

namespace Gate

/-- The first violation by arguments, where arguments are checked at all. -/
def objection? (gate : Gate) (tool : Tool) (arguments : Json) : Option Violation :=
  if gate.policy.validateArguments then (Checker.run {} tool.input arguments).violation
  else none

/-- The response as callers get it. -/
def handBack (gate : Gate) (tool : Tool) (response : Json) : Json :=
  if gate.policy.filterResponses then prune tool.output response else response

/-- Call a tool by name. -/
def call (gate : Gate) (backend : Backend) (name : String) (arguments : Json) : CallOutcome :=
  match gate.registry.get name with
  | .error refusal => ⟨.error (.refused refusal), none⟩
  | .ok tool =>
    match gate.objection? tool arguments with
    | some violation => ⟨.error (.invalidArguments name violation), none⟩
    | none =>
      let result := match backend tool arguments with
        | .error cause => .error (.failed name cause)
        | .ok response => .ok (gate.handBack tool response)
      ⟨result, some (tool, arguments)⟩

end Gate

end SchemaGate
