import SchemaGate.Record.Layout

/-!
# Policies of a gate

What a gate enforces around a call. Everything is enforced unless a document says
otherwise.
-/

namespace SchemaGate

/-- What a gate enforces around each call. -/
structure GatePolicy where
  /-- Reject arguments that the input schema does not admit. -/
  validateArguments : Bool := true
  /-- Prune responses to the output schema. -/
  filterResponses : Bool := true
  deriving DecidableEq, Repr

namespace GatePolicy

/-- Enforce nothing. -/
def permissive : GatePolicy := ⟨false, false⟩

/-- The document of a policy. -/
def toDocument (policy : GatePolicy) : Json := .object [
  ("validate_arguments", .bool policy.validateArguments),
  ("filter_responses", .bool policy.filterResponses)]

/-- The members of a policy. -/
def layout : RecordLayout GatePolicy where
  name := "GateConfig"
  blank := {}
  members := [
    .defaulted "validate_arguments" Read.flag fun policy validateArguments =>
      { policy with validateArguments },
    .defaulted "filter_responses" Read.flag fun policy filterResponses =>
      { policy with filterResponses }]

/-- Read a policy. -/
def reader : Reader GatePolicy := layout.read

end GatePolicy

end SchemaGate
