import SchemaGate.Json.Basic
import SchemaGate.Schema.Node

/-!
# Checking values against schemas

A schema admits a value that has its kind and holds its required names, and whose
declared parts are admitted by their schemas; nothing is coerced. Null stands for an
empty object or an empty array: an array node admits it, a scalar node does not, and an
object node does unless the node, or an object node reached from it through properties
alone, requires a name. In a property null counts as absent, except under an object
node. The first violation is reported, elements in order, required names before
properties.

Whether a node requires anything is asked again and again, so each run remembers the
answer per instance and counts the questions answered from memory (`hits`) and those
that walked a node (`misses`).
-/

namespace SchemaGate

variable {ι : Type}

/-- A step from a value to one of its parts. -/
inductive Step where
  /-- To an element of an array. -/
  | index (position : Nat)
  /-- To a member of an object. -/
  | name (key : String)
  deriving DecidableEq, Repr

/-- A step as paths write it. -/
def Step.text : Step → String
  | .index position => toString position
  | .name key => key

/-- Why a schema rejects a value. -/
inductive Reason where
  /-- The value is of another kind, or null where a scalar is wanted. -/
  | wrongKind (expected : NodeKind) (found : ValueKind)
  /-- Null stands for an object that would lack a required name. -/
  | nullWithRequired
  /-- A required name is absent or null. -/
  | missingRequired
  deriving DecidableEq, Repr

/-- The wording of a reason. -/
def Reason.message : Reason → String
  | .wrongKind expected found => "expected " ++ expected.name ++ ", got " ++ found.name
  | .nullWithRequired => "null where required fields are declared"
  | .missingRequired => "missing required field"

/-- Where and why a value breaks a schema. -/
structure Violation where
  /-- The steps from the root to the place. -/
  steps : List Step
  /-- What is wrong there. -/
  reason : Reason
  deriving DecidableEq, Repr

namespace Violation

/-- A violation at the root. -/
def here (reason : Reason) : Violation := ⟨[], reason⟩

/-- The violation seen from one step above. -/
def below (step : Step) (violation : Violation) : Violation :=
  { violation with steps := step :: violation.steps }

/-- The steps after a slash, joined by slashes; the root is a slash alone. -/
def path (violation : Violation) : String :=
  "/" ++ "/".intercalate (violation.steps.map Step.text)

end Violation

/-- What a run remembers of the instances it asked, and its counters. -/
structure Memory (ι : Type) where
  /-- Whether an instance requires anything. -/
  known : List (ι × Bool) := []
  /-- Questions answered from memory. -/
  hits : Nat := 0
  /-- Questions that walked a node. -/
  misses : Nat := 0

namespace Memory

/-- One more question answered from memory. -/
def hit (memory : Memory ι) : Memory ι := { memory with hits := memory.hits + 1 }

/-- One more question that walks a node. -/
def miss (memory : Memory ι) : Memory ι := { memory with misses := memory.misses + 1 }

/-- Remember the answer for an instance. -/
def learn (memory : Memory ι) (label : ι) (answer : Bool) : Memory ι :=
  { memory with known := (label, answer) :: memory.known }

end Memory

/-- A name is absent from an object or null in it. -/
def isAbsent (members : List (String × Json)) (name : String) : Bool :=
  (KeyedList.find? name members).all Json.isNull

/-- A name is present in an object unless nothing or null stands under it. -/
theorem isAbsent_eq_false_iff {members : List (String × Json)} {name : String} :
    isAbsent members name = false ↔
      ∃ value, KeyedList.find? name members = some value ∧ value ≠ .null := by
  unfold isAbsent
  cases h : KeyedList.find? name members with
  | none => simp
  | some value => simp [← Json.isNull_iff]

namespace Node

variable [DecidableEq ι]

mutual

/-- Whether a node requires a name, itself or through its properties. -/
def requires : Node ι → Memory ι → Bool × Memory ι
  | node@⟨label, kind, _, properties, _, _⟩, memory =>
    if kind = .object then
      match KeyedList.find? label memory.known with
      | some answer => (answer, memory.hit)
      | none =>
        let asked :=
          if node.requiresOwn then (true, memory.miss) else anyRequires properties memory.miss
        (asked.1, asked.2.learn label asked.1)
    else (false, memory)
termination_by structural node => node

/-- Whether one of the properties requires a name; later ones are not asked. -/
def anyRequires : List (String × Node ι) → Memory ι → Bool × Memory ι
  | [], memory => (false, memory)
  | (_, child) :: rest, memory =>
    let asked := requires child memory
    if asked.1 then asked else anyRequires rest asked.2
termination_by structural properties => properties

end

/-- The first violation among elements, from a position on. -/
def firstViolation {σ : Type} (visit : Json → σ → Option Violation × σ) :
    (position : Nat) → List Json → σ → Option Violation × σ
  | _, [], memory => (none, memory)
  | position, element :: rest, memory =>
    let visited := visit element memory
    match visited.1 with
    | some violation => (some (violation.below (.index position)), visited.2)
    | none => firstViolation visit (position + 1) rest visited.2

mutual

/-- The first violation of a schema by a value. -/
def visit : Node ι → Json → Memory ι → Option Violation × Memory ι
  | ⟨label, kind, description, properties, required, items⟩, value, memory =>
    match kind, value with
    | .array, .null => (none, memory)
    | .object, .null =>
      let asked := requires ⟨label, kind, description, properties, required, items⟩ memory
      (if asked.1 then some (.here .nullWithRequired) else none, asked.2)
    | .string, .string _ => (none, memory)
    | .number, .number _ => (none, memory)
    | .boolean, .bool _ => (none, memory)
    | .array, .array elements => visitElements items elements memory
    | .object, .object members =>
      match required.names.find? (isAbsent members) with
      | some name => (some ⟨[.name name], .missingRequired⟩, memory)
      | none => visitProperties properties members memory
    | kind, value => (some (.here (.wrongKind kind value.kind)), memory)
termination_by structural node => node

/-- The first violation among the elements of an array. -/
def visitElements : Option (Node ι) → List Json → Memory ι → Option Violation × Memory ι
  | none, _, memory => (none, memory)
  | some node, elements, memory =>
    firstViolation (fun element => visit node element) 0 elements memory
termination_by structural items => items

/-- The first violation among the declared properties of an object. -/
def visitProperties : List (String × Node ι) → List (String × Json) → Memory ι →
    Option Violation × Memory ι
  | [], _, memory => (none, memory)
  | (name, child) :: rest, members, memory =>
    match KeyedList.find? name members with
    | none => visitProperties rest members memory
    | some field =>
      if field.isNull && child.kind != .object then visitProperties rest members memory
      else
        let visited := visit child field memory
        match visited.1 with
        | some violation => (some (violation.below (.name name)), visited.2)
        | none => visitProperties rest members visited.2
termination_by structural properties => properties

end

end Node

/-- A checker of values, with the memory and the violation of its last run. -/
structure Checker (ι : Type) where
  /-- What the last run remembered. -/
  memory : Memory ι := {}
  /-- The first violation that the last run met, if it met one. -/
  violation : Option Violation := none

namespace Checker

variable [DecidableEq ι]

/-- The checker after a run on a value. A run starts from an empty memory. -/
def run (_ : Checker ι) (schema : Node ι) (value : Json) : Checker ι :=
  let visited := schema.visit value {}
  ⟨visited.2, visited.1⟩

/-- Whether the last run met no violation. -/
def passed (checker : Checker ι) : Bool := checker.violation.isNone

end Checker

/-- Whether a schema admits a value; without a schema every value is admitted. -/
def admits [DecidableEq ι] (schema : Option (Node ι)) (value : Json) : Bool :=
  match schema with
  | none => true
  | some node => (Checker.run {} node value).passed

end SchemaGate
