import SchemaGate.Schema.Node

/-!
# Equality of schemas

Two schemas are equal when they have the same kind and description, the same children
under the same names, the same required names and the same items, members that a kind
ignores included. The order of properties and of required names does not matter, nor
do labels. `equal_iff` says what equality asks of two nodes and of the schemas below them.
-/

namespace SchemaGate.Node

variable {ι κ : Type}

/-- Whether two sets hold the same names. -/
def sameNames (a b : NameSet) : Bool :=
  a.names.length == b.names.length && a.names.all fun name => b.names.contains name

mutual

/-- Whether two schemas are equal. -/
def equal : Node ι → Node κ → Bool
  | ⟨_, kind, description, properties, required, items⟩, other =>
    kind == other.kind && description == other.description
      && properties.length == other.properties.length
      && equalProperties properties other.properties
      && sameNames required other.required
      && equalItems items other.items
termination_by structural node => node

/-- Whether each property has an equal one under the same name. -/
def equalProperties : List (String × Node ι) → List (String × Node κ) → Bool
  | [], _ => true
  | (name, child) :: rest, others =>
    (match KeyedList.find? name others with
      | some other => equal child other
      | none => false)
      && equalProperties rest others
termination_by structural properties => properties

/-- Whether items are equal or missing on both sides. -/
def equalItems : Option (Node ι) → Option (Node κ) → Bool
  | none, none => true
  | some node, some other => equal node other
  | _, _ => false
termination_by structural items => items

end

theorem equalProperties_iff {properties : List (String × Node ι)}
    {others : List (String × Node κ)} : equalProperties properties others = true ↔
      ∀ property ∈ properties, ∃ other,
        KeyedList.find? property.1 others = some other ∧ property.2.equal other = true := by
  induction properties with
  | nil => simp [equalProperties]
  | cons property rest ih =>
    obtain ⟨name, child⟩ := property
    rw [equalProperties, Bool.and_eq_true, ih, List.forall_mem_cons]
    refine and_congr_left fun _ => ?_
    cases KeyedList.find? name others <;> simp

theorem equalItems_iff {items : Option (Node ι)} {others : Option (Node κ)} :
    equalItems items others = true ↔ (items = none ↔ others = none) ∧
      ∀ child other, items = some child → others = some other → child.equal other = true := by
  cases items <;> cases others <;> simp [equalItems]

/-- Schemas are equal if their roots hold the same and the schemas below are equal. -/
theorem equal_iff {node : Node ι} {other : Node κ} : node.equal other = true ↔
    node.kind = other.kind ∧ node.description = other.description ∧
    node.properties.length = other.properties.length ∧
    (∀ property ∈ node.properties, ∃ twin,
      KeyedList.find? property.1 other.properties = some twin ∧
      property.2.equal twin = true) ∧
    sameNames node.required other.required = true ∧
    (node.items = none ↔ other.items = none) ∧
    ∀ child twin, node.items = some child → other.items = some twin →
      child.equal twin = true := by
  obtain ⟨label, kind, description, properties, required, items⟩ := node
  rw [equal]
  simp only [Bool.and_eq_true, beq_iff_eq, equalProperties_iff, equalItems_iff, and_assoc]

end SchemaGate.Node
