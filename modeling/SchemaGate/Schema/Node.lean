import SchemaGate.KeyedList
import SchemaGate.NameSet

/-!
# Schema nodes

A schema is a tree of nodes. The kind of a node decides which of its members matter:
properties and required names for objects, items for arrays; what its kind ignores is
stored all the same.

Every node carries a label that says which instance it is. Nodes of one schema with
equal labels are the same instance, shared by several parents, and hence have equal
parts (`Coherent`). Labels matter only to what is remembered per instance; a schema
that says nothing about instances has trivial labels (`Schema`), and `numbered` gives
every position of a tree an instance of its own.
-/

namespace SchemaGate

/-- The logical kind of a node. -/
inductive NodeKind where
  /-- Text. -/
  | string
  /-- Any number. -/
  | number
  /-- True or false. -/
  | boolean
  /-- Values under declared names. -/
  | object
  /-- A sequence. -/
  | array
  deriving DecidableEq, Repr

namespace NodeKind

/-- The name of a kind in documents. -/
def name : NodeKind → String
  | string => "string"
  | number => "number"
  | boolean => "boolean"
  | object => "object"
  | array => "array"

/-- Whether values of the kind have no parts. -/
def isScalar : NodeKind → Bool
  | object => false
  | array => false
  | _ => true

/-- The kinds under their names. -/
def variants : List (String × NodeKind) :=
  [string, number, boolean, object, array].map fun kind => (kind.name, kind)

end NodeKind

/-- A node of a schema whose instances are labelled by `ι`. -/
structure Node (ι : Type) where
  /-- Which instance the node is. -/
  label : ι
  /-- The logical kind. -/
  kind : NodeKind
  /-- Free text without effect. -/
  description : String := ""
  /-- The declared properties of an object. -/
  properties : List (String × Node ι) := []
  /-- The names that an object must hold. -/
  required : NameSet := .empty
  /-- The schema of the elements of an array. -/
  items : Option (Node ι) := none

/-- A schema that says nothing about shared instances. -/
abbrev Schema := Node Unit

/-- A schema whose instances are told apart by numbers. -/
abbrev NumberedSchema := Node Nat

namespace Node

variable {ι κ : Type}

/-- A node of a kind with nothing else. -/
def bare (kind : NodeKind) : Schema := { label := (), kind }

/-- An array of the given elements. -/
def arrayOf (items : Schema) : Schema := { label := (), kind := .array, items := some items }

/-- The node with another description. -/
def describedAs (node : Node ι) (description : String) : Node ι := { node with description }

/-- The node with a property; one of the same name keeps its place. -/
def setProperty (node : Node ι) (name : String) (child : Node ι) : Node ι :=
  { node with properties := KeyedList.insert name child node.properties }

/-- The node with a required name. -/
def addRequired (node : Node ι) (name : String) : Node ι :=
  { node with required := node.required.add name }

/-- Whether an object node itself requires a name. -/
def requiresOwn (node : Node ι) : Bool := node.kind == .object && !node.required.isEmpty

theorem requiresOwn_iff {node : Node ι} :
    node.requiresOwn = true ↔ node.kind = .object ∧ node.required ≠ .empty := by
  simp [requiresOwn]

mutual

/-- What holds of a node as soon as it holds of its properties and items holds of all. -/
@[elab_as_elim]
theorem induction {motive : Node ι → Prop}
    (step : ∀ node, (∀ property ∈ node.properties, motive property.2) →
      (∀ child, node.items = some child → motive child) → motive node) :
    (node : Node ι) → motive node
  | ⟨_, _, _, properties, _, items⟩ =>
    step _ (induction_properties step properties) (induction_items step items)

theorem induction_properties {motive : Node ι → Prop}
    (step : ∀ node, (∀ property ∈ node.properties, motive property.2) →
      (∀ child, node.items = some child → motive child) → motive node) :
    (properties : List (String × Node ι)) → ∀ property ∈ properties, motive property.2
  | [], _, h => absurd h List.not_mem_nil
  | (_, child) :: rest, _, h =>
    (List.mem_cons.mp h).elim (fun he => he ▸ induction step child)
      (induction_properties step rest _)

theorem induction_items {motive : Node ι → Prop}
    (step : ∀ node, (∀ property ∈ node.properties, motive property.2) →
      (∀ child, node.items = some child → motive child) → motive node) :
    (items : Option (Node ι)) → ∀ child, items = some child → motive child
  | none, _, h => absurd h (Option.some_ne_none _).symm
  | some node, _, h => Option.some.inj h ▸ induction step node

end

mutual

/-- The tree with other labels. -/
def relabel (f : ι → κ) : Node ι → Node κ
  | ⟨label, kind, description, properties, required, items⟩ =>
    ⟨f label, kind, description, relabelProperties f properties, required, relabelItems f items⟩
termination_by structural node => node

/-- Properties with other labels. -/
def relabelProperties (f : ι → κ) : List (String × Node ι) → List (String × Node κ)
  | [] => []
  | (name, child) :: rest => (name, relabel f child) :: relabelProperties f rest
termination_by structural properties => properties

/-- Items with other labels. -/
def relabelItems (f : ι → κ) : Option (Node ι) → Option (Node κ)
  | none => none
  | some node => some (relabel f node)
termination_by structural items => items

end

theorem relabelProperties_eq_map (f : ι → κ) (properties : List (String × Node ι)) :
    relabelProperties f properties =
      properties.map fun property => (property.1, property.2.relabel f) := by
  induction properties with
  | nil => rfl
  | cons property rest ih => rw [relabelProperties, ih, List.map_cons]

@[simp] theorem kind_relabel (f : ι → κ) (node : Node ι) : (node.relabel f).kind = node.kind := by
  cases node
  rfl

@[simp] theorem required_relabel (f : ι → κ) (node : Node ι) :
    (node.relabel f).required = node.required := by
  cases node
  rfl

@[simp] theorem properties_relabel (f : ι → κ) (node : Node ι) :
    (node.relabel f).properties =
      node.properties.map fun property => (property.1, property.2.relabel f) := by
  cases node
  exact relabelProperties_eq_map f _

@[simp] theorem items_relabel (f : ι → κ) (node : Node ι) :
    (node.relabel f).items = node.items.map (relabel f) := by
  cases node with
  | mk label kind description properties required items => cases items <;> rfl

/-- The tree without its labels. -/
def unlabelled (node : Node ι) : Schema := node.relabel fun _ => ()

mutual

/-- The tree with labels counting its positions from `next` on, and the first unused label. -/
def numberFrom (next : Nat) : Node ι → Node Nat × Nat
  | ⟨_, kind, description, properties, required, items⟩ =>
    let (properties, afterProperties) := numberProperties (next + 1) properties
    let (items, afterItems) := numberItems afterProperties items
    (⟨next, kind, description, properties, required, items⟩, afterItems)
termination_by structural node => node

/-- Properties with labels counting their positions. -/
def numberProperties (next : Nat) : List (String × Node ι) → List (String × Node Nat) × Nat
  | [] => ([], next)
  | (name, child) :: rest =>
    let (child, afterChild) := numberFrom next child
    let (rest, afterRest) := numberProperties afterChild rest
    ((name, child) :: rest, afterRest)
termination_by structural properties => properties

/-- Items with labels counting their positions. -/
def numberItems (next : Nat) : Option (Node ι) → Option (Node Nat) × Nat
  | none => (none, next)
  | some node =>
    let (node, afterNode) := numberFrom next node
    (some node, afterNode)
termination_by structural items => items

end

/-- The tree with an instance of its own in every position. -/
def numbered (node : Node ι) : NumberedSchema := (numberFrom 0 node).1

/-- A node of a schema: the schema itself, or a node of one of its children. -/
inductive Within : Node ι → Node ι → Prop where
  /-- The schema itself. -/
  | self (node : Node ι) : Within node node
  /-- Below a property. -/
  | property {node child root : Node ι} {name : String} :
      (name, child) ∈ root.properties → Within node child → Within node root
  /-- Below the items. -/
  | items {node child root : Node ι} :
      root.items = some child → Within node child → Within node root

/-- What stands in a schema is the schema itself or stands in one of its children. -/
theorem within_iff {node root : Node ι} :
    Within node root ↔ node = root ∨ (∃ property ∈ root.properties, Within node property.2) ∨
      ∃ child, root.items = some child ∧ Within node child := by
  constructor
  · intro h
    cases h with
    | self => exact .inl rfl
    | property hm hw => exact .inr (.inl ⟨_, hm, hw⟩)
    | items hi hw => exact .inr (.inr ⟨_, hi, hw⟩)
  · rintro (rfl | ⟨⟨name, child⟩, hm, hw⟩ | ⟨child, hi, hw⟩)
    · exact .self node
    · exact .property hm hw
    · exact .items hi hw

theorem Within.trans {a b c : Node ι} (inner : Within a b) (outer : Within b c) : Within a c := by
  induction outer with
  | self => exact inner
  | property hm _ ih => exact .property hm ih
  | items hm _ ih => exact .items hm ih

theorem within_of_mem_properties {node root : Node ι} (h : Within node root)
    {property : String × Node ι} (hm : property ∈ node.properties) : Within property.2 root :=
  (Within.property hm (.self _)).trans h

theorem within_of_items {node child root : Node ι} (h : Within node root)
    (hi : node.items = some child) : Within child root :=
  (Within.items hi (.self _)).trans h

theorem sizeOf_lt_of_mem_properties {root : Node ι} {property : String × Node ι}
    (hm : property ∈ root.properties) : sizeOf property.2 < sizeOf root := by
  have inside := List.sizeOf_lt_of_mem hm
  cases property
  cases root
  simp only [Prod.mk.sizeOf_spec, Node.mk.sizeOf_spec] at inside ⊢
  omega

theorem sizeOf_lt_of_items {root child : Node ι} (hi : root.items = some child) :
    sizeOf child < sizeOf root := by
  cases root
  cases hi
  simp only [Node.mk.sizeOf_spec, Option.some.sizeOf_spec]
  omega

theorem Within.sizeOf_le {node root : Node ι} (h : Within node root) :
    sizeOf node ≤ sizeOf root := by
  induction h with
  | self => exact Nat.le_refl _
  | property hm _ ih => exact Nat.le_of_lt (Nat.lt_of_le_of_lt ih (sizeOf_lt_of_mem_properties hm))
  | items hi _ ih => exact Nat.le_of_lt (Nat.lt_of_le_of_lt ih (sizeOf_lt_of_items hi))

/-- A schema does not stand below one of its own properties. -/
theorem not_within_of_mem_properties {root : Node ι} {property : String × Node ι}
    (hm : property ∈ root.properties) : ¬ Within root property.2 :=
  fun h => absurd (sizeOf_lt_of_mem_properties hm) (Nat.not_lt_of_le h.sizeOf_le)

/-- Something holds everywhere in a schema if it holds of the root and everywhere below. -/
theorem forall_within_iff {p : Node ι → Prop} {root : Node ι} :
    (∀ node, Within node root → p node) ↔ p root ∧
      (∀ property ∈ root.properties, ∀ node, Within node property.2 → p node) ∧
      ∀ child, root.items = some child → ∀ node, Within node child → p node := by
  constructor
  · intro h
    exact ⟨h root (.self root), fun _ hm node hw => h node (.property hm hw),
      fun _ hi node hw => h node (.items hi hw)⟩
  · rintro ⟨own, properties, items⟩ node hw
    rcases within_iff.mp hw with rfl | ⟨property, hm, hw⟩ | ⟨child, hi, hw⟩
    · exact own
    · exact properties property hm node hw
    · exact items child hi node hw

/-- Nodes with equal labels are the same instance. -/
def Coherent (root : Node ι) : Prop :=
  ∀ a b : Node ι, Within a root → Within b root → a.label = b.label → a = b

/-- Every node names each property once. A set of names carries the proof of as much; a node,
being made of the nodes among its properties, cannot. -/
def WellFormed (root : Node ι) : Prop :=
  ∀ node : Node ι, Within node root → (KeyedList.keys node.properties).Nodup

/-- The nodes of a well-formed schema are well-formed. -/
theorem WellFormed.of_within {node root : Node ι} (h : root.WellFormed)
    (hw : node.Within root) : node.WellFormed :=
  fun inner hi => h inner (hi.trans hw)

theorem WellFormed.of_mem_properties {root : Node ι} (h : root.WellFormed)
    {property : String × Node ι} (hm : property ∈ root.properties) : property.2.WellFormed :=
  h.of_within (within_of_mem_properties (.self root) hm)

theorem WellFormed.of_items {root child : Node ι} (h : root.WellFormed)
    (hi : root.items = some child) : child.WellFormed :=
  h.of_within (within_of_items (.self root) hi)

/-- A schema is well-formed if its root is and the schemas below the root are. -/
theorem wellFormed_iff {root : Node ι} :
    root.WellFormed ↔ (KeyedList.keys root.properties).Nodup ∧
      (∀ property ∈ root.properties, property.2.WellFormed) ∧
      ∀ child, root.items = some child → child.WellFormed :=
  forall_within_iff

theorem wellFormed_bare (kind : NodeKind) : (bare kind).WellFormed := by
  rw [wellFormed_iff]
  simp [bare, KeyedList.keys]

theorem wellFormed_arrayOf {items : Schema} (h : items.WellFormed) :
    (arrayOf items).WellFormed := by
  rw [wellFormed_iff]
  simp [arrayOf, KeyedList.keys, h]

/-- A well-formed node names each property once. -/
theorem WellFormed.nodup_keys {node : Node ι} (h : node.WellFormed) :
    (KeyedList.keys node.properties).Nodup :=
  h node (.self node)

/-- Every object node requires declared names only. -/
def Closed (root : Node ι) : Prop :=
  ∀ node : Node ι, Within node root → node.kind = .object →
    ∀ name ∈ node.required, name ∈ KeyedList.keys node.properties

/-- A schema is closed if its root requires declared names only and the schemas below the
root are closed. -/
theorem closed_iff {root : Node ι} :
    root.Closed ↔
      (root.kind = .object → ∀ name ∈ root.required, name ∈ KeyedList.keys root.properties) ∧
      (∀ property ∈ root.properties, property.2.Closed) ∧
      ∀ child, root.items = some child → child.Closed :=
  forall_within_iff

theorem closed_bare (kind : NodeKind) : (bare kind).Closed := by
  rw [closed_iff]
  simp [bare]

theorem closed_arrayOf {items : Schema} (h : items.Closed) : (arrayOf items).Closed := by
  rw [closed_iff]
  simp [arrayOf, h]

end Node

end SchemaGate
