import SchemaGate.Schema.Checker

/-!
# Acceptance

What a schema accepts, said by rules alone: nothing is remembered, no order is fixed,
and labels do not matter. A node requires a name if it is an object node with a
required name of its own or with a property whose node requires one; items are never
asked. `Accepts` says which values have the kind of a node, hold its required names and
have accepted parts, and where null may stand for a value.

A run of a checker answers by these rules (`visit_eq_none_iff`) as long as what it
remembers is right for every instance of the schema (`Memory.Sound`), which each
question keeps (`Memory.Sound.learn`) where equal labels mean equal nodes.
-/

namespace SchemaGate

variable {ι : Type}

/-- The kind of values that nodes of a kind are about. -/
def NodeKind.values : NodeKind → ValueKind
  | string => .string
  | number => .number
  | boolean => .boolean
  | object => .object
  | array => .array

theorem NodeKind.values_eq_object_iff {kind : NodeKind} :
    kind.values = .object ↔ kind = .object := by
  cases kind <;> simp [values]

namespace Node

/-- The node requires a name, itself or through properties alone. -/
inductive Requires : Node ι → Prop where
  /-- It is an object node that requires a name. -/
  | own {node : Node ι} : node.kind = .object → node.required ≠ .empty → Requires node
  /-- It is an object node with a property that requires a name. -/
  | property {node child : Node ι} {name : String} :
      node.kind = .object → (name, child) ∈ node.properties → Requires child → Requires node

theorem requires_iff {node : Node ι} :
    Requires node ↔ node.kind = .object ∧
      (node.required ≠ .empty ∨ ∃ property ∈ node.properties, Requires property.2) := by
  constructor
  · intro h
    cases h with
    | own hk hr => exact ⟨hk, .inl hr⟩
    | property hk hm hr => exact ⟨hk, .inr ⟨_, hm, hr⟩⟩
  · rintro ⟨hk, hr | ⟨_, hm, hr⟩⟩
    · exact .own hk hr
    · exact .property hk hm hr

/-- The schema accepts the value. -/
inductive Accepts : Node ι → Json → Prop where
  /-- Null stands for a value without parts where nothing is required. -/
  | null {node : Node ι} : node.kind.isScalar = false → ¬ Requires node → Accepts node .null
  /-- A text. -/
  | string {node : Node ι} {text : String} :
      node.kind = .string → Accepts node (.string text)
  /-- A number. -/
  | number {node : Node ι} {value : Number} :
      node.kind = .number → Accepts node (.number value)
  /-- A truth value. -/
  | boolean {node : Node ι} {value : Bool} :
      node.kind = .boolean → Accepts node (.bool value)
  /-- An array whose elements are accepted, if anything is said of them. -/
  | array {node : Node ι} {elements : List Json} :
      node.kind = .array →
      (∀ child, node.items = some child → ∀ element ∈ elements, Accepts child element) →
      Accepts node (.array elements)
  /-- An object with its required names present and its declared properties accepted;
  null counts as absent except under an object node. -/
  | object {node : Node ι} {members : List (String × Json)} :
      node.kind = .object →
      (∀ name ∈ node.required, isAbsent members name = false) →
      (∀ property ∈ node.properties, ∀ field,
        KeyedList.find? property.1 members = some field →
        (field = .null → property.2.kind = .object) → Accepts property.2 field) →
      Accepts node (.object members)

theorem accepts_null_iff {node : Node ι} :
    Accepts node .null ↔ node.kind.isScalar = false ∧ ¬ Requires node :=
  ⟨fun h => by cases h with | null hk hr => exact ⟨hk, hr⟩, fun h => .null h.1 h.2⟩

theorem accepts_bool_iff {node : Node ι} {value : Bool} :
    Accepts node (.bool value) ↔ node.kind = .boolean :=
  ⟨fun h => by cases h with | boolean hk => exact hk, .boolean⟩

theorem accepts_number_iff {node : Node ι} {value : Number} :
    Accepts node (.number value) ↔ node.kind = .number :=
  ⟨fun h => by cases h with | number hk => exact hk, .number⟩

theorem accepts_string_iff {node : Node ι} {text : String} :
    Accepts node (.string text) ↔ node.kind = .string :=
  ⟨fun h => by cases h with | string hk => exact hk, .string⟩

theorem accepts_array_iff {node : Node ι} {elements : List Json} :
    Accepts node (.array elements) ↔ node.kind = .array ∧
      ∀ child, node.items = some child → ∀ element ∈ elements, Accepts child element :=
  ⟨fun h => by cases h with | array hk he => exact ⟨hk, he⟩, fun h => .array h.1 h.2⟩

theorem accepts_object_iff {node : Node ι} {members : List (String × Json)} :
    Accepts node (.object members) ↔ node.kind = .object ∧
      (∀ name ∈ node.required, isAbsent members name = false) ∧
      ∀ property ∈ node.properties, ∀ field,
        KeyedList.find? property.1 members = some field →
        (field = .null → property.2.kind = .object) → Accepts property.2 field :=
  ⟨fun h => by cases h with | object hk hr hp => exact ⟨hk, hr, hp⟩,
    fun h => .object h.1 h.2.1 h.2.2⟩

/-- An accepted value that is not null has the kind of its node. -/
theorem Accepts.kind_eq {node : Node ι} {value : Json} (h : Accepts node value)
    (hn : value ≠ .null) : value.kind = node.kind.values := by
  cases h with
  | null => exact absurd rfl hn
  | string hk => rw [hk]; rfl
  | number hk => rw [hk]; rfl
  | boolean hk => rw [hk]; rfl
  | array hk => rw [hk]; rfl
  | object hk => rw [hk]; rfl

/-- Scalar nodes accept the values of their kind. -/
theorem accepts_iff_of_isScalar {node : Node ι} (hs : node.kind.isScalar = true) {value : Json} :
    Accepts node value ↔ value.kind = node.kind.values := by
  constructor
  · intro h
    refine h.kind_eq ?_
    rintro rfl
    rw [(accepts_null_iff.mp h).1] at hs
    cases hs
  · intro hv
    cases hk : node.kind with
    | string =>
      rw [hk] at hv
      cases value <;> cases hv
      exact .string hk
    | number =>
      rw [hk] at hv
      cases value <;> cases hv
      exact .number hk
    | boolean =>
      rw [hk] at hv
      cases value <;> cases hv
      exact .boolean hk
    | object =>
      rw [hk] at hs
      cases hs
    | array =>
      rw [hk] at hs
      cases hs

end Node

variable [DecidableEq ι]

/-- Every remembered answer is right for the instances of a schema. -/
def Memory.Sound (root : Node ι) (memory : Memory ι) : Prop :=
  ∀ (node : Node ι) (answer : Bool), node.Within root → node.kind = .object →
    KeyedList.find? node.label memory.known = some answer → (answer = true ↔ node.Requires)

namespace Memory.Sound

theorem empty (root : Node ι) : Memory.Sound root {} :=
  fun _ _ _ _ h => by simp [KeyedList.find?] at h

/-- A right answer may be remembered. -/
theorem learn {root node : Node ι} {memory : Memory ι} {answer : Bool} (hc : root.Coherent)
    (hw : node.Within root) (hs : Memory.Sound root memory)
    (ha : answer = true ↔ node.Requires) :
    Memory.Sound root (memory.learn node.label answer) := by
  intro other given ho hk hf
  simp only [Memory.learn, KeyedList.find?] at hf
  split at hf
  · next hl =>
    obtain rfl := hc _ _ hw ho hl
    obtain rfl := Option.some.inj hf
    exact ha
  · exact hs other given ho hk hf

end Memory.Sound

namespace Node

variable {root : Node ι}

mutual

/-- Asking a node answers by the rules and keeps the memory right. -/
theorem requires_eq_true_iff (hc : root.Coherent) :
    (node : Node ι) → node.Within root → ∀ memory, Memory.Sound root memory →
      ((requires node memory).1 = true ↔ node.Requires) ∧
        Memory.Sound root (requires node memory).2
  | ⟨label, kind, description, properties, required, items⟩, hw, memory, hs => by
    have miss : Memory.Sound root memory.miss := hs
    have parts := anyRequires_eq_true_iff hc properties
      (fun _ hm => within_of_mem_properties hw hm) _ miss
    rw [requires]
    split
    · next hk =>
      split
      · next answer hf => exact ⟨hs _ _ hw hk hf, hs⟩
      · dsimp only
        by_cases hr : required = .empty
        · rw [if_neg fun own => (requiresOwn_iff.mp own).2 hr]
          have right : (anyRequires properties memory.miss).1 = true ↔
              Requires ⟨label, kind, description, properties, required, items⟩ := by
            rw [parts.1, requires_iff]
            simp [hk, hr]
          exact ⟨right, parts.2.learn hc hw right⟩
        · rw [if_pos (requiresOwn_iff.mpr ⟨hk, hr⟩)]
          have right : true = true ↔
              Requires ⟨label, kind, description, properties, required, items⟩ :=
            iff_of_true rfl (.own hk hr)
          exact ⟨right, miss.learn hc hw right⟩
    · next hk =>
      exact ⟨by simpa using fun h => hk (requires_iff.mp h).1, hs⟩

/-- Asking properties one by one finds one that requires a name if there is one. -/
theorem anyRequires_eq_true_iff (hc : root.Coherent) :
    (properties : List (String × Node ι)) → (∀ property ∈ properties, property.2.Within root) →
      ∀ memory, Memory.Sound root memory →
      ((anyRequires properties memory).1 = true ↔
        ∃ property ∈ properties, property.2.Requires) ∧
        Memory.Sound root (anyRequires properties memory).2
  | [], _, memory, hs => ⟨by simp [anyRequires], hs⟩
  | (name, child) :: rest, hw, memory, hs => by
    have first := requires_eq_true_iff hc child (hw (name, child) List.mem_cons_self) memory hs
    have later := anyRequires_eq_true_iff hc rest
      (fun _ hm => hw _ (List.mem_cons_of_mem _ hm)) _ first.2
    rw [anyRequires]
    split
    · next h => exact ⟨by simp [h, ← first.1], first.2⟩
    · next h => exact ⟨by rw [later.1]; simp [← first.1, h], later.2⟩

end

/-- Elements are free of violations exactly if each one is, wherever counting starts. -/
theorem firstViolation_eq_none_iff {σ : Type} {visit : Json → σ → Option Violation × σ}
    {good : Json → Prop} {sound : σ → Prop}
    (hv : ∀ element memory, sound memory →
      ((visit element memory).1 = none ↔ good element) ∧ sound (visit element memory).2)
    (position : Nat) (elements : List Json) (memory : σ) (hs : sound memory) :
    ((firstViolation visit position elements memory).1 = none ↔
      ∀ element ∈ elements, good element) ∧
      sound (firstViolation visit position elements memory).2 := by
  induction elements generalizing position memory with
  | nil => exact ⟨by simp [firstViolation], hs⟩
  | cons element rest ih =>
    obtain ⟨first, kept⟩ := hv element memory hs
    have later := ih (position + 1) _ kept
    simp only [firstViolation]
    split
    · next h => exact ⟨by simp [← first, h], kept⟩
    · next h => exact ⟨by simp [← first, h, later.1], later.2⟩

mutual

/-- A visit finds no violation exactly in accepted values, and keeps the memory right. -/
theorem visit_eq_none_iff (hc : root.Coherent) :
    (node : Node ι) → node.Within root → ∀ value memory, Memory.Sound root memory →
      ((visit node value memory).1 = none ↔ node.Accepts value) ∧
        Memory.Sound root (visit node value memory).2
  | ⟨label, kind, description, properties, required, items⟩, hw, value, memory, hs => by
    unfold visit
    split
    · exact ⟨by rw [accepts_null_iff, requires_iff]; simp [NodeKind.isScalar], hs⟩
    · have asked := requires_eq_true_iff hc _ hw memory hs
      refine ⟨?_, asked.2⟩
      rw [accepts_null_iff, ← asked.1]
      simp [NodeKind.isScalar]
    · exact ⟨by simp [Accepts.string], hs⟩
    · exact ⟨by simp [Accepts.number], hs⟩
    · exact ⟨by simp [Accepts.boolean], hs⟩
    · next elements =>
      have parts := visitElements_eq_none_iff hc items
        (fun _ hi => within_of_items hw hi) elements memory hs
      rw [accepts_array_iff]
      exact ⟨by rw [parts.1]; simp, parts.2⟩
    · next members =>
      have parts := visitProperties_eq_none_iff hc properties
        (fun _ hm => within_of_mem_properties hw hm) members memory hs
      rw [accepts_object_iff]
      split
      · next name hf =>
        refine ⟨iff_of_false (by simp) fun h => ?_, hs⟩
        exact absurd (List.find?_some hf) (by simp [h.2.1 name (List.mem_of_find?_eq_some hf)])
      · next hf =>
        refine ⟨?_, parts.2⟩
        have held : ∀ name ∈ required, isAbsent members name = false := by simpa using hf
        rw [parts.1]
        exact ⟨fun h => ⟨rfl, held, h⟩, fun h => h.2.2⟩
    · refine ⟨iff_of_false (by simp) fun h => ?_, hs⟩
      cases h <;> simp_all [NodeKind.isScalar]

/-- Elements are free of violations exactly if the items accept each of them. -/
theorem visitElements_eq_none_iff (hc : root.Coherent) :
    (items : Option (Node ι)) → (∀ child, items = some child → child.Within root) →
      ∀ elements memory, Memory.Sound root memory →
      ((visitElements items elements memory).1 = none ↔
        ∀ child, items = some child → ∀ element ∈ elements, child.Accepts element) ∧
        Memory.Sound root (visitElements items elements memory).2
  | none, _, elements, memory, hs => ⟨by simp [visitElements], hs⟩
  | some node, hw, elements, memory, hs => by
    rw [visitElements]
    simpa using firstViolation_eq_none_iff
      (fun element memory hs => visit_eq_none_iff hc node (hw _ rfl) element memory hs)
      0 elements memory hs

/-- Properties are free of violations exactly if each one that counts is accepted. -/
theorem visitProperties_eq_none_iff (hc : root.Coherent) :
    (properties : List (String × Node ι)) → (∀ property ∈ properties, property.2.Within root) →
      ∀ members memory, Memory.Sound root memory →
      ((visitProperties properties members memory).1 = none ↔
        ∀ property ∈ properties, ∀ field, KeyedList.find? property.1 members = some field →
          (field = .null → property.2.kind = .object) → property.2.Accepts field) ∧
        Memory.Sound root (visitProperties properties members memory).2
  | [], _, members, memory, hs => ⟨by simp [visitProperties], hs⟩
  | (name, child) :: rest, hw, members, memory, hs => by
    have later := fun memory hs => visitProperties_eq_none_iff hc rest
      (fun _ hm => hw _ (List.mem_cons_of_mem _ hm)) members memory hs
    rw [visitProperties]
    split
    · next hf => exact ⟨by rw [(later memory hs).1]; simp [hf], (later memory hs).2⟩
    · next field hf =>
      have first := visit_eq_none_iff hc child (hw (name, child) List.mem_cons_self)
        field memory hs
      split
      · next hn =>
        have hn : field = .null ∧ ¬ child.kind = .object := by
          simpa [Json.isNull_iff] using hn
        refine ⟨?_, (later memory hs).2⟩
        rw [(later memory hs).1]
        simp [hf, hn]
      · next hn =>
        have hn : field = .null → child.kind = .object := by simpa [Json.isNull_iff] using hn
        dsimp only
        split
        · next h =>
          refine ⟨iff_of_false (by simp) fun all => ?_, first.2⟩
          have := first.1.mpr (all (name, child) List.mem_cons_self field hf hn)
          simp [h] at this
        · next h =>
          have := later _ first.2
          refine ⟨?_, this.2⟩
          rw [this.1]
          simp [hf, first.1.mp h]

end

end Node

end SchemaGate
