import SchemaGate.Schema.Places

/-!
# Questions about required names

Where null meets an object node, a check must know whether the node requires a name. To
answer without memory is to walk the node. A node with required names of its own is
walked at once; the walk of another one asks its properties that are object nodes, in
order, up to the first that requires a name (`asks`), and so on from there (`Walks`).

A check goes on up to the first place where something is wrong (`visited`), so these
places give the questions that it has to answer (`questions`) and the nodes that have to
be walked to answer them (`Evaluates`), whatever is remembered on the way.
-/

namespace SchemaGate

variable {ι α : Type}

/-- The entries up to the first one that fits, which is the last. -/
def upToFirst (fits : α → Bool) : List α → List α
  | [] => []
  | entry :: rest => entry :: if fits entry then [] else upToFirst fits rest

theorem mem_of_mem_upToFirst {fits : α → Bool} {entries : List α} {entry : α}
    (h : entry ∈ upToFirst fits entries) : entry ∈ entries := by
  induction entries with
  | nil => exact h
  | cons first rest ih =>
    rw [upToFirst, List.mem_cons] at h
    rcases h with rfl | h
    · exact List.mem_cons_self
    · split at h
      · cases h
      · exact List.mem_cons_of_mem _ (ih h)

namespace Node

/-- The object nodes among properties, up to the first one that requires a name. -/
def examined (properties : List (String × Node ι)) : List (Node ι) :=
  upToFirst (fun child => decide child.Requires)
    ((properties.map Prod.snd).filter fun child => child.kind == .object)

/-- The nodes that the walk of a node asks. -/
def asks (node : Node ι) : List (Node ι) :=
  if node.required.isEmpty then examined node.properties else []

/-- To answer for the first node the second one is walked. -/
inductive Walks : Node ι → Node ι → Prop where
  /-- The node itself is. -/
  | self (node : Node ι) : Walks node node
  /-- So is what is walked for the nodes that it asks. -/
  | ask {node child walked : Node ι} : child ∈ node.asks → Walks child walked →
      Walks node walked

theorem mem_examined {properties : List (String × Node ι)} {child : Node ι}
    (h : child ∈ examined properties) :
    child.kind = .object ∧ ∃ property ∈ properties, property.2 = child := by
  have h := mem_of_mem_upToFirst h
  rw [List.mem_filter, List.mem_map] at h
  exact ⟨by simpa using h.2, h.1⟩

theorem mem_asks {node child : Node ι} (h : child ∈ node.asks) :
    child.kind = .object ∧ ∃ property ∈ node.properties, property.2 = child := by
  unfold asks at h
  split at h
  · exact mem_examined h
  · cases h

/-- Properties that are no object nodes are not asked, nor are those behind one that requires
a name. -/
theorem examined_cons (property : String × Node ι) (rest : List (String × Node ι)) :
    examined (property :: rest) =
      if property.2.kind = .object then
        property.2 :: if property.2.Requires then [] else examined rest
      else examined rest := by
  unfold examined
  rw [List.map_cons, List.filter_cons]
  by_cases hk : property.2.kind = .object
  · simp only [hk, beq_self_eq_true, if_true, upToFirst, decide_eq_true_eq]
  · simp only [hk, beq_iff_eq, if_false]

/-- No node stands below a node that it asks. -/
theorem not_within_of_mem_asks {node child : Node ι} (h : child ∈ node.asks) :
    ¬ node.Within child := by
  obtain ⟨-, property, hm, rfl⟩ := mem_asks h
  exact not_within_of_mem_properties hm

/-- What is walked for a node stands in it. -/
theorem Walks.within {node walked : Node ι} (h : Walks node walked) : walked.Within node := by
  induction h with
  | self node => exact .self node
  | ask ha _ ih =>
    obtain ⟨-, property, hm, rfl⟩ := mem_asks ha
    exact .property hm ih

/-- Only object nodes are walked for an object node. -/
theorem Walks.kind_eq {node walked : Node ι} (h : Walks node walked)
    (hk : node.kind = .object) : walked.kind = .object := by
  induction h with
  | self => exact hk
  | ask ha _ ih => exact ih (mem_asks ha).1

end Node

namespace Place

/-- Whether something is wrong at the place. -/
def isWrong (place : Place ι) : Bool := place.violation?.isSome

/-- Whether null meets an object node at the place. -/
def isQuestion (place : Place ι) : Bool := place.node.kind == .object && place.value.isNull

theorem isQuestion_iff {place : Place ι} :
    place.isQuestion = true ↔ place.node.kind = .object ∧ place.value = .null := by
  simp [isQuestion, Json.isNull_iff]

/-- The answer to the question at a place says whether something is wrong there. -/
theorem violation?_of_isQuestion {place : Place ι} (h : place.isQuestion = true) :
    place.violation? =
      if place.node.Requires then some ⟨place.steps, .nullWithRequired⟩ else none := by
  obtain ⟨object, null⟩ := isQuestion_iff.mp h
  rw [violation?, null, Node.breach?_null_of_object object]
  split
  · simp [Violation.here]
  · rfl

/-- The nodes that null meets on a walk along places that ends where something is wrong. -/
def questions (places : List (Place ι)) : List (Node ι) :=
  ((upToFirst isWrong places).filter isQuestion).map Place.node

theorem questions_cons (place : Place ι) (rest : List (Place ι)) :
    questions (place :: rest) =
      (if place.isQuestion then [place.node] else []) ++
        if place.isWrong then [] else questions rest := by
  rw [questions, questions, upToFirst, List.filter_cons]
  split <;> split <;> rfl

end Place

namespace Node

/-- The places that a check comes to: it stops where something is wrong. -/
def visited (schema : Node ι) (value : Json) : List (Place ι) :=
  upToFirst Place.isWrong (schema.places value)

/-- The nodes that null meets on a check are those at places that it comes to. -/
theorem mem_questions_places_iff {schema node : Node ι} {value : Json} :
    node ∈ Place.questions (schema.places value) ↔
      ∃ place ∈ schema.visited value, place.isQuestion = true ∧ place.node = node := by
  simp only [Place.questions, visited, List.mem_map, List.mem_filter, and_assoc]

/-- The answers that a check needs make it walk the node. -/
def Evaluates (schema : Node ι) (value : Json) (node : Node ι) : Prop :=
  ∃ place ∈ schema.visited value, place.isQuestion = true ∧ Walks place.node node

mutual

/-- The nodes that are reached from a node through properties of object nodes and items of
array nodes, once for every way. -/
def reachable : Node ι → List (Node ι)
  | ⟨label, kind, description, properties, required, items⟩ =>
    ⟨label, kind, description, properties, required, items⟩ ::
      match kind with
      | .object => reachableProperties properties
      | .array => reachableItems items
      | _ => []
termination_by structural node => node

/-- The nodes that are reached from properties. -/
def reachableProperties : List (String × Node ι) → List (Node ι)
  | [] => []
  | (_, child) :: rest => reachable child ++ reachableProperties rest
termination_by structural properties => properties

/-- The nodes that are reached from items. -/
def reachableItems : Option (Node ι) → List (Node ι)
  | none => []
  | some child => reachable child
termination_by structural items => items

end

theorem mem_reachableProperties_iff {properties : List (String × Node ι)} {node : Node ι} :
    node ∈ reachableProperties properties ↔
      ∃ property ∈ properties, node ∈ property.2.reachable := by
  induction properties with
  | nil => simp [reachableProperties]
  | cons property rest ih => simp [reachableProperties, ih]

theorem self_mem_reachable (node : Node ι) : node ∈ node.reachable := by
  cases node
  exact List.mem_cons_self

theorem mem_reachable_of_property {node root : Node ι} (hk : root.kind = .object)
    {property : String × Node ι} (hm : property ∈ root.properties)
    (h : node ∈ property.2.reachable) : node ∈ root.reachable := by
  cases root
  cases hk
  exact List.mem_cons_of_mem _ (mem_reachableProperties_iff.mpr ⟨property, hm, h⟩)

theorem mem_reachable_of_items {node child root : Node ι} (hk : root.kind = .array)
    (hi : root.items = some child) (h : node ∈ child.reachable) : node ∈ root.reachable := by
  cases root
  cases hk
  cases hi
  exact List.mem_cons_of_mem _ h

/-- What is reached from a node that is reached is reached. -/
theorem reachable_trans {a b c : Node ι} (inner : a ∈ b.reachable) (outer : b ∈ c.reachable) :
    a ∈ c.reachable := by
  induction c using Node.induction with
  | step root ihp ihi =>
    obtain ⟨label, kind, description, properties, required, items⟩ := root
    unfold reachable at outer
    rw [List.mem_cons] at outer
    rcases outer with rfl | outer
    · exact inner
    · split at outer
      · obtain ⟨property, hm, h⟩ := mem_reachableProperties_iff.mp outer
        exact mem_reachable_of_property rfl hm (ihp property hm h)
      · cases items with
        | none => cases outer
        | some child => exact mem_reachable_of_items rfl rfl (ihi child rfl outer)
      · cases outer

/-- The nodes at places are reached. -/
theorem mem_reachable_of_mem_places {node : Node ι} {value : Json} {place : Place ι}
    (h : place ∈ node.places value) : place.node ∈ node.reachable := by
  refine mem_places_induction (motive := fun node _ place => place.node ∈ node.reachable)
    ?_ ?_ ?_ h
  · exact fun node _ => node.self_mem_reachable
  · exact fun _ _ _ _ _ _ hk hi _ inside => mem_reachable_of_items hk hi inside
  · exact fun _ _ _ _ _ hk hp _ inside => mem_reachable_of_property hk hp inside

/-- The nodes that are walked for an object node are reached from it. -/
theorem Walks.mem_reachable {node walked : Node ι} (h : Walks node walked)
    (hk : node.kind = .object) : walked ∈ node.reachable := by
  induction h with
  | self node => exact node.self_mem_reachable
  | ask ha _ ih =>
    obtain ⟨object, property, hm, rfl⟩ := mem_asks ha
    exact mem_reachable_of_property hk hm (ih object)

/-- The nodes that a check walks are object nodes that are reached from its schema. -/
theorem Evaluates.kind_and_mem {schema node : Node ι} {value : Json}
    (h : schema.Evaluates value node) : node.kind = .object ∧ node ∈ schema.reachable := by
  obtain ⟨place, hm, hq, hw⟩ := h
  have object := (Place.isQuestion_iff.mp hq).1
  refine ⟨hw.kind_eq object, ?_⟩
  exact reachable_trans (hw.mem_reachable object)
    (mem_reachable_of_mem_places (mem_of_mem_upToFirst hm))

end Node

end SchemaGate
